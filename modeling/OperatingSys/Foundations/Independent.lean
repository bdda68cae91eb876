import OperatingSys.Foundations.Interleaved
import OperatingSys.Foundations.Machine

/-!
Movers that share nothing.

Each mover steps a part of the state that only it sees. A run of all of them is a run of
each, the events interleaved in any way: what one of them does is read off its part of the
trace (`solo_of_run`), and runs of the movers one by one may be put together in every order
(`run_of_solo`).
-/

namespace OperatingSys

variable {σ ι ε : Type*}

/-- A run of one mover, with its events, extended at its end. -/
inductive Solo (f : σ → Option (ε × σ)) (s : σ) : List ε → σ → Prop
  | nil : Solo f s [] s
  | snoc {es : List ε} {t u : σ} {e : ε} (h : Solo f s es t) (h' : f t = some (e, u)) :
      Solo f s (es ++ [e]) u

namespace Solo

variable {f : σ → Option (ε × σ)} {s t u : σ} {es es' : List ε} {e : ε}

/-- The induction rule of the runs of one mover. -/
lemma induct_events {I : List ε → σ → Prop} (h0 : I [] s)
    (hstep : ∀ es t e u, I es t → f t = some (e, u) → I (es ++ [e]) u) (h : Solo f s es t) :
    I es t := by
  induction h with
  | nil => exact h0
  | snoc _ h' ih => exact hstep _ _ _ _ ih h'

lemma eq_of_nil (h : Solo f s [] t) : t = s := by
  generalize hl : ([] : List ε) = l at h
  cases h with
  | nil => rfl
  | snoc h h' => simp at hl

/-- The last step. -/
lemma last (h : Solo f s (es ++ [e]) u) : ∃ t, Solo f s es t ∧ f t = some (e, u) := by
  generalize hl : es ++ [e] = l at h
  cases h with
  | nil => simp at hl
  | snoc h h' =>
      obtain ⟨rfl, he⟩ := List.append_inj' hl rfl
      cases he
      exact ⟨_, h, h'⟩

lemma append (h : Solo f s es t) (h' : Solo f t es' u) : Solo f s (es ++ es') u := by
  induction h' with
  | nil => simpa using h
  | snoc _ hs ih =>
      rw [← List.append_assoc]
      exact ih.snoc hs

lemma single (h : f s = some (e, u)) : Solo f s [e] u := by
  simpa using (Solo.nil (f := f) (s := s)).snoc h

/-- A step in front of a run. -/
lemma cons (h : f s = some (e, t)) (h' : Solo f t es u) : Solo f s (e :: es) u :=
  (single h).append h'

end Solo

section Independent

variable [DecidableEq ι]

/-- Movers `ι`, each with a program and a state of its own. -/
def independent (f : ι → σ → Option (ε × σ)) : Machine (ι → σ) ι ε where
  step s i := (f i (s i)).map fun (e, t) => (e, Function.update s i t)

variable {f : ι → σ → Option (ε × σ)} {s t : ι → σ} {tr : List (ι × ε)}

lemma independent_step_iff {i : ι} {e : ε} :
    (independent f).step s i = some (e, t)
      ↔ ∃ u, f i (s i) = some (e, u) ∧ t = Function.update s i u := by
  constructor
  · intro h
    obtain ⟨⟨e', u⟩, hu, heq⟩ := Option.map_eq_some_iff.mp h
    cases heq
    exact ⟨u, hu, rfl⟩
  · rintro ⟨u, hu, rfl⟩
    exact Option.map_eq_some_iff.mpr ⟨(e, u), hu, rfl⟩

lemma part_snoc_self (i : ι) (e : ε) (tr : List (ι × ε)) :
    part i (tr ++ [(i, e)]) = part i tr ++ [e] := by
  rw [part_append, part_cons_self, part_nil]

lemma part_snoc_of_ne {i j : ι} (h : j ≠ i) (e : ε) (tr : List (ι × ε)) :
    part i (tr ++ [(j, e)]) = part i tr := by
  rw [part_append, part_cons_of_ne h, part_nil, List.append_nil]

/-- A run of all is a run of each. -/
lemma solo_of_run (h : (independent f).Run s tr t) (i : ι) :
    Solo (f i) (s i) (part i tr) (t i) := by
  refine h.induct_trace (I := fun tr t => Solo (f i) (s i) (part i tr) (t i)) .nil ?_
  intro tr t j e u hI hs
  obtain ⟨r, hr, rfl⟩ := independent_step_iff.mp hs
  by_cases hj : j = i
  · subst hj
    rw [part_snoc_self, Function.update_self]
    exact hI.snoc hr
  · rwa [part_snoc_of_ne hj, Function.update_of_ne (Ne.symm hj)]

/-- Runs of each, in whatever order their steps are taken, are a run of all. -/
lemma run_of_solo (h : ∀ i, Solo (f i) (s i) (part i tr) (t i)) :
    (independent f).Run s tr t := by
  induction tr using List.reverseRecOn generalizing t with
  | nil =>
      have hts : t = s := funext fun i => (h i).eq_of_nil
      subst hts
      exact .nil
  | append_singleton tr q ih =>
      obtain ⟨i, e⟩ := q
      have hi := h i
      rw [part_snoc_self] at hi
      obtain ⟨r, hr, hstep⟩ := hi.last
      -- the state before the last step, which only the last mover has left
      have hbefore : (independent f).Run s tr (Function.update t i r) := by
        refine ih fun j => ?_
        by_cases hj : i = j
        · subst hj
          rwa [Function.update_self]
        · rw [Function.update_of_ne (Ne.symm hj), ← part_snoc_of_ne hj e tr]
          exact h j
      refine hbefore.snoc (independent_step_iff.mpr ⟨t i, ?_, ?_⟩)
      · rwa [Function.update_self]
      · rw [Function.update_idem, Function.update_eq_self]

end Independent

end OperatingSys
