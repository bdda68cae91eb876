import Mathlib.Tactic

/-!
Machines stepped by a scheduler, and their runs.

A machine says what each mover does next in a state: `step s i` is `none` when
`i` cannot move (it is blocked or has finished), and otherwise the event `i`
shows together with the next state. A schedule is a list of movers, so every
interleaving of the movers is a run and every run is an interleaving.

* `Machine.Run`: the runs, extended at their end, with their trace of events;
  `Run.induct_trace` is the rule for invariants that read the trace and
  `Reachable.invariant` the one for invariants of the state alone. Runs are put
  together by `Run.append` and taken apart by `Run.split`.
* `Machine.Stuck`: nobody can move. Where runs are bounded in length, every run
  goes on to a stuck state (`Run.exists_stuck`).
* `Machine.exec`: a schedule played out, so that a concrete run can be
  computed (`run_of_exec`).
* `Machine.alone`: some steps of one mover, computed on the part of the state it
  sees.
* `Machine.Meets`, `Machine.Everywhere`: a condition on the state a mover is to
  move in, along a whole schedule. `Meets.induct_trace` and `Meets.invariant` are the
  induction rules of the schedules whose moves all meet a condition, and `exec_of_meets` the rule by
  which such a schedule plays out to its end.
-/

namespace OperatingSys

/-- **A machine**: states `σ`, movers `ι` and the events `ε` their steps show. -/
structure Machine (σ ι ε : Type*) where
  step : σ → ι → Option (ε × σ)

/-- What is read off the steps of a trace grows by what its last step shows. -/
lemma filterMap_snoc {α β : Type*} (f : α → Option β) (l : List α) (a : α) :
    (l ++ [a]).filterMap f = l.filterMap f ++ (f a).toList := by
  rw [List.filterMap_append]
  cases h : f a <;> simp [h]

namespace Machine

variable {σ ι ε : Type*} (M : Machine σ ι ε)

/-- `i` can move in `s`. -/
def Enabled (s : σ) (i : ι) : Prop := (M.step s i).isSome

/-- A run from `s` with its trace, extended at its end. -/
inductive Run (s : σ) : List (ι × ε) → σ → Prop
  | nil : Run s [] s
  | snoc {tr : List (ι × ε)} {t u : σ} {i : ι} {e : ε} (h : Run s tr t)
      (h' : M.step t i = some (e, u)) : Run s (tr ++ [(i, e)]) u

/-- `t` is reached from `s` by some run. -/
def Reachable (s t : σ) : Prop := ∃ tr, M.Run s tr t

variable {M}

/-- The induction rule of runs: a relation between the trace and the state that
holds at the start and is kept by every step holds after every run. -/
theorem Run.induct_trace {s : σ} {I : List (ι × ε) → σ → Prop} (h0 : I [] s)
    (hstep : ∀ tr t i e u, I tr t → M.step t i = some (e, u) → I (tr ++ [(i, e)]) u)
    {tr : List (ι × ε)} {t : σ} (h : M.Run s tr t) : I tr t := by
  induction h with
  | nil => exact h0
  | snoc _ h' ih => exact hstep _ _ _ _ _ ih h'

lemma Reachable.refl (s : σ) : M.Reachable s s := ⟨[], .nil⟩

lemma Reachable.step {s t u : σ} {i : ι} {e : ε} (h : M.Reachable s t)
    (h' : M.step t i = some (e, u)) : M.Reachable s u := by
  obtain ⟨tr, hr⟩ := h
  exact ⟨_, hr.snoc h'⟩

/-- The induction rule of reachable states. -/
theorem Reachable.invariant {s : σ} {I : σ → Prop} (h0 : I s)
    (hstep : ∀ t i e u, I t → M.step t i = some (e, u) → I u)
    {t : σ} (h : M.Reachable s t) : I t := by
  obtain ⟨tr, hr⟩ := h
  exact hr.induct_trace (I := fun _ => I) h0 fun _ t i e u => hstep t i e u

/-! ### Runs put together and taken apart -/

lemma Run.append {s t u : σ} {tr tr' : List (ι × ε)} (h : M.Run s tr t) (h' : M.Run t tr' u) :
    M.Run s (tr ++ tr') u := by
  induction h' with
  | nil => simpa using h
  | snoc _ hs ih =>
      rw [← List.append_assoc]
      exact ih.snoc hs

lemma Reachable.trans {s t u : σ} (h : M.Reachable s t) (h' : M.Reachable t u) :
    M.Reachable s u := by
  obtain ⟨tr, hr⟩ := h
  obtain ⟨tr', hr'⟩ := h'
  exact ⟨tr ++ tr', hr.append hr'⟩

/-- The last step of a run. -/
lemma Run.last {s u : σ} {tr : List (ι × ε)} {i : ι} {e : ε} (h : M.Run s (tr ++ [(i, e)]) u) :
    ∃ t, M.Run s tr t ∧ M.step t i = some (e, u) := by
  generalize hl : tr ++ [(i, e)] = l at h
  cases h with
  | nil => simp at hl
  | snoc h hs =>
      obtain ⟨rfl, hq⟩ := List.append_inj' hl rfl
      simp only [List.cons.injEq, Prod.mk.injEq, and_true] at hq
      obtain ⟨rfl, rfl⟩ := hq
      exact ⟨_, h, hs⟩

/-- A run passes a state wherever its trace is cut. -/
lemma Run.split {s u : σ} {tr tr' : List (ι × ε)} (h : M.Run s (tr ++ tr') u) :
    ∃ t, M.Run s tr t ∧ M.Run t tr' u := by
  induction tr' using List.reverseRecOn generalizing u with
  | nil => exact ⟨u, by simpa using h, .nil⟩
  | append_singleton tr' q ih =>
      rw [← List.append_assoc] at h
      obtain ⟨t, ht, hs⟩ := h.last
      obtain ⟨r, hr, hrt⟩ := ih ht
      exact ⟨r, hr, hrt.snoc hs⟩

/-- A run with a step in the middle. -/
lemma Run.split_cons {s u : σ} {tr tr' : List (ι × ε)} {i : ι} {e : ε}
    (h : M.Run s (tr ++ (i, e) :: tr') u) :
    ∃ t t', M.Run s tr t ∧ M.step t i = some (e, t') ∧ M.Run t' tr' u := by
  rw [List.append_cons] at h
  obtain ⟨t', ht', hu⟩ := h.split
  obtain ⟨t, ht, hs⟩ := ht'.last
  exact ⟨t, t', ht, hs, hu⟩

/-! ### States where nobody can move -/

/-- Nobody can move in `s`. -/
def Stuck (M : Machine σ ι ε) (s : σ) : Prop := ∀ i, ¬ M.Enabled s i

lemma stuck_iff {s : σ} : M.Stuck s ↔ ∀ i, M.step s i = none := by
  simp only [Stuck, Enabled, Option.not_isSome_iff_eq_none]

/-- If the runs from `s` are bounded in length, each of them goes on to a state
where nobody can move. -/
theorem Run.exists_stuck {s t : σ} {tr : List (ι × ε)} {B : ℕ}
    (hB : ∀ tr t, M.Run s tr t → tr.length ≤ B) (h : M.Run s tr t) :
    ∃ tr' u, M.Run s (tr ++ tr') u ∧ M.Stuck u := by
  induction hd : B - tr.length generalizing tr t with
  | zero =>
      refine ⟨[], t, by simpa using h, fun i hi => ?_⟩
      -- one more step would exceed the bound
      obtain ⟨⟨e, u⟩, hs⟩ := Option.isSome_iff_exists.mp hi
      have hlen := hB _ _ (h.snoc hs)
      rw [List.length_append, List.length_singleton] at hlen
      omega
  | succ d ih =>
      by_cases hst : M.Stuck t
      · exact ⟨[], t, by simpa using h, hst⟩
      · rw [stuck_iff] at hst
        push Not at hst
        obtain ⟨i, hi⟩ := hst
        obtain ⟨⟨e, u⟩, hs⟩ := Option.ne_none_iff_exists'.mp hi
        obtain ⟨tr', v, hr, hv⟩ := ih (h.snoc hs) (by
          rw [List.length_append, List.length_singleton]
          omega)
        exact ⟨(i, e) :: tr', v, by simpa using hr, hv⟩

/-- A measure that every step lessens bounds the runs. -/
lemma Run.length_le {μ : σ → ℕ} (hstep : ∀ t i e u, M.step t i = some (e, u) → μ u < μ t)
    {s t : σ} {tr : List (ι × ε)} (h : M.Run s tr t) : tr.length ≤ μ s := by
  have hle : tr.length + μ t ≤ μ s :=
    h.induct_trace (I := fun tr t => tr.length + μ t ≤ μ s) (by simp)
      fun tr t i e u hI hs => by
        have hlt := hstep t i e u hs
        rw [List.length_append, List.length_singleton]
        omega
  omega

/-! ### Schedules played out -/

/-- The state and the trace a schedule leads to, if every mover on it can move
at its turn. -/
def exec (M : Machine σ ι ε) : List ι → σ → Option (List (ι × ε) × σ)
  | [], s => some ([], s)
  | i :: is, s =>
      match M.step s i with
      | none => none
      | some (e, t) => (exec M is t).map fun r => ((i, e) :: r.1, r.2)

/-- A schedule whose first mover can move goes on from the state it leaves. -/
lemma exec_cons {i : ι} {s t : σ} {e : ε} (h : M.step s i = some (e, t)) (is : List ι) :
    M.exec (i :: is) s = (M.exec is t).map fun r => ((i, e) :: r.1, r.2) := by
  rw [exec, h]

/-- A schedule whose first mover cannot move does not play out. -/
lemma exec_cons_none {i : ι} {s : σ} (h : M.step s i = none) (is : List ι) :
    M.exec (i :: is) s = none := by
  rw [exec, h]

/-- A move in front of a schedule that plays out. -/
lemma exec_cons_of_exec {is : List ι} {i : ι} {s t u : σ} {tr : List (ι × ε)} {e : ε}
    (h : M.step s i = some (e, t)) (h' : M.exec is t = some (tr, u)) :
    M.exec (i :: is) s = some ((i, e) :: tr, u) := by
  rw [exec_cons h, h']
  rfl

/-- The first move of a schedule that plays out. -/
lemma exec_first {is : List ι} {i : ι} {s u : σ} {tr : List (ι × ε)}
    (h : M.exec (i :: is) s = some (tr, u)) :
    ∃ e t tr', M.step s i = some (e, t) ∧ M.exec is t = some (tr', u) ∧ tr = (i, e) :: tr' := by
  cases hs : M.step s i with
  | none =>
      rw [exec_cons_none hs] at h
      cases h
  | some r =>
      obtain ⟨e, t⟩ := r
      rw [exec_cons hs, Option.map_eq_some_iff] at h
      obtain ⟨⟨tr', v⟩, he, hr⟩ := h
      cases hr
      exact ⟨e, t, tr', rfl, he, rfl⟩

/-- A run goes on with what a schedule plays out from its end. -/
lemma Run.append_exec {s : σ} : ∀ (is : List ι) {tr tr' : List (ι × ε)} {t u : σ},
    M.Run s tr t → M.exec is t = some (tr', u) → M.Run s (tr ++ tr') u
  | [], tr, tr', t, u, h, he => by
      simp only [exec, Option.some.injEq, Prod.mk.injEq] at he
      obtain ⟨rfl, rfl⟩ := he
      simpa using h
  | i :: is, tr, tr', t, u, h, he => by
      obtain ⟨e, t', tr₁, hs, he', rfl⟩ := exec_first he
      have := Run.append_exec is (h.snoc hs) he'
      rwa [List.append_assoc, List.singleton_append] at this

/-- A schedule that plays out is a run. -/
theorem run_of_exec {is : List ι} {s t : σ} {tr : List (ι × ε)}
    (h : M.exec is s = some (tr, t)) : M.Run s tr t := by
  simpa using Run.append_exec is (.nil (s := s)) h

lemma reachable_of_exec {is : List ι} {s t : σ} {tr : List (ι × ε)}
    (h : M.exec is s = some (tr, t)) : M.Reachable s t := ⟨tr, run_of_exec h⟩

/-- A schedule that plays out to something that passes a test gives a run that
does. -/
lemma exists_run {is : List ι} {s : σ} {p : List (ι × ε) × σ → Bool}
    (h : (M.exec is s).any p = true) : ∃ tr t, M.Run s tr t ∧ p (tr, t) = true := by
  rw [Option.any_eq_true] at h
  obtain ⟨⟨tr, t⟩, he, hp⟩ := h
  exact ⟨tr, t, run_of_exec he, hp⟩

lemma exec_append (is : List ι) (i : ι) (s : σ) :
    M.exec (is ++ [i]) s = (M.exec is s).bind fun (tr, t) =>
      (M.step t i).map fun (e, u) => (tr ++ [(i, e)], u) := by
  induction is generalizing s with
  | nil => cases h : M.step s i <;> simp [exec, h]
  | cons j is ih =>
      cases h : M.step s j with
      | none => simp [exec, h]
      | some r =>
          obtain ⟨e, t⟩ := r
          simp only [List.cons_append, exec, h, ih]
          cases M.exec is t with
          | none => rfl
          | some q =>
              obtain ⟨tr, u⟩ := q
              cases h' : M.step u i <;> simp [h']

/-- The next move of a schedule that has played out so far. -/
lemma exec_snoc {is : List ι} {i : ι} {s t u : σ} {tr : List (ι × ε)} {e : ε}
    (h : M.exec is s = some (tr, t)) (h' : M.step t i = some (e, u)) :
    M.exec (is ++ [i]) s = some (tr ++ [(i, e)], u) := by
  rw [exec_append, h]
  simp [h']

/-- A schedule goes on with another one. -/
lemma exec_trans {is js : List ι} {s t u : σ} {tr tr' : List (ι × ε)}
    (h : M.exec is s = some (tr, t)) (h' : M.exec js t = some (tr', u)) :
    M.exec (is ++ js) s = some (tr ++ tr', u) := by
  induction is generalizing s tr with
  | nil =>
      cases h
      exact h'
  | cons i is ih =>
      obtain ⟨e, s', tr₁, hs, he, rfl⟩ := exec_first h
      exact exec_cons_of_exec hs (ih he)

/-! ### One mover alone -/

section Alone

variable {τ : Type*}

/-- `n` steps in a row by a mover that sees a part `τ` of the state. -/
def alone (f : τ → Option (ε × τ)) : ℕ → τ → Option τ
  | 0, t => some t
  | n + 1, t => (f t).bind fun r => alone f n r.2

/-- What a mover does alone on its part of the state it does in the whole
state. -/
lemma reachable_alone {i : ι} {g : τ → σ} {f : τ → Option (ε × τ)}
    (hf : ∀ t, M.step (g t) i = (f t).map fun r => (r.1, g r.2)) {n : ℕ} {t t' : τ}
    (h : alone f n t = some t') : M.Reachable (g t) (g t') := by
  induction n generalizing t with
  | zero =>
      cases h
      exact .refl _
  | succ n ih =>
      obtain ⟨⟨e, u⟩, hu, hrest⟩ := Option.bind_eq_some_iff.mp h
      have hstep : M.step (g t) i = some (e, g u) := by
        rw [hf, hu, Option.map_some]
      exact ((Reachable.refl _).step hstep).trans (ih hrest)

end Alone

/-! ### Conditions along a schedule -/

/-- Every move of the schedule that is reached meets `P`, a condition on the
state it is made in. -/
def Meets (M : Machine σ ι ε) (P : σ → ι → Prop) (is : List ι) (s : σ) : Prop :=
  ∀ pre i, pre ++ [i] <+: is → ∀ tr t, M.exec pre s = some (tr, t) → P t i

/-- Every move of the schedule is reached, and `Q` holds of the trace so far, the
state and the move. -/
def Everywhere (M : Machine σ ι ε) (Q : List (ι × ε) → σ → ι → Prop) (is : List ι)
    (s : σ) : Prop :=
  ∀ pre i, pre ++ [i] <+: is → ∃ tr t, M.exec pre s = some (tr, t) ∧ Q tr t i

lemma Meets.of_prefix {P : σ → ι → Prop} {is js : List ι} {s : σ} (h : M.Meets P is s)
    (hp : js <+: is) : M.Meets P js s :=
  fun pre i hi => h pre i (hi.trans hp)

lemma meets_nil {P : σ → ι → Prop} {s : σ} : M.Meets P [] s :=
  fun pre i hp => by simp at hp

/-- A schedule meets a condition when its first move does, and the rest of it from the
state that move leaves. -/
lemma meets_cons_iff {P : σ → ι → Prop} {i : ι} {is : List ι} {s : σ} :
    M.Meets P (i :: is) s ↔ P s i ∧ ∀ r, M.step s i = some r → M.Meets P is r.2 := by
  constructor
  · intro h
    refine ⟨h [] i (List.cons_prefix_cons.mpr ⟨rfl, List.nil_prefix⟩) [] s rfl, ?_⟩
    intro r hr pre j hj tr t he
    refine h (i :: pre) j (List.cons_prefix_cons.mpr ⟨rfl, hj⟩) ((i, r.1) :: tr) t ?_
    exact exec_cons_of_exec hr he
  · rintro ⟨h0, h⟩ pre j hj tr t he
    cases pre with
    | nil =>
        obtain ⟨rfl, -⟩ := List.cons_prefix_cons.mp hj
        cases he
        exact h0
    | cons k pre =>
        obtain ⟨rfl, hj'⟩ := List.cons_prefix_cons.mp hj
        obtain ⟨e, s', tr', hs, he', -⟩ := exec_first he
        exact h (e, s') hs pre j hj' tr' t he'

/-- A schedule meets a condition when its moves but the last do and the last does
in the state they lead to. -/
lemma meets_append_singleton {P : σ → ι → Prop} {is : List ι} {i : ι} {s : σ} :
    M.Meets P (is ++ [i]) s ↔ M.Meets P is s ∧ ∀ tr t, M.exec is s = some (tr, t) → P t i := by
  constructor
  · intro h
    exact ⟨h.of_prefix (List.prefix_append _ _), h is i List.prefix_rfl⟩
  · rintro ⟨h, hi⟩ pre j hj
    rcases List.prefix_concat_iff.mp hj with heq | hpre
    · obtain ⟨rfl, hlast⟩ := List.append_inj' heq rfl
      cases hlast
      exact hi
    · exact h pre j hpre

/-- A condition on one more move of a schedule that has played out so far. -/
lemma meets_snoc_iff {P : σ → ι → Prop} {is : List ι} {i : ι} {s t : σ} {tr : List (ι × ε)}
    (h : M.exec is s = some (tr, t)) : M.Meets P (is ++ [i]) s ↔ M.Meets P is s ∧ P t i := by
  rw [meets_append_singleton]
  refine and_congr_right fun _ => ⟨fun hi => hi tr t h, fun hi tr' t' h' => ?_⟩
  rw [h] at h'
  cases h'
  exact hi

/-- The last move of a schedule that plays out. -/
lemma exec_last {is : List ι} {i : ι} {s u : σ} {tr : List (ι × ε)}
    (h : M.exec (is ++ [i]) s = some (tr, u)) :
    ∃ tr' t e, M.exec is s = some (tr', t) ∧ M.step t i = some (e, u) ∧ tr = tr' ++ [(i, e)] := by
  rw [exec_append, Option.bind_eq_some_iff] at h
  obtain ⟨⟨tr', t⟩, he, hstep⟩ := h
  obtain ⟨⟨e, v⟩, hs, hr⟩ := Option.map_eq_some_iff.mp hstep
  cases hr
  exact ⟨tr', t, e, he, hs, rfl⟩

/-- The induction rule of schedules that play out and whose moves meet a condition,
for invariants that read the trace. -/
theorem Meets.induct_trace {P : σ → ι → Prop} {I : List (ι × ε) → σ → Prop} {s : σ}
    (h0 : I [] s) (hstep : ∀ tr t i e u, I tr t → P t i → M.step t i = some (e, u) →
      I (tr ++ [(i, e)]) u) {is : List ι} (h : M.Meets P is s) {tr : List (ι × ε)} {t : σ}
    (he : M.exec is s = some (tr, t)) : I tr t := by
  induction is using List.reverseRecOn generalizing tr t with
  | nil =>
      cases he
      exact h0
  | append_singleton is i ih =>
      obtain ⟨tr', t', e, he', hs, rfl⟩ := exec_last he
      obtain ⟨hm, hi⟩ := (meets_snoc_iff he').mp h
      exact hstep tr' t' i e t (ih hm he') hi hs

/-- The same for invariants of the state alone. -/
theorem Meets.invariant {P : σ → ι → Prop} {I : σ → Prop} {s : σ} (h0 : I s)
    (hstep : ∀ t i e u, I t → P t i → M.step t i = some (e, u) → I u) {is : List ι}
    (h : M.Meets P is s) {tr : List (ι × ε)} {t : σ} (he : M.exec is s = some (tr, t)) : I t :=
  h.induct_trace (I := fun _ => I) h0 (fun _ t i e u => hstep t i e u) he

/-- `S` holds at every point a schedule leads through. -/
def Throughout (M : Machine σ ι ε) (S : List (ι × ε) → σ → Prop) (is : List ι) (s : σ) : Prop :=
  ∀ js, js <+: is → ∀ tr t, M.exec js s = some (tr, t) → S tr t

/-- The rule of exact conditions: moves that meet `P` keep `S`, with the help of an
invariant, and a move that does not can be made and breaks it. So `S` holds throughout a
schedule exactly when all its moves meet `P`. -/
theorem throughout_iff_meets {P : σ → ι → Prop} {S I : List (ι × ε) → σ → Prop} {s : σ}
    (h0 : S [] s ∧ I [] s)
    (hkeep : ∀ tr t i e u, S tr t → I tr t → P t i → M.step t i = some (e, u) →
      S (tr ++ [(i, e)]) u ∧ I (tr ++ [(i, e)]) u)
    (hbreak : ∀ tr t i, S tr t → I tr t → ¬ P t i →
      ∃ e u, M.step t i = some (e, u) ∧ ¬ S (tr ++ [(i, e)]) u)
    {is : List ι} : M.Throughout S is s ↔ M.Meets P is s := by
  have hboth : ∀ js : List ι, M.Meets P js s → ∀ tr t, M.exec js s = some (tr, t) →
      S tr t ∧ I tr t := fun js h tr t he =>
    h.induct_trace (I := fun tr t => S tr t ∧ I tr t) h0
      (fun tr t i e u hSI => hkeep tr t i e u hSI.1 hSI.2) he
  constructor
  · intro hS
    induction is using List.reverseRecOn with
    | nil => exact meets_nil
    | append_singleton is i ih =>
        have his := ih fun js hjs => hS js (hjs.trans (List.prefix_append _ _))
        refine meets_append_singleton.mpr ⟨his, fun tr t he => ?_⟩
        by_contra hP
        obtain ⟨hSt, hIt⟩ := hboth is his tr t he
        obtain ⟨e, u, hs, hnot⟩ := hbreak tr t i hSt hIt hP
        exact hnot (hS _ List.prefix_rfl _ _ (exec_snoc he hs))
  · exact fun h js hjs tr t he => (hboth js (h.of_prefix hjs) tr t he).1

/-- The rule of schedules whose moves have a size: if an invariant counts at most the sizes
so far, and lets every move go on that does not exceed the bound, a schedule whose sizes sum
up to at most the bound plays out. -/
theorem exec_of_size {P : ι → Prop} {size : ι → ℕ} {B : ℕ} {I : ℕ → σ → Prop} {s : σ}
    (h0 : I 0 s) (hstep : ∀ n t i, I n t → P i → n + size i ≤ B →
      ∃ e u n', M.step t i = some (e, u) ∧ I n' u ∧ n' ≤ n + size i)
    {is : List ι} (hP : ∀ i ∈ is, P i) (hsum : (is.map size).sum ≤ B) :
    ∃ tr t n, M.exec is s = some (tr, t) ∧ I n t ∧ n ≤ (is.map size).sum := by
  induction is using List.reverseRecOn with
  | nil => exact ⟨[], s, 0, rfl, h0, le_rfl⟩
  | append_singleton is i ih =>
      rw [List.map_append, List.sum_append, List.map_singleton, List.sum_singleton] at hsum ⊢
      obtain ⟨tr, t, n, he, hI, hn⟩ :=
        ih (fun j hj => hP j (List.mem_append_left _ hj)) (by omega)
      obtain ⟨e, u, n', hs, hI', hn'⟩ := hstep n t i hI (hP i (by simp)) (by omega)
      exact ⟨_, u, n', exec_snoc he hs, hI', by omega⟩

/-- Along a schedule that plays out, what holds throughout holds at every point. -/
lemma throughout_iff_exec {S : List (ι × ε) → σ → Prop} {is : List ι} {s : σ}
    (h : ∀ js, js <+: is → ∃ tr t, M.exec js s = some (tr, t)) :
    M.Throughout S is s ↔ ∀ js, js <+: is → ∃ tr t, M.exec js s = some (tr, t) ∧ S tr t := by
  constructor
  · intro hS js hjs
    obtain ⟨tr, t, he⟩ := h js hjs
    exact ⟨tr, t, he, hS js hjs tr t he⟩
  · intro hS js hjs tr t he
    obtain ⟨tr', t', he', hSt⟩ := hS js hjs
    rw [he] at he'
    cases he'
    exact hSt

/-- A first move to where a property fails. -/
lemma not_forall_exec {Q : σ → Prop} {i : ι} {s t : σ} {e : ε} (hs : M.step s i = some (e, t))
    (hnot : ¬ Q t) (is : List ι) :
    ¬ ∀ js, js <+: i :: is → ∃ tr u, M.exec js s = some (tr, u) ∧ Q u := by
  intro h
  obtain ⟨tr, u, he, hQ⟩ := h [i] ⟨is, rfl⟩
  have hu : M.exec [i] s = some ([(i, e)], t) := exec_cons_of_exec hs rfl
  rw [he] at hu
  cases hu
  exact hnot hQ

/-- Two conditions that agree where an invariant holds are met by the same schedules, if
moves that meet one of them keep the invariant. -/
theorem meets_congr {P Q : σ → ι → Prop} {I : σ → Prop} {is : List ι} {s : σ} (h0 : I s)
    (hstep : ∀ t i e u, I t → P t i → M.step t i = some (e, u) → I u)
    (hiff : ∀ t i, I t → (P t i ↔ Q t i)) : M.Meets P is s ↔ M.Meets Q is s := by
  constructor
  · intro h pre i hp tr t he
    have hI := (h.of_prefix ((List.prefix_append _ _).trans hp)).invariant h0 hstep he
    exact (hiff t i hI).mp (h pre i hp tr t he)
  · intro h pre i hp tr t he
    have hI := (h.of_prefix ((List.prefix_append _ _).trans hp)).invariant h0
      (fun t i e u hI hQ hs => hstep t i e u hI ((hiff t i hI).mpr hQ) hs) he
    exact (hiff t i hI).mpr (h pre i hp tr t he)

/-- A schedule plays out to its end exactly when its moves meet the condition under
which they can be made. -/
theorem exec_isSome_iff_meets {P : σ → ι → Prop} {is : List ι} {s : σ}
    (hP : ∀ t, ∀ i ∈ is, (M.step t i).isSome ↔ P t i) :
    (M.exec is s).isSome ↔ M.Meets P is s := by
  induction is using List.reverseRecOn with
  | nil => exact iff_of_true rfl fun pre i hp => by simp at hp
  | append_singleton is i ih =>
      have his : (M.exec is s).isSome ↔ M.Meets P is s :=
        ih fun t j hj => hP t j (List.mem_append_left _ hj)
      cases he : M.exec is s with
      | none =>
          refine iff_of_false (by simp [exec_append, he]) fun h => ?_
          have := his.mpr (h.of_prefix (List.prefix_append _ _))
          rw [he] at this
          cases this
      | some r =>
          obtain ⟨tr, t⟩ := r
          have hm := his.mp (by rw [he]; rfl)
          rw [meets_snoc_iff he, ← hP t i (by simp), exec_append, he]
          simp [hm]

/-- The rule of moves that are judged one by one: where a good mover can move in every state
and shows what is asked of it, and a bad one can move in none, the schedules that play out
as asked are those of good movers. -/
theorem exec_and_iff {P : ι → Prop} {R : ι → ε → Prop}
    (hgood : ∀ s {i}, P i → ∃ e t, M.step s i = some (e, t) ∧ R i e)
    (hbad : ∀ s {i}, ¬ P i → M.step s i = none) {is : List ι} {s : σ} :
    (∃ tr t, M.exec is s = some (tr, t) ∧ ∀ q ∈ tr, R q.1 q.2) ↔ ∀ i ∈ is, P i := by
  induction is generalizing s with
  | nil => exact iff_of_true ⟨[], s, rfl, by simp⟩ (by simp)
  | cons i is ih =>
      rw [List.forall_mem_cons]
      by_cases hi : P i
      · obtain ⟨e, t, hs, hR⟩ := hgood s hi
        rw [and_iff_right hi, ← ih (s := t)]
        constructor
        · rintro ⟨tr, u, he, hall⟩
          obtain ⟨e', t', tr', hs', he', rfl⟩ := exec_first he
          rw [hs] at hs'
          cases hs'
          exact ⟨tr', u, he', fun q hq => hall q (List.mem_cons_of_mem _ hq)⟩
        · rintro ⟨tr, u, he, hall⟩
          exact ⟨_, u, exec_cons_of_exec hs he, List.forall_mem_cons.mpr ⟨hR, hall⟩⟩
      · refine iff_of_false ?_ fun h => hi h.1
        rintro ⟨tr, u, he, -⟩
        rw [exec_cons_none (hbad s hi)] at he
        cases he

/-- The rule of schedules under a condition: if an invariant lets every move that
meets the condition go on, and is kept by it, a schedule whose moves all meet the
condition plays out, and the invariant holds at its end. -/
theorem exec_of_meets {P : σ → ι → Prop} {I : List (ι × ε) → σ → Prop} {s : σ} (h0 : I [] s)
    (hstep : ∀ tr t i, I tr t → P t i → ∃ e u, M.step t i = some (e, u) ∧ I (tr ++ [(i, e)]) u)
    {is : List ι} (h : M.Meets P is s) : ∃ tr t, M.exec is s = some (tr, t) ∧ I tr t := by
  induction is using List.reverseRecOn with
  | nil => exact ⟨[], s, rfl, h0⟩
  | append_singleton is i ih =>
      obtain ⟨tr, t, he, hI⟩ := ih (h.of_prefix (List.prefix_append _ _))
      obtain ⟨e, u, hs, hI'⟩ := hstep tr t i hI (h is i List.prefix_rfl tr t he)
      exact ⟨_, u, exec_snoc he hs, hI'⟩

end Machine

end OperatingSys
