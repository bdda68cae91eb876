import OperatingSys.Foundations.Machine

/-!
Stretches of a run that one mover goes alone.

`Stretch i out s ws t`: the mover `i` goes from `s` to `t` and shows `ws` on the way, and in
the states before `t` no other mover changes anything or shows anything. Every run from `s` is
then on its way along the stretch, or has gone all of it (`Stretch.of_run`).
-/

namespace OperatingSys

namespace Machine

variable {σ ι ε ω : Type*}

/-- What a run shows, by what is read off the events. -/
def shows (out : ε → Option ω) (tr : List (ι × ε)) : List ω := tr.filterMap fun q => out q.2

section Shows

variable {out : ε → Option ω} {tr tr' : List (ι × ε)} {j : ι} {e : ε}

@[simp] lemma shows_append : shows out (tr ++ tr') = shows out tr ++ shows out tr' :=
  List.filterMap_append

@[simp] lemma shows_singleton : shows out [(j, e)] = (out e).toList := by
  cases h : out e <;> simp [shows, h]

end Shows

/-- No mover but `i` changes or shows anything in `s`. -/
def Settled (M : Machine σ ι ε) (i : ι) (out : ε → Option ω) (s : σ) : Prop :=
  ∀ j e t, j ≠ i → M.step s j = some (e, t) → t = s ∧ out e = none

/-- A stretch of the mover `i`. -/
inductive Stretch (M : Machine σ ι ε) (i : ι) (out : ε → Option ω) : σ → List ω → σ → Prop
  | nil (s : σ) : Stretch M i out s [] s
  | cons {s t u : σ} {e : ε} {ws : List ω} (hs : M.step s i = some (e, t))
      (hsettled : M.Settled i out s) (h : Stretch M i out t ws u) :
      Stretch M i out s ((out e).toList ++ ws) u

namespace Stretch

variable {M : Machine σ ι ε} {i : ι} {out : ε → Option ω} {s t u : σ} {ws ws' : List ω}
  {tr : List (ι × ε)}

lemma append (h : M.Stretch i out s ws t) (h' : M.Stretch i out t ws' u) :
    M.Stretch i out s (ws ++ ws') u := by
  induction h with
  | nil => exact h'
  | cons hs hsettled _ ih =>
      rw [List.append_assoc]
      exact .cons hs hsettled (ih h')

/-- A stretch of one step. -/
lemma single {e : ε} (hs : M.step s i = some (e, t)) (hsettled : M.Settled i out s) :
    M.Stretch i out s (out e).toList t := by
  have hcons := Stretch.cons hs hsettled (.nil t)
  rwa [List.append_nil] at hcons

/-- The mover goes on along a stretch. -/
lemma enabled (h : M.Stretch i out s ws t) (hne : s ≠ t) : M.Enabled s i := by
  cases h with
  | nil => exact absurd rfl hne
  | cons hs => exact Option.isSome_of_eq_some hs

/-- **Runs along a stretch**: a run from its start is on its way along it, or has gone all of it
and has shown what the stretch shows. -/
theorem of_run (h : M.Stretch i out s ws u) (hr : M.Run s tr t) :
    (∃ ws', ws = shows out tr ++ ws' ∧ M.Stretch i out t ws' u)
      ∨ ∃ tr₁ tr₂, tr = tr₁ ++ tr₂ ∧ M.Run s tr₁ u ∧ shows out tr₁ = ws ∧ M.Run u tr₂ t := by
  induction hr with
  | nil => exact Or.inl ⟨ws, rfl, h⟩
  | @snoc tr t v j e hr hs ih =>
      rcases ih with ⟨ws', hws, hrest⟩ | ⟨tr₁, tr₂, htr, hr₁, hshow, hr₂⟩
      · cases hrest with
        | nil =>
            -- the stretch ends here, and the step goes on from its end
            refine Or.inr ⟨tr, [(j, e)], rfl, hr, ?_, .snoc .nil hs⟩
            rw [hws, List.append_nil]
        | @cons _ t' _ e' ws' hs' hsettled hrest =>
            refine Or.inl ?_
            by_cases hj : j = i
            · rw [hj, hs'] at hs
              cases hs
              refine ⟨ws', ?_, hrest⟩
              rw [hws, shows_append, shows_singleton, List.append_assoc]
            · obtain ⟨rfl, hout⟩ := hsettled j e v hj hs
              refine ⟨(out e').toList ++ ws', ?_, .cons hs' hsettled hrest⟩
              rw [hws, shows_append, shows_singleton, hout, Option.toList_none, List.append_nil]
      · refine Or.inr ⟨tr₁, tr₂ ++ [(j, e)], ?_, hr₁, hshow, hr₂.snoc hs⟩
        rw [htr, List.append_assoc]

end Stretch

end Machine

end OperatingSys
