import Mathlib.Tactic

/-!
The past of a trace.

`Since P Q tr` says that the trace has a `P` with no `Q` after it. The last
element decides (`since_append_singleton`), so an invariant of a run that speaks of
its past is kept by a step when the step says what its event is.
-/

namespace OperatingSys

variable {α : Type*} {P Q : α → Prop} {tr : List α} {x : α}

/-- **Since**: there is a `P` in the trace and no `Q` after it. -/
def Since (P Q : α → Prop) (tr : List α) : Prop :=
  ∃ before p after, tr = before ++ p :: after ∧ P p ∧ ∀ q ∈ after, ¬ Q q

lemma not_since_nil : ¬ Since P Q [] := by
  rintro ⟨before, p, after, h, -⟩
  simp at h

/-- The last element of a trace is a `P`, or it is no `Q` and there has been a `P`
since the last `Q` before it. -/
lemma since_append_singleton : Since P Q (tr ++ [x]) ↔ P x ∨ (Since P Q tr ∧ ¬ Q x) := by
  constructor
  · rintro ⟨before, p, after, h, hp, hq⟩
    induction after using List.reverseRecOn with
    | nil =>
        obtain ⟨-, hlast⟩ := List.append_inj' h rfl
        rw [List.singleton_inj.mp hlast]
        exact Or.inl hp
    | append_singleton after y _ =>
        rw [← List.cons_append, ← List.append_assoc] at h
        obtain ⟨rfl, hlast⟩ := List.append_inj' h rfl
        rw [List.singleton_inj.mp hlast]
        refine Or.inr ⟨⟨before, p, after, rfl, hp, fun q hqa => ?_⟩, hq y (by simp)⟩
        exact hq q (List.mem_append_left _ hqa)
  · rintro (hx | ⟨⟨before, p, after, rfl, hp, hq⟩, hx⟩)
    · exact ⟨tr, x, [], rfl, hx, by simp⟩
    · refine ⟨before, p, after ++ [x], by simp, hp, fun q hqa => ?_⟩
      rcases List.mem_append.mp hqa with hold | hlast
      · exact hq q hold
      · rwa [List.mem_singleton.mp hlast]

/-- The start of a span. -/
lemma Since.start (h : P x) : Since P Q (tr ++ [x]) := since_append_singleton.mpr (Or.inl h)

/-- A span goes on. -/
lemma Since.goesOn (h : Since P Q tr) (hx : ¬ Q x) : Since P Q (tr ++ [x]) :=
  since_append_singleton.mpr (Or.inr ⟨h, hx⟩)

end OperatingSys
