import Mathlib.Tactic

/-!
Tables with an empty mark.

A table gives every slot a value, and the value `z` marks an empty slot.
`Slots.Holds` says that a value is in the table and `Slots.Distinct` that no value
is in two slots. A value is put into an empty slot (`Distinct.put`, `holds_put`),
and a slot is emptied (`Distinct.clear`, `holds_clear`).
-/

namespace OperatingSys

namespace Slots

variable {ι α : Type*} {z v w : α} {T : ι → α} {i : ι}

/-- The value `v` is in the table. -/
def Holds (z : α) (T : ι → α) (v : α) : Prop := v ≠ z ∧ ∃ i, T i = v

/-- **Distinct entries**: only the mark is in more than one slot. -/
def Distinct (z : α) (T : ι → α) : Prop := ∀ i j, T i ≠ z → T i = T j → i = j

/-- A value of a table of distinct entries is in exactly one slot. -/
lemma Distinct.existsUnique (h : Distinct z T) (hv : Holds z T v) : ∃! i, T i = v := by
  obtain ⟨hne, i, rfl⟩ := hv
  exact ⟨i, rfl, fun j hj => (h i j hne hj.symm).symm⟩

variable [DecidableEq ι]

/-- What is in the table after `v` has been put into an empty slot. -/
lemma holds_put (hi : T i = z) (hv : v ≠ z) :
    Holds z (Function.update T i v) w ↔ w = v ∨ Holds z T w := by
  constructor
  · rintro ⟨hw, j, hj⟩
    by_cases hji : j = i
    · rw [hji, Function.update_self] at hj
      exact Or.inl hj.symm
    · rw [Function.update_of_ne hji] at hj
      exact Or.inr ⟨hw, j, hj⟩
  · rintro (rfl | ⟨hw, j, rfl⟩)
    · exact ⟨hv, i, Function.update_self ..⟩
    · refine ⟨hw, j, Function.update_of_ne ?_ _ _⟩
      rintro rfl
      exact hw hi

/-- A value that is not in the table is put into a slot. -/
lemma Distinct.put (h : Distinct z T) (hv : ¬ Holds z T v) :
    Distinct z (Function.update T i v) := by
  intro j k hj hjk
  by_cases hji : j = i <;> by_cases hki : k = i
  · rw [hji, hki]
  · rw [hji, Function.update_self] at hj hjk
    rw [Function.update_of_ne hki] at hjk
    exact absurd ⟨hj, k, hjk.symm⟩ hv
  · rw [Function.update_of_ne hji] at hj hjk
    rw [hki, Function.update_self] at hjk
    rw [hjk] at hj
    exact absurd ⟨hj, j, hjk⟩ hv
  · rw [Function.update_of_ne hji] at hj hjk
    rw [Function.update_of_ne hki] at hjk
    exact h j k hj hjk

/-- A slot is emptied. -/
lemma Distinct.clear (h : Distinct z T) : Distinct z (Function.update T i z) :=
  h.put fun hz => hz.1 rfl

/-- What is in the table after a slot has been emptied. -/
lemma holds_clear (h : Distinct z T) (hi : T i ≠ z) :
    Holds z (Function.update T i z) w ↔ w ≠ T i ∧ Holds z T w := by
  constructor
  · rintro ⟨hw, j, hj⟩
    by_cases hji : j = i
    · rw [hji, Function.update_self] at hj
      exact absurd hj.symm hw
    · rw [Function.update_of_ne hji] at hj
      refine ⟨?_, hw, j, hj⟩
      rintro rfl
      exact hji (h i j hi hj.symm).symm
  · rintro ⟨hwi, hw, j, rfl⟩
    refine ⟨hw, j, Function.update_of_ne ?_ _ _⟩
    rintro rfl
    exact hwi rfl

end Slots

end OperatingSys
