import Mathlib.Tactic

/-!
Lists cut into pieces of a fixed length.

`chunks n l` is what repeated reads of up to `n + 1` values bring of `l`: full pieces, and
a shorter one at the end (`chunks_of_ne_nil`). A list that fits is its only piece
(`chunks_eq_singleton`), and any other list has two or more (`chunks_length_le_one_iff`).
-/

namespace OperatingSys

variable {α : Type*} {n : ℕ} {l : List α}

/-- The pieces of `l` of length `n + 1`, of which the last may be shorter. -/
def chunks (n : ℕ) : List α → List (List α)
  | [] => []
  | a :: l => (a :: l.take n) :: chunks n (l.drop n)
termination_by l => l.length
decreasing_by simp only [List.length_drop, List.length_cons]; omega

@[simp] lemma chunks_nil : chunks n ([] : List α) = [] := by
  rw [chunks]

/-- The first piece of a list that is not empty. -/
lemma chunks_of_ne_nil (h : l ≠ []) : chunks n l = l.take (n + 1) :: chunks n (l.drop (n + 1)) := by
  obtain ⟨a, l, rfl⟩ := List.exists_cons_of_ne_nil h
  rw [chunks, List.take_succ_cons, List.drop_succ_cons]

/-- The induction rule of the pieces. -/
lemma chunks_induction {P : List α → Prop} (hnil : P [])
    (hcons : ∀ l, l ≠ [] → P (l.drop (n + 1)) → P l) (l : List α) : P l := by
  induction hd : l.length using Nat.strong_induction_on generalizing l with
  | _ d ih =>
      by_cases h : l = []
      · rwa [h]
      · have hpos := List.length_pos_iff.mpr h
        exact hcons l h (ih _ (by rw [List.length_drop]; omega) _ rfl)

lemma chunks_flatten (l : List α) : (chunks n l).flatten = l := by
  induction l using chunks_induction (n := n) with
  | hnil => rw [chunks_nil, List.flatten_nil]
  | hcons l h ih => rw [chunks_of_ne_nil h, List.flatten_cons, ih, List.take_append_drop]

/-- No piece is empty, and none is longer than a read. -/
lemma length_of_mem_chunks {p : List α} (hp : p ∈ chunks n l) :
    0 < p.length ∧ p.length ≤ n + 1 := by
  induction l using chunks_induction (n := n) with
  | hnil => simp at hp
  | hcons l h ih =>
      rw [chunks_of_ne_nil h, List.mem_cons] at hp
      rcases hp with rfl | hp
      · have := List.length_pos_iff.mpr h
        rw [List.length_take]
        omega
      · exact ih hp

lemma chunks_eq_singleton (h : l ≠ []) (hlen : l.length ≤ n + 1) : chunks n l = [l] := by
  rw [chunks_of_ne_nil h, List.take_of_length_le hlen, List.drop_of_length_le hlen, chunks_nil]

lemma chunks_eq_nil_iff : chunks n l = [] ↔ l = [] := by
  refine ⟨fun h => ?_, fun h => by rw [h, chunks_nil]⟩
  rw [← chunks_flatten (n := n) l, h, List.flatten_nil]

/-- One piece is enough exactly for the lists that one read can bring. -/
lemma chunks_length_le_one_iff : (chunks n l).length ≤ 1 ↔ l.length ≤ n + 1 := by
  by_cases h : l = []
  · simp [h]
  · rw [chunks_of_ne_nil h, List.length_cons, Nat.succ_le_succ_iff, Nat.le_zero,
      List.length_eq_zero_iff, chunks_eq_nil_iff, List.drop_eq_nil_iff]

end OperatingSys
