import OperatingSys.Foundations.Interleaved

/-!
A file written at given positions.

`writeAt` stores one value, with a filling up to its position where the file is shorter, and
`overwrite` stores several in turn. Where no write leaves a gap, a position holds what was
last written to it, or what the file held before (`getElem?_overwrite`).
-/

namespace OperatingSys

variable {α : Type*} [Zero α]

/-- `x` is written at position `k`. -/
def writeAt (k : ℕ) (x : α) (file : List α) : List α :=
  file.take k ++ List.replicate (k - file.length) 0 ++ x :: file.drop (k + 1)

/-- The values of `ws` are written in turn, each at its position. -/
def overwrite (ws : List (ℕ × α)) (file : List α) : List α :=
  ws.foldl (fun file w => writeAt w.1 w.2 file) file

/-- No write leaves a gap: a position is written only when all before it have been. -/
inductive Gapless : List (ℕ × α) → Prop
  | nil : Gapless []
  | snoc {ws : List (ℕ × α)} {k : ℕ} (h : Gapless ws) (hw : ∀ j < k, part j ws ≠ []) (x : α) :
      Gapless (ws ++ [(k, x)])

variable {file : List α} {ws : List (ℕ × α)} {j k : ℕ} {x : α}

lemma overwrite_append (ws ws' : List (ℕ × α)) (file : List α) :
    overwrite (ws ++ ws') file = overwrite ws' (overwrite ws file) := List.foldl_append

lemma writeAt_of_le (h : k ≤ file.length) :
    writeAt k x file = file.take k ++ x :: file.drop (k + 1) := by
  rw [writeAt, Nat.sub_eq_zero_of_le h, List.replicate_zero, List.append_nil]

lemma getElem?_writeAt (h : k ≤ file.length) :
    (writeAt k x file)[j]? = if j = k then some x else file[j]? := by
  have htake : (file.take k).length = k := by
    rw [List.length_take, min_eq_left h]
  rw [writeAt_of_le h, List.getElem?_append, htake]
  rcases lt_trichotomy j k with hlt | rfl | hgt
  · rw [if_pos hlt, if_neg hlt.ne, List.getElem?_take_of_lt hlt]
  · rw [if_neg (lt_irrefl j), if_pos rfl, Nat.sub_self, List.getElem?_cons_zero]
  · obtain ⟨d, rfl⟩ := Nat.exists_eq_add_of_lt hgt
    rw [if_neg hgt.not_gt, if_neg hgt.ne', show k + d + 1 - k = d + 1 by omega,
      List.getElem?_cons_succ, List.getElem?_drop]
    congr 1
    omega

/-- A write right behind a first part of the file. -/
lemma writeAt_append {front : List α} (h : front.length = k) (x : α) (rest : List α) :
    writeAt k x (front ++ rest) = front ++ x :: rest.drop 1 := by
  have hk : k ≤ (front ++ rest).length := by
    rw [List.length_append]
    omega
  rw [writeAt_of_le hk, List.take_left' h, ← List.drop_drop, List.drop_left' h]

omit [Zero α] in
/-- A list is at least as long as the positions at which it has a value. -/
lemma le_length_of_getElem? {l : List α} (h : ∀ j < k, l[j]? ≠ none) : k ≤ l.length := by
  by_contra hlt
  exact h l.length (Nat.lt_of_not_le hlt) (List.getElem?_eq_none le_rfl)

/-- **A file after writes without gaps**: a position holds what was last written to it, or
what the file held before. -/
theorem getElem?_overwrite (h : Gapless ws) (file : List α) (j : ℕ) :
    (overwrite ws file)[j]? = (part j ws).getLast?.or file[j]? := by
  induction h generalizing j with
  | nil => rfl
  | @snoc ws k h hw x ih =>
      have hk : k ≤ (overwrite ws file).length := le_length_of_getElem? fun i hi hnone => by
        rw [ih, Option.or_eq_none_iff, List.getLast?_eq_none_iff] at hnone
        exact hw i hi hnone.1
      rw [overwrite_append, overwrite, List.foldl_cons, List.foldl_nil, getElem?_writeAt hk,
        part_append]
      by_cases hj : k = j
      · subst hj
        rw [if_pos rfl, part_cons_self, part_nil, List.getLast?_concat, Option.some_or]
      · rw [if_neg (Ne.symm hj), part_cons_of_ne hj, part_nil, List.append_nil, ih]

end OperatingSys
