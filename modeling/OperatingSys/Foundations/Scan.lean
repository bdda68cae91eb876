import Mathlib.Tactic

/-!
Index loops over an array.

`scanWhile p m x` is the loop `while (p(m[x]) && x + 1 < sizeof m) x ++;`. It reads
the array before it compares the index, so it goes outside only when it starts
there. Where it stops is said in terms of what lies ahead of an index and before
the last cell (`ahead`): the loop drops from it what the test lets pass
(`scanWhile_ahead`), and an index inside the array is determined by what lies ahead
of it (`eq_of_ahead`).
-/

namespace OperatingSys

variable {α : Type*} {p : α → Bool} {m : List α} {x y : ℕ}

/-- `while (p(m[x]) && x + 1 < sizeof m) x ++;`, `none` when it reads outside. -/
def scanWhile (p : α → Bool) (m : List α) (x : ℕ) : Option ℕ :=
  match m[x]? with
  | none => none
  | some c => if p c ∧ x + 1 < m.length then scanWhile p m (x + 1) else some x
termination_by m.length - x

/-- What lies from the index `x` on, without the last cell of the array. -/
def ahead (m : List α) (x : ℕ) : List α := m.dropLast.drop x

lemma ahead_length (m : List α) (x : ℕ) : (ahead m x).length = m.length - 1 - x := by
  rw [ahead, List.length_drop, List.length_dropLast]

/-- An index inside the array is determined by what lies ahead of it. -/
lemma eq_of_ahead (hx : x < m.length) (hy : y < m.length) (h : ahead m x = ahead m y) :
    x = y := by
  have hlen := congrArg List.length h
  rw [ahead_length, ahead_length] at hlen
  omega

lemma le_of_ahead (hx : x < m.length) (hy : y < m.length)
    (h : (ahead m y).length ≤ (ahead m x).length) : x ≤ y := by
  rw [ahead_length, ahead_length] at h
  omega

/-- Nothing lies ahead of the last cell alone. -/
lemma ahead_eq_nil_iff (hx : x < m.length) : ahead m x = [] ↔ x + 1 = m.length := by
  rw [← List.length_eq_zero_iff, ahead_length]
  omega

/-- Before the last cell the array is read ahead of the index. -/
lemma ahead_eq_cons (hx : x + 1 < m.length) : ahead m x = m[x] :: ahead m (x + 1) := by
  rw [ahead, List.drop_eq_getElem_cons (by rw [List.length_dropLast]; omega),
    List.getElem_dropLast, ahead]

/-- The cell an index is at, when something lies ahead. -/
lemma getElem?_of_ahead {c : α} {t : List α} (h : ahead m x = c :: t) :
    m[x]? = some c ∧ x + 1 < m.length ∧ ahead m (x + 1) = t := by
  have hx : x + 1 < m.length := by
    have hlen := congrArg List.length h
    rw [ahead_length, List.length_cons] at hlen
    omega
  rw [ahead_eq_cons hx, List.cons.injEq] at h
  exact ⟨by rw [List.getElem?_eq_getElem (by omega), h.1], hx, h.2⟩

/-- An index at some distance ahead. -/
lemma ahead_add (m : List α) (x k : ℕ) : ahead m (x + k) = (ahead m x).drop k := by
  rw [ahead, ahead, List.drop_drop]

/-- **The loop** stays inside, and drops what passes the test from what lies ahead. -/
lemma scanWhile_ahead (p : α → Bool) (hx : x < m.length) :
    ∃ y, scanWhile p m x = some y ∧ y < m.length ∧ ahead m y = (ahead m x).dropWhile p := by
  induction hd : m.length - x generalizing x with
  | zero => omega
  | succ d ih =>
      rw [scanWhile, List.getElem?_eq_getElem hx]
      dsimp only
      by_cases hlast : x + 1 < m.length
      · rw [ahead_eq_cons hlast]
        by_cases hp : p m[x] = true
        · rw [if_pos ⟨hp, hlast⟩, List.dropWhile_cons_of_pos hp]
          exact ih hlast (by omega)
        · rw [if_neg (fun h => hp h.1), List.dropWhile_cons_of_neg hp]
          exact ⟨x, rfl, hx, ahead_eq_cons hlast⟩
      · have hnil : ahead m x = [] := (ahead_eq_nil_iff hx).mpr (by omega)
        rw [if_neg (fun h => hlast h.2), hnil, List.dropWhile_nil]
        exact ⟨x, rfl, hx, hnil⟩

lemma scanWhile_eq_none (h : m.length ≤ x) : scanWhile p m x = none := by
  rw [scanWhile, List.getElem?_eq_none h]

/-- A loop does not go back. -/
lemma le_of_scanWhile (hx : x < m.length) (h : scanWhile p m x = some y) : x ≤ y := by
  obtain ⟨y', hy', hlt, ha⟩ := scanWhile_ahead p hx
  obtain rfl := Option.some.inj (h.symm.trans hy')
  refine le_of_ahead hx hlt ?_
  rw [ha]
  exact (List.dropWhile_sublist p).length_le

/-- What a loop stops at does not pass the test. -/
lemma not_of_dropWhile_eq_cons {w t : List α} {c : α} (h : w.dropWhile p = c :: t) :
    p c = false := by
  have hne : w.dropWhile p ≠ [] := by
    rw [h]
    exact List.cons_ne_nil c t
  simpa [h] using List.head_dropWhile_not p hne

/-- A word that passes the test and is followed by something that does not. -/
lemma dropWhile_append_cons {w t : List α} {c : α} (hw : ∀ a ∈ w, p a = true)
    (hc : p c = false) : (w ++ c :: t).dropWhile p = c :: t := by
  rw [List.dropWhile_append_of_pos hw, List.dropWhile_cons_of_neg (by simp [hc])]

end OperatingSys
