import OperatingSys.Foundations.CString

/-!
Reading a row of strings round and round.

A reader of a row keeps an offset; it reads the string there and goes on behind
its terminator, and from the front again once it has passed the end of the row.
Here the reader also goes `d` values too far at every string, and the question is
when it still reads the strings of the row in their order.

* `spot`: the offset of the `i`-th read.
* `InStep`: the first round, at its shifted offsets, meets the strings in order
  and is as good as a whole one. `reads_iff_inStep`: this is what it takes.
* `not_inStep_of_nodup`: with a shift it never is so for two or more different
  strings.
-/

namespace OperatingSys

variable {α : Type*} [Zero α] [DecidableEq α]

/-- The string at an offset of a row. -/
def strAt (row : List α) (g : ℕ) : List α := (frontString (row.drop g)).getD []

/-- The offset of the `i`-th read by a reader that goes `d` values too far. -/
def spot (d : ℕ) (row : List α) : ℕ → ℕ
  | 0 => 0
  | i + 1 =>
      if row.length ≤ spot d row i + (strAt row (spot d row i)).length + 1 + d then 0
      else spot d row i + (strAt row (spot d row i)).length + 1 + d

/-- The string number `i` of a list that is gone through round and round. -/
def cyclic (L : List (List α)) (i : ℕ) : List α := L.getD (i % L.length) []

/-- The offset behind the first `j` strings, shifted by `d` for each of them. -/
def shifted (d : ℕ) (L : List (List α)) (j : ℕ) : ℕ := (terminated (L.take j)).length + d * j

/-- **In step**: the first round of `c` reads meets the first `c` strings at their
shifted offsets, and going round those is the same as going round all. -/
def InStep (d : ℕ) (L : List (List α)) : Prop :=
  ∃ c, 0 < c ∧ (terminated L).length ≤ shifted d L c
    ∧ (∀ j < c, shifted d L j < (terminated L).length
        ∧ L.getD j [] ++ [0] <+: (terminated L).drop (shifted d L j))
    ∧ ∀ i, cyclic L i = L.getD (i % c) []

/-! ### Strings of a row -/

omit [DecidableEq α] in
lemma terminated_take_succ {L : List (List α)} {p : ℕ} (h : p < L.length) :
    (terminated (L.take (p + 1))).length = (terminated (L.take p)).length + L[p].length + 1 := by
  rw [List.take_succ_eq_append_getElem h, terminated_append, terminated_cons]
  simp only [List.length_append, List.length_cons, terminated_nil, List.length_nil]
  omega

/-- What is read at any offset of a row is the end of one of its strings. -/
lemma exists_suffix_of_frontString : ∀ {L : List (List α)} {g : ℕ} {t : List α},
    (∀ u ∈ L, (0 : α) ∉ u) → frontString ((terminated L).drop g) = some t → ∃ u ∈ L, t <:+ u
  | [], g, t, _, h => by simp [frontString] at h
  | u :: L, g, t, h0, h => by
      rw [terminated_cons] at h
      by_cases hg : g ≤ u.length
      · have hd : (0 : α) ∉ u.drop g := fun hm => h0 u List.mem_cons_self (List.mem_of_mem_drop hm)
        rw [List.drop_append_of_le_length hg, frontString_append hd] at h
        exact ⟨u, List.mem_cons_self, Option.some.inj h ▸ List.drop_suffix g u⟩
      · have hdrop : (u ++ 0 :: terminated L).drop g = (terminated L).drop (g - u.length - 1) := by
          rw [List.drop_append, List.drop_of_length_le (by omega), List.nil_append,
            show g - u.length = g - u.length - 1 + 1 by omega, List.drop_succ_cons,
            Nat.add_sub_cancel]
        rw [hdrop] at h
        obtain ⟨v, hv, hs⟩ :=
          exists_suffix_of_frontString (fun v hv => h0 v (List.mem_cons_of_mem _ hv)) h
        exact ⟨v, List.mem_cons_of_mem _ hv, hs⟩

/-- Inside a row there is a string at every offset. -/
lemma frontString_drop_terminated {L : List (List α)} {g : ℕ} (hg : g < (terminated L).length) :
    frontString ((terminated L).drop g) = some (strAt (terminated L) g) := by
  have hlast : (terminated L)[(terminated L).length - 1]? = some 0 := by
    rcases L.eq_nil_or_concat with rfl | ⟨L', t, rfl⟩
    · simp at hg
    · rw [List.concat_eq_append, terminated_append, terminated_cons, terminated_nil,
        ← List.append_assoc, ← List.concat_eq_append]
      simp
  obtain ⟨t, ht, -⟩ := frontString_of_getElem? (m := (terminated L).drop g)
    (k := (terminated L).length - 1 - g)
    (by rw [List.getElem?_drop, Nat.add_sub_cancel' (by omega), hlast])
  rw [strAt, ht, Option.getD_some]

lemma strAt_of_prefix {row t : List α} {g : ℕ} (h0 : (0 : α) ∉ t)
    (h : t ++ [0] <+: row.drop g) : strAt row g = t := by
  obtain ⟨rest, hr⟩ := h
  rw [strAt, ← hr, List.append_assoc, List.singleton_append, frontString_append h0,
    Option.getD_some]

lemma prefix_of_strAt {L : List (List α)} {g : ℕ} (hg : g < (terminated L).length) :
    strAt (terminated L) g ++ [0] <+: (terminated L).drop g := by
  obtain ⟨-, rest, hr⟩ := eq_append_of_frontString (frontString_drop_terminated hg)
  exact ⟨rest, by rw [hr, List.append_assoc, List.singleton_append]⟩

lemma spot_lt {d : ℕ} {row : List α} (h : 0 < row.length) (i : ℕ) : spot d row i < row.length := by
  cases i with
  | zero => exact h
  | succ i =>
      rw [spot]
      split_ifs <;> omega

/-! ### Rounds -/

omit [Zero α] [DecidableEq α] in
lemma cyclic_of_lt {L : List (List α)} {i : ℕ} (h : i < L.length) : cyclic L i = L.getD i [] := by
  rw [cyclic, Nat.mod_eq_of_lt h]

omit [DecidableEq α] in
lemma shifted_succ {d : ℕ} {L : List (List α)} {j : ℕ} (h : j < L.length) :
    shifted d L (j + 1) = shifted d L j + (L.getD j []).length + 1 + d := by
  rw [shifted, shifted, terminated_take_succ h, List.getD_eq_getElem _ _ h]
  ring

omit [DecidableEq α] in
/-- The first count of strings after which the shifted offset is past the row. -/
lemma exists_round (d : ℕ) {L : List (List α)} (h : L ≠ []) :
    ∃ c, 0 < c ∧ c ≤ L.length ∧ (terminated L).length ≤ shifted d L c
      ∧ ∀ j < c, shifted d L j < (terminated L).length := by
  classical
  have hlen : 0 < L.length ∧ (terminated L).length ≤ shifted d L L.length := by
    refine ⟨List.length_pos_iff.mpr h, ?_⟩
    rw [shifted, List.take_length]
    exact Nat.le_add_right _ _
  have hex : ∃ c, 0 < c ∧ (terminated L).length ≤ shifted d L c := ⟨_, hlen⟩
  refine ⟨Nat.find hex, (Nat.find_spec hex).1, Nat.find_min' hex hlen, (Nat.find_spec hex).2, ?_⟩
  intro j hj
  rcases Nat.eq_zero_or_pos j with rfl | hpos
  · simpa [shifted] using terminated_length_pos h
  · exact not_le.mp fun hle => Nat.find_min hex hj ⟨hpos, hle⟩

/-- If the first round meets its strings, every read is at the shifted offset of
its place in the round. -/
lemma spot_eq_shifted {d c : ℕ} {L : List (List α)} (hc : 0 < c) (hle : c ≤ L.length)
    (hend : (terminated L).length ≤ shifted d L c)
    (hin : ∀ j < c, shifted d L j < (terminated L).length)
    (hread : ∀ j < c, strAt (terminated L) (shifted d L j) = L.getD j []) (i : ℕ) :
    spot d (terminated L) i = shifted d L (i % c) := by
  induction i with
  | zero => simp [spot, shifted]
  | succ i ih =>
      have hmod := Nat.mod_lt i hc
      rw [spot, ih, hread _ hmod, ← shifted_succ (by omega), Nat.add_mod_eq_ite]
      by_cases hone : c = 1
      · subst hone
        have hz : i % 1 = 0 := Nat.mod_one i
        rw [hz, if_pos hend]
        simp [shifted]
      · rw [Nat.mod_eq_of_lt (by omega : 1 < c)]
        by_cases hwrap : c ≤ i % c + 1
        · have he : i % c + 1 = c := by omega
          rw [if_pos hwrap, he, if_pos hend]
          simp [shifted]
        · rw [if_neg hwrap, if_neg (by have := hin (i % c + 1) (by omega); omega)]

/-- As long as the reads so far were right, they were at the shifted offsets. -/
lemma spot_eq_of_reads {d c : ℕ} {L : List (List α)} (hle : c ≤ L.length)
    (hin : ∀ j < c, shifted d L j < (terminated L).length)
    (hread : ∀ i, strAt (terminated L) (spot d (terminated L) i) = cyclic L i) :
    ∀ j < c, spot d (terminated L) j = shifted d L j := by
  intro j hj
  induction j with
  | zero => simp [spot, shifted]
  | succ j ih =>
      have hnext := hin _ hj
      rw [spot, hread, cyclic_of_lt (by omega), ih (by omega), ← shifted_succ (by omega),
        if_neg (by omega)]

/-- **When a reader that goes too far reads in order**: the strings are read round
and round in their order if and only if they are in step. -/
theorem reads_iff_inStep (d : ℕ) {L : List (List α)} (hne : L ≠ [])
    (h0 : ∀ t ∈ L, (0 : α) ∉ t) :
    (∀ i, strAt (terminated L) (spot d (terminated L) i) = cyclic L i) ↔ InStep d L := by
  have hclean : ∀ j, (0 : α) ∉ L.getD j [] := by
    intro j
    by_cases hj : j < L.length
    · rw [List.getD_eq_getElem _ _ hj]
      exact h0 _ (List.getElem_mem hj)
    · rw [List.getD_eq_default _ _ (by omega)]
      exact List.not_mem_nil
  constructor
  · intro hread
    -- up to the end of the first round the strings are read at their shifted places
    obtain ⟨c, hc, hle, hend, hin⟩ := exists_round d hne
    have hspot := spot_eq_of_reads hle hin hread
    have hstr : ∀ j < c, strAt (terminated L) (shifted d L j) = L.getD j [] := fun j hj => by
      rw [← hspot j hj, hread, cyclic_of_lt (by omega)]
    refine ⟨c, hc, hend, fun j hj => ⟨hin j hj, ?_⟩, fun i => ?_⟩
    · rw [← hstr j hj]
      exact prefix_of_strAt (hin j hj)
    · rw [← hread, spot_eq_shifted hc hle hend hin hstr, hstr _ (Nat.mod_lt i hc)]
  · rintro ⟨c, hc, hend, hround, hcyc⟩ i
    have hin : ∀ j < c, shifted d L j < (terminated L).length := fun j hj => (hround j hj).1
    -- a round has at most as many places as there are strings
    have hle : c ≤ L.length := by
      by_contra hlt
      have := hin L.length (by omega)
      rw [shifted, List.take_length] at this
      omega
    have hstr : ∀ j < c, strAt (terminated L) (shifted d L j) = L.getD j [] :=
      fun j hj => strAt_of_prefix (hclean j) (hround j hj).2
    rw [spot_eq_shifted hc hle hend hin hstr, hstr _ (Nat.mod_lt i hc), hcyc]

omit [DecidableEq α] in
/-- A reader that goes too far is never in step with two or more different
strings. -/
theorem not_inStep_of_nodup {d : ℕ} (hd : 0 < d) {L : List (List α)} (h2 : 2 ≤ L.length)
    (hnd : L.Nodup) : ¬ InStep d L := by
  rintro ⟨c, hc, hend, hround, hcyc⟩
  have hk := (hround (c - 1) (by omega)).1
  by_cases hlt : c < L.length
  · -- the round is short, so string number `c` would be the first one again
    have h := hcyc c
    rw [cyclic_of_lt hlt, Nat.mod_self, List.getD_eq_getElem _ _ hlt,
      List.getD_eq_getElem _ _ (by omega : 0 < L.length)] at h
    exact hc.ne' (hnd.getElem_inj_iff.mp h)
  · -- the last string is read from behind its front, so it is cut short
    obtain ⟨hin, rest, hr⟩ := hround (L.length - 1) (by omega)
    have hlen := congrArg List.length hr
    have hrow := congrArg List.length (terminated_eq_of_lt (by omega : L.length - 1 < L.length))
    have hmul : 0 < d * (L.length - 1) := Nat.mul_pos hd (by omega)
    rw [List.getD_eq_getElem _ _ (by omega : L.length - 1 < L.length), List.length_append,
      List.length_append, List.length_drop, List.length_singleton, shifted] at hlen
    rw [List.drop_of_length_le (by omega), List.length_append, List.length_append,
      List.length_cons, terminated_nil, List.length_nil] at hrow
    omega

end OperatingSys
