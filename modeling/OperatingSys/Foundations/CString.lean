import Mathlib

/-!
Character arrays and the strings in them.

An array is the list of the values it holds; an access outside it is `none`.
`blit` is a copy of a block into an array, `poke` the store of one value and
`cstr` the string that starts at an index, up to the first terminator `0`.

The three are read along a division of the array into an initial part and a
rest (`blit_append`, `poke_append`, `cstr_append`; at the front `blit_front` and
`cstr_front`), which is how the content of a buffer is followed through a run. `snprintf`
and `strcat` are the two functions of this name on such arrays. `terminated` is a row of
strings each with its terminator, the form in which a buffer keeps a list of them.
-/

namespace OperatingSys

variable {α : Type*}

/-! ### Stores -/

/-- Copy the block `data` into the array `m` from the index `off` on. -/
def blit (m : List α) (off : ℤ) (data : List α) : Option (List α) :=
  if 0 ≤ off ∧ off + data.length ≤ m.length then
    some (m.take off.toNat ++ data ++ m.drop (off.toNat + data.length))
  else none

/-- Store `x` in the array `m` at the index `i`. -/
def poke (m : List α) (i : ℤ) (x : α) : Option (List α) :=
  if 0 ≤ i ∧ i < m.length then some (m.set i.toNat x) else none

lemma blit_eq_none_iff {m : List α} {n : ℕ} {data : List α} :
    blit m n data = none ↔ m.length < n + data.length := by
  rw [blit]
  split_ifs with h
  · simp only [false_iff]; omega
  · simp only [true_iff]; omega

/-- A block is copied behind the initial part over the front of the rest. -/
lemma blit_append {pre rest data : List α} (h : data.length ≤ rest.length) :
    blit (pre ++ rest) pre.length data = some (pre ++ (data ++ rest.drop data.length)) := by
  have hle : (pre.length : ℤ) + data.length ≤ ((pre ++ rest).length : ℕ) := by
    rw [List.length_append]; omega
  rw [blit, if_pos ⟨by omega, hle⟩]
  simp [List.drop_append]

/-- A block is copied over the front of an array. -/
lemma blit_front {rest data : List α} (h : data.length ≤ rest.length) :
    blit rest 0 data = some (data ++ rest.drop data.length) := by
  rw [blit, if_pos ⟨le_rfl, by omega⟩]
  simp

lemma blit_length {m m' : List α} {off : ℤ} {data : List α} (h : blit m off data = some m') :
    m'.length = m.length := by
  rw [blit] at h
  split_ifs at h with hv
  obtain rfl := Option.some.inj h
  simp only [List.length_append, List.length_take, List.length_drop]
  omega

/-- A copy leaves what lies before it. -/
lemma blit_getElem?_lt {m m' : List α} {n k : ℕ} {data : List α}
    (h : blit m n data = some m') (hk : k < n) : m'[k]? = m[k]? := by
  rw [blit] at h
  split_ifs at h with hv
  obtain rfl := Option.some.inj h
  rw [List.append_assoc, List.getElem?_append_left, List.getElem?_take_of_lt (by simpa using hk)]
  simp only [List.length_take]
  omega

lemma poke_of_lt {m : List α} {i : ℕ} (h : i < m.length) (x : α) :
    poke m i x = some (m.set i x) := by
  rw [poke, if_pos ⟨by omega, by omega⟩, Int.toNat_natCast]

lemma poke_length {m m' : List α} {i : ℤ} {x : α} (h : poke m i x = some m') :
    m'.length = m.length := by
  rw [poke] at h
  split_ifs at h with hv
  rw [← Option.some.inj h, List.length_set]

lemma poke_nil (i : ℤ) (x : α) : poke [] i x = none := by
  rw [poke, if_neg (by simp)]

lemma poke_eq_none {m : List α} {i : ℤ} (h : i < 0) (x : α) : poke m i x = none := by
  rw [poke, if_neg (by omega)]

/-- The first value of the rest is stored over. -/
lemma poke_append {pre rest : List α} (y x : α) :
    poke (pre ++ y :: rest) pre.length x = some (pre ++ x :: rest) := by
  rw [poke_of_lt (by simp)]
  simp

/-! ### Strings -/

variable [Zero α] [DecidableEq α]

/-- The string at the front of a block, `none` when it has no terminator. -/
def frontString : List α → Option (List α)
  | [] => none
  | x :: m => if x = 0 then some [] else (frontString m).map (x :: ·)

/-- The string that starts at the index `off` of the array `m`. -/
def cstr (m : List α) (off : ℤ) : Option (List α) :=
  if off < 0 then none else frontString (m.drop off.toNat)

lemma frontString_append {t : List α} (h : (0 : α) ∉ t) (rest : List α) :
    frontString (t ++ 0 :: rest) = some t := by
  induction t with
  | nil => simp [frontString]
  | cons x t ih =>
      obtain ⟨hx, ht⟩ := not_or.mp (fun hm => h (List.mem_cons.mpr hm))
      rw [List.cons_append, frontString, if_neg (Ne.symm hx), ih ht]
      rfl

/-- Values with a terminator behind them begin with a string that ends at their first one. -/
lemma frontString_ended (t rest : List α) :
    frontString (t ++ 0 :: rest) = some (t.takeWhile (· ≠ 0)) := by
  induction t with
  | nil => exact frontString_append List.not_mem_nil rest
  | cons x t ih =>
      rw [List.cons_append, frontString, List.takeWhile_cons]
      by_cases hx : x = 0
      · simp [hx]
      · rw [if_neg hx, ih]
        simp [hx]

/-- A string found is followed by its terminator. -/
lemma eq_append_of_frontString : ∀ {m t : List α}, frontString m = some t →
    (0 : α) ∉ t ∧ ∃ rest, m = t ++ 0 :: rest
  | [], t, h => by simp [frontString] at h
  | x :: m, t, h => by
      rw [frontString] at h
      split_ifs at h with hx
      · obtain rfl := Option.some.inj h
        exact ⟨by simp, m, by simp [hx]⟩
      · obtain ⟨t', ht', rfl⟩ := Option.map_eq_some_iff.mp h
        obtain ⟨h0, rest, hr⟩ := eq_append_of_frontString ht'
        refine ⟨?_, rest, by rw [List.cons_append, ← hr]⟩
        rw [List.mem_cons, not_or]
        exact ⟨Ne.symm hx, h0⟩

/-- A terminator bounds the string. -/
lemma frontString_of_getElem? {m : List α} {k : ℕ} (h : m[k]? = some 0) :
    ∃ t, frontString m = some t ∧ t.length ≤ k := by
  induction m generalizing k with
  | nil => simp at h
  | cons x m ih =>
      by_cases hx : x = 0
      · exact ⟨[], by rw [frontString, if_pos hx], Nat.zero_le _⟩
      · cases k with
        | zero => simp [hx] at h
        | succ k =>
            obtain ⟨t, ht, hk⟩ := ih (by simpa using h)
            exact ⟨x :: t, by rw [frontString, if_neg hx, ht]; rfl, by simpa using hk⟩

lemma cstr_natCast (m : List α) (n : ℕ) : cstr m n = frontString (m.drop n) := by
  rw [cstr, if_neg (by omega), Int.toNat_natCast]

/-- The string behind an initial part. -/
lemma cstr_append {pre t : List α} (h : (0 : α) ∉ t) (rest : List α) :
    cstr (pre ++ (t ++ 0 :: rest)) pre.length = some t := by
  rw [cstr_natCast, List.drop_left, frontString_append h]

lemma cstr_zero (m : List α) : cstr m 0 = frontString m := cstr_natCast m 0

/-- The string at the front of an array. -/
lemma cstr_front {t : List α} (h : (0 : α) ∉ t) (rest : List α) :
    cstr (t ++ 0 :: rest) 0 = some t := by
  rw [cstr_zero, frontString_append h]

/-- A string found, between what is before it and its terminator. -/
lemma eq_append_of_cstr {m t : List α} {n : ℕ} (h : cstr m n = some t) :
    (0 : α) ∉ t ∧ ∃ pre rest, m = pre ++ (t ++ 0 :: rest) ∧ pre.length = n := by
  rw [cstr_natCast] at h
  obtain ⟨h0, rest, hr⟩ := eq_append_of_frontString h
  have hlen := congrArg List.length hr
  rw [List.length_drop, List.length_append, List.length_cons] at hlen
  refine ⟨h0, m.take n, rest, ?_, ?_⟩
  · rw [← hr, List.take_append_drop]
  · rw [List.length_take]
    omega

/-- A terminator at or behind the index bounds the string there. -/
lemma cstr_of_getElem? {m : List α} {n k : ℕ} (hn : n ≤ k) (h : m[k]? = some 0) :
    ∃ t, cstr m n = some t ∧ n + t.length ≤ k := by
  obtain ⟨t, ht, hlen⟩ := frontString_of_getElem? (m := m.drop n) (k := k - n)
    (by rw [List.getElem?_drop, Nat.add_sub_cancel' hn, h])
  exact ⟨t, by rw [cstr_natCast, ht], by omega⟩

/-- What lies behind a terminator does not matter. -/
lemma frontString_append_of_some {m t : List α} (h : frontString m = some t) (rest : List α) :
    frontString (m ++ rest) = some t := by
  obtain ⟨h0, r, rfl⟩ := eq_append_of_frontString h
  rw [List.append_assoc, List.cons_append, frontString_append h0]

/-! ### Texts put together -/

omit [DecidableEq α] in
/-- `snprintf(m + off, size, ..)` for what the format comes to: as much of it as fits `size`
values with a terminator. -/
def snprintf (m : List α) (off : ℤ) (size : ℕ) (text : List α) : Option (List α) :=
  if size = 0 then some m else blit m off (text.take (size - 1) ++ [0])

/-- `strcat(m, text)`: the text with its terminator, from the terminator of the string on. -/
def strcat (m text : List α) : Option (List α) :=
  (cstr m 0).bind fun t => blit m t.length (text ++ [0])

omit [DecidableEq α] in
/-- The text is stored behind an initial part. -/
lemma snprintf_append {pre rest text : List α} {size : ℕ} (hsize : 0 < size)
    (h : (text.take (size - 1)).length < rest.length) :
    snprintf (pre ++ rest) pre.length size text = some (pre ++ (text.take (size - 1)
      ++ 0 :: rest.drop ((text.take (size - 1)).length + 1))) := by
  have hfit : (text.take (size - 1) ++ [0]).length ≤ rest.length := by
    rw [List.length_append, List.length_singleton]
    exact h
  rw [snprintf, if_neg hsize.ne', blit_append hfit, List.length_append, List.length_singleton,
    List.append_assoc, List.singleton_append]

omit [DecidableEq α] in
/-- A text whose terminator does not fit the array. -/
lemma snprintf_eq_none {m text : List α} {n size : ℕ} (hsize : 0 < size)
    (h : m.length ≤ n + (text.take (size - 1)).length) : snprintf m n size text = none := by
  rw [snprintf, if_neg hsize.ne', blit_eq_none_iff, List.length_append, List.length_singleton]
  omega

lemma strcat_append {t rest text : List α} (ht : (0 : α) ∉ t)
    (h : text.length ≤ rest.length) :
    strcat (t ++ 0 :: rest) text = some (t ++ (text ++ 0 :: rest.drop text.length)) := by
  have hfit : (text ++ [0]).length ≤ ((0 : α) :: rest).length := by
    rw [List.length_append, List.length_singleton, List.length_cons]
    omega
  rw [strcat, cstr_front ht, Option.bind_some, blit_append hfit, List.length_append,
    List.length_singleton, List.drop_succ_cons, List.append_assoc, List.singleton_append]

/-- A text that does not fit behind the string. -/
lemma strcat_eq_none {t rest text : List α} (ht : (0 : α) ∉ t)
    (h : rest.length < text.length) : strcat (t ++ 0 :: rest) text = none := by
  rw [strcat, cstr_front ht, Option.bind_some, blit_eq_none_iff, List.length_append,
    List.length_append, List.length_singleton, List.length_cons]
  omega

/-! ### Rows of strings -/

/-- The strings of a list one after the other, each with its terminator. -/
def terminated (L : List (List α)) : List α := L.flatMap (· ++ [0])

omit [DecidableEq α] in
@[simp] lemma terminated_nil : terminated ([] : List (List α)) = [] := rfl

omit [DecidableEq α] in
@[simp] lemma terminated_cons (t : List α) (L : List (List α)) :
    terminated (t :: L) = t ++ 0 :: terminated L := by
  simp [terminated]

omit [DecidableEq α] in
@[simp] lemma terminated_append (L L' : List (List α)) :
    terminated (L ++ L') = terminated L ++ terminated L' := by
  simp [terminated]

omit [DecidableEq α] in
lemma terminated_length_pos {L : List (List α)} (h : L ≠ []) : 0 < (terminated L).length := by
  obtain ⟨t, L', rfl⟩ := List.exists_cons_of_ne_nil h
  simp

omit [DecidableEq α] in
/-- The string at a place of a row, between those before and those behind it. -/
lemma terminated_eq_of_lt {L : List (List α)} {p : ℕ} (h : p < L.length) :
    terminated L = terminated (L.take p) ++ (L[p] ++ 0 :: terminated (L.drop (p + 1))) := by
  conv_lhs => rw [← List.take_append_drop p L, List.drop_eq_getElem_cons h]
  rw [terminated_append, terminated_cons]

omit [DecidableEq α] in
lemma terminated_take_length_le (L : List (List α)) (p : ℕ) :
    (terminated (L.take p)).length ≤ (terminated L).length := by
  conv_rhs => rw [← List.take_append_drop p L, terminated_append, List.length_append]
  exact Nat.le_add_right _ _

/-- Bytes with a terminator behind them are a row of strings. -/
lemma exists_terminated (xs : List α) :
    ∃ L, terminated L = xs ++ [0] ∧ ∀ t ∈ L, (0 : α) ∉ t := by
  induction xs with
  | nil => exact ⟨[[]], rfl, by simp⟩
  | cons x xs ih =>
      obtain ⟨L, hL, hclean⟩ := ih
      by_cases hx : x = 0
      · refine ⟨[] :: L, ?_, List.forall_mem_cons.mpr ⟨List.not_mem_nil, hclean⟩⟩
        rw [terminated_cons, hL, hx]
        rfl
      · cases L with
        | nil => simp at hL
        | cons t L =>
            obtain ⟨ht, hrest⟩ := List.forall_mem_cons.mp hclean
            refine ⟨(x :: t) :: L, ?_, List.forall_mem_cons.mpr ⟨?_, hrest⟩⟩
            · rw [List.cons_append, ← hL, terminated_cons, terminated_cons, List.cons_append]
            · rw [List.mem_cons, not_or]
              exact ⟨Ne.symm hx, ht⟩

/-- The strings of a row. -/
lemma splitOn_terminated {L : List (List α)} (h : ∀ t ∈ L, (0 : α) ∉ t) :
    (terminated L).splitOn 0 = L ++ [[]] := by
  induction L with
  | nil => exact List.splitOn_nil 0
  | cons t L ih =>
      obtain ⟨ht, hrest⟩ := List.forall_mem_cons.mp h
      rw [terminated_cons, List.splitOn_append_cons_self_of_not_mem ht, ih hrest]
      rfl

/-- A string in front of its terminator. -/
lemma takeWhile_terminated {t : List α} (h : (0 : α) ∉ t) (rest : List α) :
    (t ++ 0 :: rest).takeWhile (· ≠ 0) = t := by
  rw [List.takeWhile_append_of_pos, List.takeWhile_cons_of_neg (by simp), List.append_nil]
  intro x hx
  exact decide_eq_true fun h0 => h (h0 ▸ hx)

end OperatingSys
