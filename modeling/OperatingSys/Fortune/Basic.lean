import OperatingSys.Foundations.CInt
import OperatingSys.Foundations.CString

/-!
What the two fortune modules of `os_02/lab_04/src/part_02` share: the size of
the cookie pot, the free-space computation, the error codes and the copies
between user and kernel space.

A user copy either completes or stops at a fault, and a call of
`copy_from_user` or `copy_to_user` returns the number of bytes it did not copy.
What a faulting `copy_from_user` leaves in the part of the destination it did
not reach is left open.

The two write handlers differ only in the offset the message goes to, so both
are `storeMessage` at their own offsets. `storeMessage_outcome` lists what can
come of a call while the pot is in order (`Kept`), `none` among it: an access
outside the pot.
-/

namespace OperatingSys

namespace Fortune

def PAGE_SIZE : ℕ := 4096

/-- `#define MAX_COOKIE_LEN PAGE_SIZE`. -/
def MAX_COOKIE_LEN : ℕ := PAGE_SIZE

def EFAULT : ℤ := 14

def ENOSPC : ℤ := 28

/-- `int abl_spc = MAX_COOKIE_LEN - cookie_index + 1`, computed in
`unsigned long`, the type of `PAGE_SIZE`, and converted to `int`. -/
def ablSpc (cookieIndex : ℤ) : ℤ :=
  toInt (toULong (toULong (MAX_COOKIE_LEN - toULong cookieIndex) + 1))

/-- `abl_spc < len`, a comparison of an `int` with a `size_t`. -/
def overflows (cookieIndex : ℤ) (len : ℕ) : Bool := toULong (ablSpc cookieIndex) < len

/-- While the index has not passed the limit the comparison is the one meant,
with one byte too many. -/
lemma overflows_eq {n : ℕ} (h : n ≤ PAGE_SIZE + 1) (len : ℕ) :
    overflows n len = decide (PAGE_SIZE + 1 < n + len) := by
  have hn : (n : ℤ) ≤ 4097 := by exact_mod_cast h
  have h1 : toULong ((MAX_COOKIE_LEN : ℕ) - toULong n) + 1
      = (4096 - (n : ℤ)) % 2 ^ 64 + 1 := by
    rw [toULong_of_mem (x := (n : ℤ)) (by omega) (by omega)]
    rfl
  have h2 : toULong (toULong ((MAX_COOKIE_LEN : ℕ) - toULong n) + 1) = 4097 - (n : ℤ) := by
    rw [h1, toULong]
    omega
  have h3 : ablSpc n = 4097 - (n : ℤ) := by
    rw [ablSpc, h2, toInt_of_mem (by omega) (by omega)]
  rw [overflows, h3, toULong_of_mem (by omega) (by omega), decide_eq_decide, PAGE_SIZE]
  omega

/-! ### User copies -/

/-- How a copy between user and kernel space comes out. -/
inductive UserCopy where
  | complete
  /-- Only the first `copied` bytes arrive; the rest of a kernel destination is
  left holding `left`. -/
  | fault (copied : ℕ) (left : ℕ → UInt8)

/-- `copy_from_user` of the block `src` to the index `off` of the array `m`: the
number of bytes not copied and the array afterwards. -/
def copyFromUser (m : List UInt8) (off : ℤ) (src : List UInt8) :
    UserCopy → Option (ℕ × List UInt8)
  | .complete => (blit m off src).map fun m' => (0, m')
  | .fault copied left =>
      (blit m off (src.take copied ++ (List.range (src.length - copied)).map left)).map
        fun m' => (src.length - copied, m')

/-- `copy_to_user` of the block `src`: the number of bytes not copied and the
bytes the user received. -/
def copyToUser (src : List UInt8) : UserCopy → ℕ × List UInt8
  | .complete => (0, src)
  | .fault copied _ => (src.length - copied, src.take copied)

/-- Copies reach outside the array exactly when the block does not fit. -/
lemma copyFromUser_eq_none_iff {m src : List UInt8} {n : ℕ} {c : UserCopy} :
    copyFromUser m n src c = none ↔ m.length < n + src.length := by
  cases c with
  | complete => rw [copyFromUser, Option.map_eq_none_iff, blit_eq_none_iff]
  | fault copied left =>
      rw [copyFromUser, Option.map_eq_none_iff, blit_eq_none_iff]
      simp only [List.length_append, List.length_take, List.length_map, List.length_range]
      omega

/-- A copy that fits is one of a block, complete or not. -/
lemma copyFromUser_blit {m m' src : List UInt8} {off : ℤ} {left : ℕ} {c : UserCopy}
    (h : copyFromUser m off src c = some (left, m')) :
    left ≤ src.length ∧ ∃ data, blit m off data = some m' := by
  cases c with
  | complete =>
      obtain ⟨m₁, hb, he⟩ := Option.map_eq_some_iff.mp h
      obtain ⟨rfl, rfl⟩ := Prod.mk.injEq .. ▸ he
      exact ⟨Nat.zero_le _, _, hb⟩
  | fault copied left =>
      obtain ⟨m₁, hb, he⟩ := Option.map_eq_some_iff.mp h
      obtain ⟨rfl, rfl⟩ := Prod.mk.injEq .. ▸ he
      exact ⟨Nat.sub_le _ _, _, hb⟩

/-- A copy keeps the length of the array and what lies before its index, and
leaves no more bytes than there are. -/
lemma copyFromUser_frame {m m' src : List UInt8} {n left : ℕ} {c : UserCopy}
    (h : copyFromUser m n src c = some (left, m')) :
    m'.length = m.length ∧ (∀ k < n, m'[k]? = m[k]?) ∧ left ≤ src.length := by
  obtain ⟨hleft, data, hb⟩ := copyFromUser_blit h
  exact ⟨blit_length hb, fun k hk => blit_getElem?_lt hb hk, hleft⟩

/-- A copy behind an initial part, complete or not. -/
lemma copyFromUser_append (pre : List UInt8) {rest src : List UInt8} (c : UserCopy)
    (h : src.length ≤ rest.length) : ∃ left data,
      copyFromUser (pre ++ rest) pre.length src c
        = some (left, pre ++ (data ++ rest.drop src.length))
      ∧ data.length = src.length ∧ (left = 0 → data = src) := by
  cases c with
  | complete => exact ⟨0, src, by rw [copyFromUser, blit_append h]; rfl, rfl, fun _ => rfl⟩
  | fault copied left =>
      have hlen : (src.take copied ++ (List.range (src.length - copied)).map left).length
          = src.length := by
        simp only [List.length_append, List.length_take, List.length_map, List.length_range]
        omega
      refine ⟨src.length - copied, _, ?_, hlen, fun h0 => ?_⟩
      · rw [copyFromUser, blit_append (by omega), hlen]
        rfl
      · rw [h0, List.take_of_length_le (by omega)]
        simp

/-! ### Storing a message -/

/-- The body of the two write handlers: the free space is computed from the
offset `check`, the message is copied to the offset `offset`, which is advanced
by the message's length, and the last byte of the message becomes the
terminator. The result is the value returned, the pot and the advanced
offset. -/
def storeMessage (pot : List UInt8) (check offset : ℤ) (buf : List UInt8) (c : UserCopy) :
    Option (ℤ × List UInt8 × ℤ) :=
  let len := buf.length
  if overflows check len then some (-ENOSPC, pot, offset)
  else
    (copyFromUser pot offset buf c).bind fun (left, pot) =>
      if left ≠ 0 then some (-EFAULT, pot, offset)
      else
        -- `offset += len` adds an `int` and a `size_t`
        let next := toInt (toULong (toULong offset + len))
        (poke pot (next - 1) 0).map fun pot => ((len : ℤ), pot, next)

/-- The pot is in order up to the write offset `n`: it has its size, the offset
is in it, and the last byte stored is a terminator. -/
structure Kept (pot : List UInt8) (n : ℕ) : Prop where
  length : pot.length = PAGE_SIZE
  bound : n ≤ PAGE_SIZE
  last : 0 < n → pot[n - 1]? = some 0

lemma kept_init : Kept (List.replicate MAX_COOKIE_LEN 0) 0 where
  length := List.length_replicate
  bound := Nat.zero_le _
  last := fun h => absurd h (lt_irrefl 0)

/-- What can come of storing `buf` with the free space computed from `i` and the
message copied to `n`. -/
inductive Outcome (pot : List UInt8) (i n : ℕ) (buf : List UInt8) :
    Option (ℤ × List UInt8 × ℤ) → Prop
  | full (h : PAGE_SIZE + 1 < i + buf.length) : Outcome pot i n buf (some (-ENOSPC, pot, n))
  | outside (h : i + buf.length ≤ PAGE_SIZE + 1)
      (h' : PAGE_SIZE < n + buf.length ∨ n + buf.length = 0) : Outcome pot i n buf none
  | faulted {pot' : List UInt8} (h : i + buf.length ≤ PAGE_SIZE + 1)
      (h' : n + buf.length ≤ PAGE_SIZE) (h0 : 0 < n + buf.length) (hk : Kept pot' n) :
      Outcome pot i n buf (some (-EFAULT, pot', n))
  | stored {pot' : List UInt8} (h : i + buf.length ≤ PAGE_SIZE + 1)
      (h' : n + buf.length ≤ PAGE_SIZE) (h0 : 0 < n + buf.length)
      (hk : Kept pot' (n + buf.length)) :
      Outcome pot i n buf (some ((buf.length : ℤ), pot', (n + buf.length : ℕ)))

/-- Advancing the write offset by the length of a message that fits. -/
lemma advance_eq {n len : ℕ} (h : n + len ≤ PAGE_SIZE) :
    toInt (toULong (toULong n + len)) = (n + len : ℕ) := by
  have hb : ((n + len : ℕ) : ℤ) ≤ 4096 := by exact_mod_cast h
  push_cast at hb ⊢
  rw [toULong_of_mem (x := (n : ℤ)) (by omega) (by omega),
    toULong_of_mem (by omega) (by omega), toInt_of_mem (by omega) (by omega)]

/-- **What storing a message comes to** while the pot is in order. -/
lemma storeMessage_outcome {pot : List UInt8} {i n : ℕ} (hk : Kept pot n)
    (hi : i ≤ PAGE_SIZE + 1) (buf : List UInt8) (c : UserCopy) :
    Outcome pot i n buf (storeMessage pot i n buf c) := by
  have hlen := hk.length
  simp only [storeMessage, overflows_eq hi, decide_eq_true_eq]
  split_ifs with hov
  · exact .full hov
  cases hc : copyFromUser pot n buf c with
  | none =>
      -- the copy would leave the pot
      have hout := copyFromUser_eq_none_iff.mp hc
      exact .outside (by omega) (Or.inl (by omega))
  | some r =>
      obtain ⟨left, pot'⟩ := r
      obtain ⟨hlen', hframe, hleft⟩ := copyFromUser_frame hc
      have hin : n + buf.length ≤ PAGE_SIZE := by
        by_contra hnot
        rw [copyFromUser_eq_none_iff.mpr (by omega)] at hc
        cases hc
      rw [Option.bind_some]
      dsimp only
      by_cases h0 : left = 0
      · rw [if_neg (by simpa using h0), advance_eq hin]
        by_cases hpos : 0 < n + buf.length
        · -- the terminator goes over the last byte
          have hcast : ((n + buf.length : ℕ) : ℤ) - 1 = (n + buf.length - 1 : ℕ) := by omega
          rw [hcast, poke_of_lt (by omega)]
          refine .stored (by omega) hin hpos ⟨by rw [List.length_set]; omega, hin, fun _ => ?_⟩
          rw [List.getElem?_set_self (by omega)]
        · -- nothing is stored in an empty pot, so the terminator would be in front of it
          rw [poke_eq_none (by omega)]
          exact .outside (by omega) (Or.inr (by omega))
      · -- the copy has failed
        rw [if_pos h0]
        refine .faulted (by omega) hin (by omega) ⟨by omega, hk.bound, fun hn => ?_⟩
        rw [hframe _ (by omega)]
        exact hk.last hn

/-- A message that fits, copied whole: its last byte becomes the terminator. -/
lemma storeMessage_append {pre rest t : List UInt8} {b : UInt8} {i : ℕ}
    (hsize : (pre ++ rest).length = PAGE_SIZE) (hi : i ≤ pre.length)
    (hfit : pre.length + (t ++ [b]).length ≤ PAGE_SIZE) :
    storeMessage (pre ++ rest) i pre.length (t ++ [b]) .complete
      = some (((t ++ [b]).length : ℤ),
          pre ++ (t ++ 0 :: rest.drop (t ++ [b]).length),
          ((pre.length + (t ++ [b]).length : ℕ) : ℤ)) := by
  have hrest : (t ++ [b]).length ≤ rest.length := by
    rw [List.length_append] at hsize; omega
  have hnext : (((pre.length + (t ++ [b]).length : ℕ) : ℤ) - 1)
      = ((pre ++ t).length : ℕ) := by
    simp only [List.length_append, List.length_singleton]; omega
  rw [storeMessage, overflows_eq (by omega), if_neg (by simp only [decide_eq_true_eq]; omega),
    copyFromUser, blit_append hrest]
  simp only [Option.map_some, Option.bind_some, ne_eq, not_true_eq_false, if_false,
    advance_eq hfit, hnext]
  rw [show pre ++ ((t ++ [b]) ++ rest.drop (t ++ [b]).length)
      = (pre ++ t) ++ b :: rest.drop (t ++ [b]).length by simp, poke_append]
  simp

/-- A message takes as many bytes of a row as it has. -/
lemma terminated_concat_length (L : List (List UInt8)) {m : List UInt8} (hpos : 0 < m.length) :
    (terminated (L ++ [m.dropLast])).length = (terminated L).length + m.length := by
  rw [terminated_append, terminated_cons, List.length_append, List.length_append,
    List.length_dropLast, terminated_nil, List.length_singleton]
  omega

/-- A message that fits, copied whole behind a row of texts, becomes the next text of
the row, without its last byte. -/
lemma storeMessage_row {L : List (List UInt8)} {rest m : List UInt8} {i : ℕ}
    (hsize : (terminated L ++ rest).length = PAGE_SIZE) (hi : i ≤ (terminated L).length)
    (hpos : 0 < m.length) (hfit : (terminated L).length + m.length ≤ PAGE_SIZE) :
    storeMessage (terminated L ++ rest) i (terminated L).length m .complete
      = some ((m.length : ℤ), terminated (L ++ [m.dropLast]) ++ rest.drop m.length,
          ((terminated (L ++ [m.dropLast])).length : ℤ)) := by
  have hm : m.dropLast ++ [m.getLast (List.length_pos_iff.mp hpos)] = m :=
    List.dropLast_append_getLast _
  rw [terminated_concat_length L hpos]
  generalize m.getLast (List.length_pos_iff.mp hpos) = b at hm
  generalize m.dropLast = t at hm ⊢
  subst hm
  rw [storeMessage_append hsize hi hfit]
  simp

/-- The pot keeps its size. -/
lemma row_length {L : List (List UInt8)} {rest m : List UInt8}
    (hsize : (terminated L ++ rest).length = PAGE_SIZE) (hpos : 0 < m.length)
    (hfit : (terminated L).length + m.length ≤ PAGE_SIZE) :
    (terminated (L ++ [m.dropLast]) ++ rest.drop m.length).length = PAGE_SIZE := by
  rw [List.length_append] at hsize ⊢
  rw [terminated_concat_length L hpos, List.length_drop]
  omega

end Fortune

end OperatingSys
