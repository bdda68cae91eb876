import OperatingSys.Fortune.Basic

/-!
What a write of the fortune modules adds to the pot.

`storeMessage_added` says, without any assumption on the read offset, what a write that
returns leaves behind the bytes stored so far: the message with its last byte replaced
by the terminator when it returns the length, and nothing when it fails.
`storeMessage_nil_iff` says when a write touches memory at all.
-/

namespace OperatingSys

namespace Fortune

/-- What a message that is stored adds to the pot: its bytes, the last one replaced by
the terminator. -/
def stored (buf : List UInt8) : List UInt8 := if buf = [] then [] else buf.dropLast ++ [0]

/-- What a write of `buf` that returns `ret` adds to the pot. -/
def added (buf : List UInt8) (ret : ℤ) : List UInt8 := if ret = buf.length then stored buf else []

lemma stored_length (buf : List UInt8) : (stored buf).length = buf.length := by
  rw [stored]
  split_ifs with h
  · rw [h]
  · have hpos := List.length_pos_iff.mpr h
    rw [List.length_append, List.length_dropLast, List.length_singleton]
    omega

/-- The bytes end with a terminator, if there are any. -/
def Closed (bytes : List UInt8) : Prop := ∀ b ∈ bytes.getLast?, b = 0

lemma closed_nil : Closed [] := by simp [Closed]

lemma Closed.append {bytes bytes' : List UInt8} (h : Closed bytes) (h' : Closed bytes') :
    Closed (bytes ++ bytes') := by
  intro b hb
  rw [List.getLast?_append, Option.mem_def, Option.or_eq_some_iff] at hb
  rcases hb with hb | ⟨-, hb⟩
  · exact h' b hb
  · exact h b hb

lemma closed_added (buf : List UInt8) (ret : ℤ) : Closed (added buf ret) := by
  rw [added, stored]
  split_ifs <;> simp [Closed]

/-- The store of the terminator behind the bytes stored and a message copied. -/
lemma poke_stored {bytes buf rest pot : List UInt8} (hclosed : Closed bytes)
    (h : poke (bytes ++ (buf ++ rest)) ((bytes.length + buf.length : ℕ) - 1) 0 = some pot) :
    pot = (bytes ++ stored buf) ++ rest := by
  rcases buf.eq_nil_or_concat' with rfl | ⟨t, b, rfl⟩
  · rcases bytes.eq_nil_or_concat' with rfl | ⟨t, b, rfl⟩
    · cases h
    · -- the message is empty, and the terminator is there already
      obtain rfl : b = 0 := hclosed b (by simp)
      have hindex : (((t ++ [(0 : UInt8)]).length + ([] : List UInt8).length : ℕ) : ℤ) - 1
          = t.length := by simp
      rw [hindex, List.nil_append, List.append_assoc, List.singleton_append, poke_append] at h
      rw [← Option.some.inj h]
      simp [stored]
  · have hindex : ((bytes.length + (t ++ [b]).length : ℕ) : ℤ) - 1 = ((bytes ++ t).length : ℕ) := by
      simp only [List.length_append, List.length_singleton]
      omega
    have hpot : bytes ++ (t ++ [b] ++ rest) = (bytes ++ t) ++ b :: rest := by simp
    rw [hindex, hpot, poke_append] at h
    rw [← Option.some.inj h]
    simp [stored]

/-- **What a write that returns leaves**: the bytes stored before and behind them what
it adds, up to the advanced offset. -/
lemma storeMessage_added {bytes rest buf pot' : List UInt8} {check next ret : ℤ} {c : UserCopy}
    (hsize : (bytes ++ rest).length = PAGE_SIZE) (hclosed : Closed bytes)
    (h : storeMessage (bytes ++ rest) check bytes.length buf c = some (ret, pot', next)) :
    (∃ rest', pot' = (bytes ++ added buf ret) ++ rest')
      ∧ next = (bytes ++ added buf ret).length := by
  have hneg : ∀ e : ℤ, e < 0 → added buf e = [] := fun e he => if_neg (by omega)
  rw [storeMessage] at h
  split_ifs at h with hov
  · -- there is no room left
    simp only [Option.some.injEq, Prod.mk.injEq] at h
    obtain ⟨rfl, rfl, rfl⟩ := h
    rw [hneg _ (by decide), List.append_nil]
    exact ⟨⟨rest, rfl⟩, rfl⟩
  · obtain ⟨⟨left, q⟩, hc, hq⟩ := Option.bind_eq_some_iff.mp h
    have hfit : bytes.length + buf.length ≤ PAGE_SIZE := by
      by_contra hnot
      rw [copyFromUser_eq_none_iff.mpr (by omega)] at hc
      cases hc
    obtain ⟨left', data, hcopy, hlen, hdata⟩ :=
      copyFromUser_append bytes c (show buf.length ≤ rest.length by
        rw [List.length_append] at hsize
        omega)
    rw [hcopy, Option.some.injEq, Prod.mk.injEq] at hc
    obtain ⟨rfl, rfl⟩ := hc
    dsimp only at hq
    split_ifs at hq with hleft
    · -- the copy has failed, and the offset stays
      simp only [Option.some.injEq, Prod.mk.injEq] at hq
      obtain ⟨rfl, rfl, rfl⟩ := hq
      rw [hneg _ (by decide), List.append_nil]
      exact ⟨⟨_, rfl⟩, rfl⟩
    · -- all is there, and the terminator goes over the last byte
      obtain rfl := hdata (not_not.mp hleft)
      obtain ⟨q', hp, hr⟩ := Option.map_eq_some_iff.mp hq
      simp only [Prod.mk.injEq] at hr
      obtain ⟨rfl, rfl, rfl⟩ := hr
      rw [advance_eq hfit] at hp ⊢
      rw [added, if_pos rfl, List.length_append, stored_length]
      exact ⟨⟨_, poke_stored hclosed hp⟩, rfl⟩

lemma copyFromUser_length {pot pot' src : List UInt8} {off : ℤ} {c : UserCopy} {left : ℕ}
    (h : copyFromUser pot off src c = some (left, pot')) :
    pot'.length = pot.length ∧ left ≤ src.length := by
  obtain ⟨hleft, data, hb⟩ := copyFromUser_blit h
  exact ⟨blit_length hb, hleft⟩

lemma storeMessage_length {pot buf pot' : List UInt8} {check offset next ret : ℤ} {c : UserCopy}
    (h : storeMessage pot check offset buf c = some (ret, pot', next)) :
    pot'.length = pot.length := by
  rw [storeMessage] at h
  split_ifs at h with hov
  · simp only [Option.some.injEq, Prod.mk.injEq] at h
    rw [h.2.1]
  · obtain ⟨⟨left, q⟩, hc, hq⟩ := Option.bind_eq_some_iff.mp h
    have hlen := (copyFromUser_length hc).1
    dsimp only at hq
    split_ifs at hq with hleft
    · simp only [Option.some.injEq, Prod.mk.injEq] at hq
      rw [← hq.2.1, hlen]
    · obtain ⟨q', hp, hr⟩ := Option.map_eq_some_iff.mp hq
      simp only [Prod.mk.injEq] at hr
      rw [← hr.2.1, poke_length hp, hlen]

/-- A copy to an array without elements copies nothing. -/
lemma copyFromUser_nil {pot src : List UInt8} {off : ℤ} {c : UserCopy} {left : ℕ}
    (h : copyFromUser [] off src c = some (left, pot)) : left = 0 := by
  have hsrc : src.length = 0 := by
    by_contra hpos
    have hnone : ∀ data : List UInt8, data.length = src.length → blit [] off data = none := by
      intro data hdata
      rw [blit, if_neg]
      rw [List.length_nil]
      omega
    cases c with
    | complete => simp [copyFromUser, hnone] at h
    | fault copied left =>
        rw [copyFromUser, hnone] at h
        · cases h
        · simp only [List.length_append, List.length_take, List.length_map, List.length_range]
          omega
  have hle := (copyFromUser_length h).2
  omega

/-- Without memory a message that is let in is an access outside. -/
lemma storeMessage_nil_iff {buf : List UInt8} {check offset : ℤ} {c : UserCopy} :
    storeMessage [] check offset buf c = none ↔ overflows check buf.length = false := by
  rw [storeMessage]
  cases overflows check buf.length with
  | true => simp
  | false =>
      refine iff_of_true ?_ rfl
      rw [if_neg Bool.false_ne_true, Option.bind_eq_none_iff]
      rintro ⟨left, q⟩ hc
      obtain rfl := copyFromUser_nil hc
      obtain rfl : q = [] := List.length_eq_zero_iff.mp (copyFromUser_length hc).1
      dsimp only
      rw [if_neg (not_not.mpr rfl), poke_nil]
      rfl

end Fortune

end OperatingSys
