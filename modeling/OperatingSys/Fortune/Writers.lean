import OperatingSys.Fortune.Seq

/-!
Concurrent writers of `fort_seq.c`.

A call of `write__seq` is cut into four steps, the space check, the copy to the
current `cookie_index`, the advance of the index and the store of the terminator;
made in one go they are `writeSeq` (`toReturn_start`). Any number of calls take these
steps in any order.

The module has no lock. While no call copies between the copy and the advance of
another one, and none advances between the advance and the terminator of another one,
the pot is a row of the messages advanced so far, perhaps with the last one still
open, and behind it lies the message of the call that has copied (`InRow`). So the
calls leave the messages one after the other (`stored_of_apart`).
-/

namespace OperatingSys

namespace Fortune

namespace Seq

/-! ### The steps of a call -/

/-- The places of a call of `write__seq`. -/
inductive WritePc where
  | start | checked | copied | advanced
  | returned (ret : ℤ)
  deriving DecidableEq, Repr

/-- One step of a call with the message `buf`, whose copy comes out as `c`. -/
def writeStep (buf : List UInt8) (c : UserCopy) (s : State) : WritePc → Option (State × WritePc)
  | .start =>
      some (s, if overflows s.cookieIndex buf.length then .returned (-ENOSPC) else .checked)
  | .checked =>
      (copyFromUser s.cookiePot s.cookieIndex buf c).map fun (left, pot) =>
        ({ s with cookiePot := pot }, if left ≠ 0 then .returned (-EFAULT) else .copied)
  | .copied =>
      some ({ s with cookieIndex := toInt (toULong (toULong s.cookieIndex + buf.length)) },
        .advanced)
  | .advanced =>
      (poke s.cookiePot (s.cookieIndex - 1) 0).map fun pot =>
        ({ s with cookiePot := pot }, .returned buf.length)
  | .returned _ => none

/-- At most `n` steps of a call in one go, until it returns. -/
def toReturn (buf : List UInt8) (c : UserCopy) : ℕ → State × WritePc → Option (ℤ × State)
  | _, (s, .returned ret) => some (ret, s)
  | 0, _ => none
  | n + 1, (s, pc) => (writeStep buf c s pc).bind (toReturn buf c n)

/-- **The steps of a call in one go** are the call. -/
theorem toReturn_start (buf : List UInt8) (c : UserCopy) (s : State) :
    toReturn buf c 4 (s, .start) = writeSeq s buf c := by
  simp only [toReturn, writeStep, Option.bind_some, writeSeq, storeMessage]
  split_ifs with hov
  · simp only [toReturn, Option.map_some]
  · simp only [toReturn, writeStep]
    cases copyFromUser s.cookiePot s.cookieIndex buf c with
    | none => rfl
    | some r =>
        obtain ⟨left, pot⟩ := r
        simp only [Option.map_some, Option.bind_some]
        split_ifs with hleft
        · simp only [toReturn, Option.map_some]
        · simp only [toReturn, writeStep, Option.bind_some]
          cases poke pot (toInt (toULong (toULong s.cookieIndex + buf.length)) - 1) 0 with
          | none => rfl
          | some pot' => simp only [toReturn, Option.map_some, Option.bind_some]

/-! ### Any number of calls -/

/-- The module and the places of the calls. -/
structure Writers (ι : Type*) where
  state : State
  pcs : ι → WritePc

variable {ι : Type*}

/-- No call has begun. -/
def noneBegun : Writers ι := ⟨initSeqModule, fun _ => .start⟩

/-- The calls with the messages `msgs`, one step of one of them at a time; a move is a
call with the way its copy comes out. -/
def writers [DecidableEq ι] (msgs : ι → List UInt8) :
    Machine (Writers ι) (ι × UserCopy) Unit where
  step w k := (writeStep (msgs k.1) k.2 w.state (w.pcs k.1)).map fun (s, pc) =>
    ((), ⟨s, Function.update w.pcs k.1 pc⟩)

/-- The messages of the calls `o` one after the other, the last byte of each replaced
by the terminator. -/
def row (msgs : ι → List UInt8) (o : List ι) : List UInt8 :=
  terminated (o.map fun i => (msgs i).dropLast)

/-- The pot holds every message in its own range, and the ranges, in some order, make
up the pot up to `cookie_index`. -/
def Stored (msgs : ι → List UInt8) (s : State) : Prop :=
  ∃ o : List ι, o.Nodup ∧ (∀ i, i ∈ o) ∧ ∃ rest, s.cookiePot = row msgs o ++ rest
    ∧ s.cookieIndex = (row msgs o).length

/-- The move is no copy between the copy and the advance of another call, and no
advance between the advance and the terminator of another call. -/
def Apart (w : Writers ι) (k : ι × UserCopy) : Prop :=
  (w.pcs k.1 = .checked → ∀ j, w.pcs j ≠ .copied)
    ∧ (w.pcs k.1 = .copied → ∀ j, w.pcs j ≠ .advanced)

/-! ### The invariant -/

/-- **The invariant**: behind the row of the messages of the calls `o` that have
returned lies that of the call `mid` that has advanced, and at the index that of the
call that has copied. -/
structure InRow (msgs : ι → List UInt8) (w : Writers ι) (o : List ι) (mid : Option ι)
    (rest : List UInt8) : Prop where
  nodup : (o ++ mid.toList).Nodup
  returned : ∀ i, i ∈ o ↔ w.pcs i = .returned (msgs i).length
  advanced : ∀ i, mid = some i ↔ w.pcs i = .advanced
  copied : ∀ i, w.pcs i = .copied → ∃ rest', rest = msgs i ++ rest'
  unique : ∀ i j, w.pcs i = .copied → w.pcs j = .copied → i = j
  pot : w.state.cookiePot = row msgs o ++ (mid.elim [] msgs ++ rest)
  index : w.state.cookieIndex = (row msgs o ++ mid.elim [] msgs).length
  size : w.state.cookiePot.length = PAGE_SIZE

lemma inRow_noneBegun (msgs : ι → List UInt8) :
    InRow msgs noneBegun [] none (List.replicate MAX_COOKIE_LEN 0) where
  nodup := List.nodup_nil
  returned := fun i => by simp [noneBegun]
  advanced := fun i => by simp [noneBegun]
  copied := fun i h => by simp [noneBegun] at h
  unique := fun i j h => by simp [noneBegun] at h
  pot := rfl
  index := rfl
  size := List.length_replicate

lemma length_row {msgs : ι → List UInt8} (hne : ∀ i, msgs i ≠ []) (o : List ι) :
    (row msgs o).length = (o.map fun i => (msgs i).length).sum := by
  induction o with
  | nil => rfl
  | cons i o ih =>
      have hpos := List.length_pos_iff.mpr (hne i)
      rw [row] at ih ⊢
      simp only [List.map_cons, terminated_cons, List.length_append, List.length_cons,
        List.length_dropLast, List.sum_cons, ih]
      omega

/-- A call that is not at a place, and does not come to it. -/
lemma iff_update [DecidableEq ι] {Q : ι → Prop} {place pcs : ι → WritePc}
    (h : ∀ j, Q j ↔ pcs j = place j) {i : ι} {pc : WritePc} (hi : pcs i ≠ place i)
    (hpc : pc ≠ place i) (j : ι) : Q j ↔ Function.update pcs i pc j = place j := by
  by_cases hj : j = i
  · subst hj
    rw [Function.update_self, h]
    exact iff_of_false hi hpc
  · rw [Function.update_of_ne hj, h]

/-- A call that is at a place another one does not come to was there before. -/
lemma of_update [DecidableEq ι] {pcs : ι → WritePc} {i j : ι} {pc place : WritePc}
    (hpc : pc ≠ place) (h : Function.update pcs i pc j = place) : j ≠ i ∧ pcs j = place := by
  by_cases hj : j = i
  · subst hj
    rw [Function.update_self] at h
    exact absurd h hpc
  · rw [Function.update_of_ne hj] at h
    exact ⟨hj, h⟩

namespace InRow

variable [Fintype ι] [DecidableEq ι] {msgs : ι → List UInt8} {w : Writers ι} {o : List ι}
  {mid : Option ι} {rest : List UInt8}

/-- A call that has not advanced finds room behind the index. -/
lemma room (h : InRow msgs w o mid rest) (hne : ∀ i, msgs i ≠ [])
    (hfit : ∑ i, (msgs i).length ≤ PAGE_SIZE) {i : ι} (hi : i ∉ o ++ mid.toList) :
    (row msgs o ++ mid.elim [] msgs).length + (msgs i).length ≤ PAGE_SIZE := by
  have hmid : (mid.elim [] msgs).length = (mid.toList.map fun i => (msgs i).length).sum := by
    cases mid <;> simp
  have hsum : (((o ++ mid.toList) ++ [i]).map fun i => (msgs i).length).sum
      ≤ ∑ i, (msgs i).length := by
    have hnodup : (o ++ mid.toList ++ [i]).Nodup :=
      List.Nodup.append h.nodup (List.nodup_singleton i) (by simpa using hi)
    rw [← List.sum_toFinset _ hnodup]
    exact Finset.sum_le_sum_of_subset (Finset.subset_univ _)
  simp only [List.map_append, List.sum_append, List.map_singleton, List.sum_singleton] at hsum
  rw [List.length_append, length_row hne, hmid]
  omega

omit [Fintype ι] [DecidableEq ι] in
/-- A call that has not advanced is not in the row. -/
lemma notMem (h : InRow msgs w o mid rest) {i : ι} (hr : w.pcs i ≠ .returned (msgs i).length)
    (ha : w.pcs i ≠ .advanced) : i ∉ o ++ mid.toList := by
  rw [List.mem_append, Option.mem_toList, h.returned, h.advanced]
  exact not_or.mpr ⟨hr, ha⟩

omit [Fintype ι] in
/-- The space check. -/
lemma check (h : InRow msgs w o mid rest) {i : ι} (hi : w.pcs i = .start) {pc : WritePc}
    (hpc : pc = .checked ∨ pc = .returned (-ENOSPC)) :
    InRow msgs ⟨w.state, Function.update w.pcs i pc⟩ o mid rest := by
  have hr : pc ≠ .returned (msgs i).length := by
    rcases hpc with rfl | rfl
    · simp
    · rw [Ne, WritePc.returned.injEq, ENOSPC]
      omega
  have hc : pc ≠ .copied := by
    rcases hpc with rfl | rfl <;> simp
  refine ⟨h.nodup, iff_update h.returned (by simp [hi]) hr, iff_update h.advanced (by simp [hi]) ?_,
    fun j hj => h.copied j (of_update hc hj).2,
    fun j k hj hk => h.unique j k (of_update hc hj).2 (of_update hc hk).2, h.pot, h.index, h.size⟩
  rcases hpc with rfl | rfl <;> simp

/-- The copy, complete or not, while no other call has copied. -/
lemma copy (h : InRow msgs w o mid rest) (hne : ∀ i, msgs i ≠ [])
    (hfit : ∑ i, (msgs i).length ≤ PAGE_SIZE) {i : ι} (hi : w.pcs i = .checked)
    (hapart : ∀ j, w.pcs j ≠ .copied) {c : UserCopy} {left : ℕ} {pot : List UInt8}
    (hc : copyFromUser w.state.cookiePot w.state.cookieIndex (msgs i) c = some (left, pot)) :
    ∃ rest', InRow msgs ⟨{ w.state with cookiePot := pot }, Function.update w.pcs i
      (if left ≠ 0 then .returned (-EFAULT) else .copied)⟩ o mid rest' := by
  have hroom := h.room hne hfit (h.notMem (i := i) (by simp [hi]) (by simp [hi]))
  have hsize := h.size
  rw [h.pot, ← List.append_assoc, List.length_append] at hsize
  obtain ⟨left', data, hcopy, hlen, hdata⟩ :=
    copyFromUser_append (row msgs o ++ mid.elim [] msgs) c
      (show (msgs i).length ≤ rest.length by omega)
  rw [h.pot, h.index, ← List.append_assoc, hcopy, Option.some.injEq, Prod.mk.injEq] at hc
  obtain ⟨rfl, rfl⟩ := hc
  -- no other call has copied
  have honly : ∀ j, Function.update w.pcs i
      (if left' ≠ 0 then WritePc.returned (-EFAULT) else .copied) j = .copied → j = i := by
    intro j hj
    by_contra hne'
    rw [Function.update_of_ne hne'] at hj
    exact hapart j hj
  refine ⟨data ++ rest.drop (msgs i).length, h.nodup,
    iff_update h.returned (by simp [hi]) ?_, iff_update h.advanced (by simp [hi]) ?_, ?_, ?_, ?_,
    h.index, ?_⟩
  · split_ifs
    · rw [Ne, WritePc.returned.injEq, EFAULT]
      omega
    · simp
  · split_ifs <;> simp
  · intro j hj
    obtain rfl := honly j hj
    simp only [Function.update_self] at hj
    split_ifs at hj with hleft
    rw [hdata (not_not.mp hleft)]
    exact ⟨_, rfl⟩
  · intro j k hj hk
    rw [honly j hj, honly k hk]
  · rw [List.append_assoc]
  · simp only [List.length_append, List.length_drop, hlen] at hsize hroom ⊢
    omega

/-- The advance, while no other call has advanced. -/
lemma advance (h : InRow msgs w o mid rest) (hne : ∀ i, msgs i ≠ [])
    (hfit : ∑ i, (msgs i).length ≤ PAGE_SIZE) {i : ι} (hi : w.pcs i = .copied)
    (hapart : ∀ j, w.pcs j ≠ .advanced) :
    ∃ rest', InRow msgs ⟨{ w.state with
        cookieIndex := toInt (toULong (toULong w.state.cookieIndex + (msgs i).length)) },
      Function.update w.pcs i .advanced⟩ o (some i) rest' := by
  have hnot := h.notMem (i := i) (by simp [hi]) (by simp [hi])
  have hroom := h.room hne hfit hnot
  -- no other call waits for its terminator
  obtain rfl : mid = none := by
    cases hm : mid with
    | none => rfl
    | some j => exact absurd ((h.advanced j).mp hm) (hapart j)
  obtain ⟨rest', hrest⟩ := h.copied i hi
  -- the call was the only one that had copied
  have honly : ∀ j, Function.update w.pcs i .advanced j ≠ .copied := by
    intro j hj
    obtain ⟨hji, hj'⟩ := of_update (by simp) hj
    exact hji (h.unique j i hj' hi)
  refine ⟨rest', ?_, iff_update h.returned (by simp [hi]) (by simp), fun j => ?_,
    fun j hj => absurd hj (honly j), fun j _ hj => absurd hj (honly j), ?_, ?_, h.size⟩
  · simpa using List.Nodup.append h.nodup (List.nodup_singleton i) (by simpa using hnot)
  · dsimp only
    by_cases hj : j = i
    · simp [hj]
    · rw [Function.update_of_ne hj]
      exact iff_of_false (by simpa using Ne.symm hj) (hapart j)
  · rw [h.pot, hrest]
    rfl
  · rw [h.index]
    simp only [Option.elim_none, List.append_nil] at hroom ⊢
    rw [advance_eq hroom]
    simp

omit [Fintype ι] in
/-- The terminator. -/
lemma terminate (h : InRow msgs w o mid rest) (hne : ∀ i, msgs i ≠ []) {i : ι}
    (hi : w.pcs i = .advanced) {pot : List UInt8}
    (hp : poke w.state.cookiePot (w.state.cookieIndex - 1) 0 = some pot) :
    InRow msgs ⟨{ w.state with cookiePot := pot },
      Function.update w.pcs i (.returned (msgs i).length)⟩ (o ++ [i]) none rest := by
  obtain rfl : mid = some i := (h.advanced i).mpr hi
  have hm := List.dropLast_append_getLast (hne i)
  -- the last byte of the message is where the terminator goes
  have hpot : w.state.cookiePot
      = (row msgs o ++ (msgs i).dropLast) ++ (msgs i).getLast (hne i) :: rest := by
    rw [h.pot, Option.elim_some]
    conv_lhs => rw [← hm]
    simp
  have hindex : w.state.cookieIndex - 1 = ((row msgs o ++ (msgs i).dropLast).length : ℕ) := by
    have hpos := List.length_pos_iff.mpr (hne i)
    rw [h.index, Option.elim_some]
    simp only [List.length_append, List.length_dropLast]
    omega
  have hrow : row msgs (o ++ [i]) = row msgs o ++ ((msgs i).dropLast ++ [0]) := by
    simp [row]
  have hsize := h.size
  rw [hpot, hindex, poke_append, Option.some.injEq] at hp
  subst hp
  have hcopied : ∀ {j}, Function.update w.pcs i (.returned (msgs i).length) j = .copied →
      w.pcs j = .copied := fun hj => (of_update (by simp) hj).2
  refine ⟨by simpa using h.nodup, fun j => ?_, fun j => ?_, fun j hj => h.copied j (hcopied hj),
    fun j k hj hk => h.unique j k (hcopied hj) (hcopied hk), ?_, ?_, ?_⟩
  · dsimp only
    by_cases hj : j = i
    · simp [hj]
    · rw [Function.update_of_ne hj, ← h.returned, List.mem_append]
      simp [hj]
  · dsimp only
    by_cases hj : j = i
    · simp [hj]
    · rw [Function.update_of_ne hj, ← h.advanced]
      simp [Ne.symm hj]
  · rw [hrow]
    simp
  · rw [hrow]
    simp only [Option.elim_none, List.append_nil, List.length_append, List.length_singleton]
      at hindex ⊢
    omega
  · rw [hpot] at hsize
    simpa using hsize

/-- A call that has not returned can go on: its accesses are inside the pot. -/
lemma enabled (h : InRow msgs w o mid rest) (hne : ∀ i, msgs i ≠ [])
    (hfit : ∑ i, (msgs i).length ≤ PAGE_SIZE) {i : ι} (c : UserCopy)
    (hi : ∀ ret, w.pcs i ≠ .returned ret) : (writers msgs).Enabled w (i, c) := by
  rw [Machine.Enabled]
  simp only [writers, Option.isSome_map]
  cases hpc : w.pcs i with
  | start | copied => rfl
  | checked =>
      -- the copy stays inside, as there is room for all messages
      have hroom := h.room hne hfit (h.notMem (i := i) (by simp [hpc]) (by simp [hpc]))
      have hsize := h.size
      rw [h.pot, ← List.append_assoc, List.length_append] at hsize
      obtain ⟨left, data, hcopy, -⟩ :=
        copyFromUser_append (row msgs o ++ mid.elim [] msgs) c
          (show (msgs i).length ≤ rest.length by omega)
      rw [writeStep, h.pot, h.index, ← List.append_assoc, hcopy]
      rfl
  | advanced =>
      obtain rfl : mid = some i := (h.advanced i).mpr hpc
      have hpos := List.length_pos_iff.mpr (hne i)
      have hsize := h.size
      -- the terminator goes over the last byte of the message
      have hindex : w.state.cookieIndex - 1 = ((row msgs o ++ msgs i).length - 1 : ℕ) := by
        rw [h.index, Option.elim_some, List.length_append]
        omega
      rw [h.pot, Option.elim_some, ← List.append_assoc, List.length_append] at hsize
      rw [writeStep, h.pot, hindex, poke_of_lt]
      · rfl
      · simp only [Option.elim_some, List.length_append]
        omega
  | returned ret => exact absurd hpc (hi ret)

/-- Every step of a call keeps the row, while the calls keep apart. -/
lemma step (h : InRow msgs w o mid rest) (hne : ∀ i, msgs i ≠ [])
    (hfit : ∑ i, (msgs i).length ≤ PAGE_SIZE) {k : ι × UserCopy} (hapart : Apart w k) {e : Unit}
    {w' : Writers ι} (hs : (writers msgs).step w k = some (e, w')) :
    ∃ o' mid' rest', InRow msgs w' o' mid' rest' := by
  obtain ⟨i, c⟩ := k
  obtain ⟨⟨s, pc⟩, hw, he⟩ := Option.map_eq_some_iff.mp hs
  simp only [Prod.mk.injEq, true_and] at he
  subst he
  dsimp only at hw
  cases hpc : w.pcs i with
  | start =>
      rw [hpc, writeStep, Option.some.injEq, Prod.mk.injEq] at hw
      obtain ⟨rfl, rfl⟩ := hw
      exact ⟨o, mid, rest, h.check hpc (by split_ifs <;> simp)⟩
  | checked =>
      rw [hpc, writeStep, Option.map_eq_some_iff] at hw
      obtain ⟨⟨left, pot⟩, hc, hr⟩ := hw
      simp only [Prod.mk.injEq] at hr
      obtain ⟨rfl, rfl⟩ := hr
      obtain ⟨rest', h'⟩ := h.copy hne hfit hpc (hapart.1 hpc) hc
      exact ⟨o, mid, rest', h'⟩
  | copied =>
      rw [hpc, writeStep, Option.some.injEq, Prod.mk.injEq] at hw
      obtain ⟨rfl, rfl⟩ := hw
      obtain ⟨rest', h'⟩ := h.advance hne hfit hpc (hapart.2 hpc)
      exact ⟨o, some i, rest', h'⟩
  | advanced =>
      rw [hpc, writeStep, Option.map_eq_some_iff] at hw
      obtain ⟨pot, hp, hr⟩ := hw
      simp only [Prod.mk.injEq] at hr
      obtain ⟨rfl, rfl⟩ := hr
      exact ⟨o ++ [i], none, rest, h.terminate hne hpc hp⟩
  | returned ret =>
      rw [hpc, writeStep] at hw
      cases hw

omit [Fintype ι] [DecidableEq ι] in
/-- When all calls have returned the pot holds their messages. -/
lemma stored (h : InRow msgs w o mid rest) (hret : ∀ i, w.pcs i = .returned (msgs i).length) :
    Stored msgs w.state := by
  obtain rfl : mid = none := by
    cases hm : mid with
    | none => rfl
    | some i =>
        have := (h.advanced i).mp hm
        rw [hret i] at this
        cases this
  refine ⟨o, by simpa using h.nodup, fun i => (h.returned i).mpr (hret i), rest, h.pot, ?_⟩
  rw [h.index]
  simp

end InRow

/-- **Writers that keep apart lose nothing**: along every schedule on which no call
copies between the copy and the advance of another one, and none advances between the
advance and the terminator of another one, every call can go on until it returns, and
when all have returned success the pot holds every message in its own range. -/
theorem stored_of_apart [Fintype ι] [DecidableEq ι] (msgs : ι → List UInt8)
    (hne : ∀ i, msgs i ≠ []) (hfit : ∑ i, (msgs i).length ≤ PAGE_SIZE)
    (is : List (ι × UserCopy)) (hapart : (writers msgs).Meets Apart is noneBegun)
    (tr : List ((ι × UserCopy) × Unit)) (w : Writers ι)
    (hexec : (writers msgs).exec is noneBegun = some (tr, w)) :
    (∀ i c, (∀ ret, w.pcs i ≠ .returned ret) → (writers msgs).Enabled w (i, c))
      ∧ ((∀ i, w.pcs i = .returned (msgs i).length) → Stored msgs w.state) := by
  obtain ⟨o, mid, rest, h⟩ : ∃ o mid rest, InRow msgs w o mid rest :=
    hapart.invariant (I := fun w => ∃ o mid rest, InRow msgs w o mid rest)
      ⟨[], none, _, inRow_noneBegun msgs⟩
      (fun _ _ _ _ ⟨_, _, _, h⟩ ha hs => h.step hne hfit ha hs) hexec
  exact ⟨fun i c => h.enabled hne hfit c, h.stored⟩

/-! ### Two writers -/

/-- The messages `"a\n"` and `"b\n"`. -/
def twoMsgs : Fin 2 → List UInt8 := ![[97, 10], [98, 10]]

/-- The steps of two calls whose copies are complete. -/
def twoSteps (l : List (Fin 2)) : List (Fin 2 × UserCopy) := l.map (·, .complete)

lemma noneBegun_eq : (noneBegun : Writers (Fin 2))
    = ⟨⟨0 :: 0 :: 0 :: 0 :: List.replicate 4092 0, 0, 0⟩, fun _ => .start⟩ := rfl

lemma overflows_two {n : ℕ} (h : n ≤ 2) : overflows n 2 = false := by
  rw [overflows_eq (by rw [PAGE_SIZE]; omega), decide_eq_false_iff_not, PAGE_SIZE]
  omega

/-- The second call has checked before the first one copies, and copies when the first
one has returned. -/
lemma apart_twoSteps (rest : List UInt8) (hlen : rest.length = 4092) :
    (writers twoMsgs).Meets Apart (twoSteps [0, 1, 0, 0, 0, 1, 1, 1])
        ⟨⟨0 :: 0 :: 0 :: 0 :: rest, 0, 0⟩, fun _ => .start⟩
      ∧ ∃ tr, (writers twoMsgs).exec (twoSteps [0, 1, 0, 0, 0, 1, 1, 1])
        ⟨⟨0 :: 0 :: 0 :: 0 :: rest, 0, 0⟩, fun _ => .start⟩
        = some (tr, ⟨⟨97 :: 0 :: 98 :: 0 :: rest, 4, 0⟩, fun _ => .returned 2⟩) := by
  have hov : overflows 0 2 = false := overflows_two (n := 0) (by omega)
  have h2 : toInt (toULong (toULong 0 + 2)) = 2 := by decide
  have h4 : toInt (toULong (toULong 2 + 2)) = 4 := by decide
  constructor
  · -- one step at a time, the state that a step leaves put in before the next one
    iterate 8
      refine Machine.meets_cons_iff.mpr ⟨by simp [Apart], fun r hr => ?_⟩
      simp [writers, writeStep, twoMsgs, hov, copyFromUser, blit, poke, hlen, h2, h4] at hr
      subst hr
    exact Machine.meets_nil
  · simp [Machine.exec, twoSteps, writers, writeStep, twoMsgs, hov, copyFromUser, blit, poke,
      hlen, h2, h4]
    funext j
    fin_cases j <;> rfl

/-- Both calls copy before either advances, so the second message lies over the
first. -/
lemma exec_overlap (rest : List UInt8) (hlen : rest.length = 4092) :
    ∃ tr, (writers twoMsgs).exec (twoSteps [0, 1, 0, 1, 0, 1, 0, 1])
        ⟨⟨0 :: 0 :: 0 :: 0 :: rest, 0, 0⟩, fun _ => .start⟩
      = some (tr, ⟨⟨98 :: 10 :: 0 :: 0 :: rest, 4, 0⟩, fun _ => .returned 2⟩) := by
  have hov : overflows 0 2 = false := overflows_two (n := 0) (by omega)
  have h2 : toInt (toULong (toULong 0 + 2)) = 2 := by decide
  have h4 : toInt (toULong (toULong 2 + 2)) = 4 := by decide
  simp [Machine.exec, twoSteps, writers, writeStep, twoMsgs, hov, copyFromUser, blit, poke, hlen,
    h2, h4]
  funext j
  fin_cases j <;> rfl

theorem stored_of_apart_two : ∃ is tr w,
    (writers twoMsgs).exec is noneBegun = some (tr, w) ∧ is.length = 8
      ∧ Stored twoMsgs w.state := by
  obtain ⟨hapart, tr, hexec⟩ := apart_twoSteps (List.replicate 4092 0) List.length_replicate
  rw [← noneBegun_eq] at hapart hexec
  refine ⟨_, tr, _, hexec, rfl, ?_⟩
  exact (stored_of_apart twoMsgs (by decide) (by decide) _ hapart tr _ hexec).2 (by decide)

/-- Both messages are copied to the index `0`. -/
theorem overlapping_copies_lose : ¬ ∀ msgs : Fin 2 → List UInt8, (∀ i, msgs i ≠ []) →
    ∑ i, (msgs i).length ≤ PAGE_SIZE → ∀ is tr w,
    (writers msgs).exec is noneBegun = some (tr, w) →
    (∀ i, w.pcs i = .returned (msgs i).length) → Stored msgs w.state := by
  intro hall
  obtain ⟨tr, hexec⟩ := exec_overlap (List.replicate 4092 0) List.length_replicate
  rw [← noneBegun_eq] at hexec
  obtain ⟨o, -, hmem, rest, hpot, -⟩ := hall twoMsgs (by decide) (by decide) _ _ _ hexec (by decide)
  generalize List.replicate 4092 (0 : UInt8) = rest₀ at hpot
  -- whichever message is first, its second byte is a terminator
  cases o with
  | nil => exact absurd (hmem 0) List.not_mem_nil
  | cons i o =>
      have hsecond := congrArg (·[1]?) hpot
      fin_cases i <;> simp [row, twoMsgs] at hsecond

end Seq

end Fortune

end OperatingSys
