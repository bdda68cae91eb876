import OperatingSys.Foundations.Chunks
import OperatingSys.Foundations.Interleaved
import OperatingSys.Foundations.Machine
import OperatingSys.Foundations.Population

/-!
Two buffered readers on one descriptor, `os_02/lab_05/src/01_thread.c`.

Each thread has a stream with a buffer of its own, and the streams have one descriptor and
so one offset in the file. A refill takes the next bytes at the offset; the bytes go to the
output one by one. A byte is modelled with its position in the file.

The blocks that the refills take are the file cut into pieces, whoever takes them, and
what a thread has printed and still holds are the blocks that it took (`Shared`). So
every position is printed once when all have finished (`every_byte_once`).
-/

namespace OperatingSys

namespace Streams

/-- `BUF_N`. -/
def BUF_N : ℕ := 20

/-- `THD_N`. -/
def THD_N : ℕ := 2

/-- A byte of the file, with its position. -/
abbrev Byte := UInt8 × ℕ

/-- Where a thread is in `open_read`. -/
inductive Pc where
  | scan
  | print (c : Byte)
  | finished
  deriving DecidableEq

/-- A thread, with what its stream still has in `buff`. -/
structure Reader where
  buff : List Byte
  pc : Pc

/-- The offset of the open file, and the threads. -/
structure State (τ : Type*) where
  offset : ℕ
  threads : τ → Reader

inductive Event where
  | refill (block : List Byte)
  | scan
  | print (c : Byte)
  | finish

/-- The bytes of a file with their positions. -/
def bytes (content : List UInt8) : List Byte := content.zipIdx

/-- `read` of up to `BUF_N` bytes at an offset. -/
def nextBlock (content : List UInt8) (offset : ℕ) : List Byte :=
  ((bytes content).drop offset).take BUF_N

/-- `open_read`, on the offset and the thread's own part of the state. -/
def openRead (content : List UInt8) (offset : ℕ) (t : Reader) : Option (Event × ℕ × Reader) :=
  match t.pc with
  | .scan =>
      match t.buff with
      | [] =>
          if nextBlock content offset = [] then some (.finish, offset, ⟨[], .finished⟩)
          else some (.refill (nextBlock content offset),
            offset + (nextBlock content offset).length, ⟨nextBlock content offset, .scan⟩)
      | c :: rest => some (.scan, offset, ⟨rest, .print c⟩)
  | .print c => some (.print c, offset, ⟨t.buff, .scan⟩)
  | .finished => none

section Readers

variable {τ : Type*} [DecidableEq τ]

/-- The threads. -/
def readers (content : List UInt8) : Machine (State τ) τ Event where
  step s i := (openRead content s.offset (s.threads i)).map fun (e, offset, t) =>
    (e, ⟨offset, Function.update s.threads i t⟩)

/-- The file has been opened, and no thread has read from it. -/
def opened : State τ := ⟨0, fun _ => ⟨[], .scan⟩⟩

/-! ### One step -/

/-- The steps of `open_read`. -/
inductive ReadStep (content : List UInt8) : ℕ → Reader → Event → ℕ → Reader → Prop
  | refill {offset : ℕ} (h : nextBlock content offset ≠ []) :
      ReadStep content offset ⟨[], .scan⟩ (.refill (nextBlock content offset))
        (offset + (nextBlock content offset).length) ⟨nextBlock content offset, .scan⟩
  | finish {offset : ℕ} (h : nextBlock content offset = []) :
      ReadStep content offset ⟨[], .scan⟩ .finish offset ⟨[], .finished⟩
  | scan {offset : ℕ} {c : Byte} {rest : List Byte} :
      ReadStep content offset ⟨c :: rest, .scan⟩ .scan offset ⟨rest, .print c⟩
  | print {offset : ℕ} {c : Byte} {rest : List Byte} :
      ReadStep content offset ⟨rest, .print c⟩ (.print c) offset ⟨rest, .scan⟩

variable {content : List UInt8} {tr : List (τ × Event)} {s s' : State τ} {i : τ} {e : Event}

lemma readStep_of_openRead {offset offset' : ℕ} {t t' : Reader}
    (h : openRead content offset t = some (e, offset', t')) :
    ReadStep content offset t e offset' t' := by
  obtain ⟨buff, pc⟩ := t
  cases pc with
  | scan =>
      cases buff with
      | nil =>
          rw [openRead] at h
          dsimp only at h
          split_ifs at h with hblock
          · cases h
            exact .finish hblock
          · cases h
            exact .refill hblock
      | cons c rest =>
          cases h
          exact .scan
  | print c =>
      cases h
      exact .print
  | finished => cases h

lemma readers_step (h : (readers content).step s i = some (e, s')) : ∃ t,
    ReadStep content s.offset (s.threads i) e s'.offset t
      ∧ s'.threads = Function.update s.threads i t := by
  obtain ⟨⟨e', offset, t⟩, hstep, heq⟩ := Option.map_eq_some_iff.mp h
  cases heq
  exact ⟨t, readStep_of_openRead hstep, rfl⟩

/-! ### What is read and what is printed -/

/-- The blocks that refills take, with the threads. -/
def blocks (tr : List (τ × Event)) : List (τ × List Byte) :=
  tr.filterMap fun
    | (i, .refill block) => some (i, block)
    | (_, .scan) | (_, .print _) | (_, .finish) => none

/-- The bytes printed, with the threads. -/
def printed (tr : List (τ × Event)) : List (τ × Byte) :=
  tr.filterMap fun
    | (i, .print c) => some (i, c)
    | (_, .refill _) | (_, .scan) | (_, .finish) => none

omit [DecidableEq τ] in
lemma blocks_append (tr tr' : List (τ × Event)) : blocks (tr ++ tr') = blocks tr ++ blocks tr' :=
  List.filterMap_append

omit [DecidableEq τ] in
lemma printed_append (tr tr' : List (τ × Event)) :
    printed (tr ++ tr') = printed tr ++ printed tr' :=
  List.filterMap_append

/-- What a thread has read and not yet printed. -/
def Reader.pending (t : Reader) : List Byte :=
  match t.pc with
  | .scan | .finished => t.buff
  | .print c => c :: t.buff

/-- What a step takes. -/
def Event.block : Event → List (List Byte)
  | .refill block => [block]
  | .scan | .print _ | .finish => []

/-- What a step prints. -/
def Event.out : Event → List Byte
  | .print c => [c]
  | .refill _ | .scan | .finish => []

omit [DecidableEq τ] in
lemma map_blocks_singleton (i : τ) (e : Event) : (blocks [(i, e)]).map Prod.snd = e.block := by
  cases e <;> rfl

lemma part_blocks_self (i : τ) (e : Event) : part i (blocks [(i, e)]) = e.block := by
  cases e with
  | refill block => exact part_cons_self i block []
  | scan | print c | finish => rfl

lemma part_blocks_of_ne {j : τ} (h : i ≠ j) (e : Event) : part j (blocks [(i, e)]) = [] := by
  cases e with
  | refill block => exact part_cons_of_ne h block []
  | scan | print c | finish => rfl

lemma part_printed_self (i : τ) (e : Event) : part i (printed [(i, e)]) = e.out := by
  cases e with
  | print c => exact part_cons_self i c []
  | refill block | scan | finish => rfl

lemma part_printed_of_ne {j : τ} (h : i ≠ j) (e : Event) : part j (printed [(i, e)]) = [] := by
  cases e with
  | print c => exact part_cons_of_ne h c []
  | refill block | scan | finish => rfl

/-- The bytes after a block are those that the offset goes on to. -/
lemma drop_nextBlock (content : List UInt8) (offset : ℕ) :
    (bytes content).drop (offset + (nextBlock content offset).length)
      = ((bytes content).drop offset).drop BUF_N := by
  rw [nextBlock, List.length_take, ← List.drop_drop]
  rcases le_total BUF_N ((bytes content).drop offset).length with hle | hle
  · rw [min_eq_left hle]
  · rw [min_eq_right hle, List.drop_length, List.drop_of_length_le hle]

/-- A step takes the next piece of the file, or none. -/
lemma ReadStep.block {offset offset' : ℕ} {t t' : Reader}
    (h : ReadStep content offset t e offset' t') :
    chunks (BUF_N - 1) ((bytes content).drop offset)
      = e.block ++ chunks (BUF_N - 1) ((bytes content).drop offset') := by
  cases h with
  | refill hblock =>
      have hne : (bytes content).drop offset ≠ [] := fun hnil =>
        hblock (by rw [nextBlock, hnil, List.take_nil])
      rw [chunks_of_ne_nil hne, drop_nextBlock]
      rfl
  | finish | scan | print => rfl

/-- What a thread prints and keeps is what it kept and takes. -/
lemma ReadStep.pending {offset offset' : ℕ} {t t' : Reader}
    (h : ReadStep content offset t e offset' t') :
    e.out ++ t'.pending = t.pending ++ e.block.flatten := by
  cases h with
  | refill hblock => exact (List.append_nil _).symm
  | finish hblock => rfl
  | scan | print => exact (List.append_nil _).symm

/-- Where a thread finishes nothing is left in the file. -/
lemma ReadStep.finished {offset offset' : ℕ} {t t' : Reader}
    (h : ReadStep content offset t e offset' t') (hfin : t'.pc = .finished) :
    t'.buff = [] ∧ (bytes content).drop offset' = [] := by
  cases h with
  | finish hblock =>
      rcases List.take_eq_nil_iff.mp hblock with hzero | hnil
      · cases hzero
      · exact ⟨rfl, hnil⟩
  | refill | scan | print => cases hfin

lemma ReadStep.offset_le {offset offset' : ℕ} {t t' : Reader}
    (h : ReadStep content offset t e offset' t') : offset ≤ offset' := by
  cases h with
  | refill => exact Nat.le_add_right _ _
  | finish | scan | print => exact le_rfl

/-! ### Runs -/

/-- **The invariant of the readers**: the blocks taken and those ahead of the offset are the
pieces of the file, each thread has printed or still holds what it took, and a thread has
finished only at the end of the file. -/
structure Shared (content : List UInt8) (tr : List (τ × Event)) (s : State τ) : Prop where
  taken : (blocks tr).map Prod.snd ++ chunks (BUF_N - 1) ((bytes content).drop s.offset)
    = chunks (BUF_N - 1) (bytes content)
  own : ∀ i, part i (printed tr) ++ (s.threads i).pending = (part i (blocks tr)).flatten
  ended : ∀ i, (s.threads i).pc = .finished →
    (s.threads i).buff = [] ∧ (bytes content).drop s.offset = []

lemma shared_opened : Shared content [] (opened : State τ) where
  taken := rfl
  own _ := rfl
  ended _ hfin := by cases hfin

/-- A step of a thread. -/
lemma Shared.step (h : Shared content tr s) (hs : (readers content).step s i = some (e, s')) :
    Shared content (tr ++ [(i, e)]) s' := by
  obtain ⟨t, hstep, hthreads⟩ := readers_step hs
  have hself : s'.threads i = t := by rw [hthreads, Function.update_self]
  have hrest : ∀ j ≠ i, s'.threads j = s.threads j := fun j hj => by
    rw [hthreads, Function.update_of_ne hj]
  refine ⟨?_, fun j => ?_, fun j hfin => ?_⟩
  · rw [blocks_append, List.map_append, map_blocks_singleton, List.append_assoc, ← hstep.block]
    exact h.taken
  · rw [printed_append, blocks_append, part_append, part_append]
    by_cases hj : j = i
    · subst hj
      rw [part_printed_self, part_blocks_self, hself, List.append_assoc, hstep.pending,
        ← List.append_assoc, h.own, List.flatten_append]
    · rw [part_printed_of_ne (Ne.symm hj), part_blocks_of_ne (Ne.symm hj), hrest j hj,
        List.append_nil, List.append_nil]
      exact h.own j
  · by_cases hj : j = i
    · subst hj
      rw [hself] at hfin ⊢
      exact hstep.finished hfin
    · -- the offset only grows, so a thread that found the end is still there
      rw [hrest j hj] at hfin ⊢
      obtain ⟨hbuff, hend⟩ := h.ended j hfin
      refine ⟨hbuff, ?_⟩
      rw [List.drop_eq_nil_iff] at hend ⊢
      exact hend.trans hstep.offset_le

lemma shared_run (h : (readers content).Run opened tr s) : Shared content tr s :=
  h.induct_trace shared_opened fun _ _ _ _ _ hI hs => hI.step hs

/-! ### The end of the readers -/

/-- The steps that a thread has before it without another refill. -/
def Reader.steps (t : Reader) : ℕ :=
  match t.pc with
  | .scan => 2 * t.buff.length + 1
  | .print _ => 2 * t.buff.length + 2
  | .finished => 0

/-- A step of `open_read` comes nearer to the end. -/
lemma ReadStep.steps_lt {offset offset' : ℕ} {t t' : Reader}
    (h : ReadStep content offset t e offset' t') :
    3 * ((bytes content).length - offset') + t'.steps
      < 3 * ((bytes content).length - offset) + t.steps := by
  cases h with
  | refill hblock =>
      have hpos := List.length_pos_iff.mpr hblock
      have hlen : (nextBlock content offset).length ≤ (bytes content).length - offset := by
        rw [nextBlock, List.length_take, List.length_drop]
        exact min_le_right _ _
      simp only [Reader.steps, List.length_nil]
      omega
  | finish | scan | print =>
      simp only [Reader.steps, List.length_cons, List.length_nil]
      omega

/-- Where nobody can move every thread has finished. -/
lemma finished_of_stuck (h : (readers content).Stuck s) (i : τ) :
    (s.threads i).pc = .finished := by
  have hnone := Machine.stuck_iff.mp h i
  rw [readers, Option.map_eq_none_iff] at hnone
  generalize s.threads i = t at hnone
  obtain ⟨buff, pc⟩ := t
  cases pc with
  | scan =>
      cases buff with
      | nil =>
          rw [openRead] at hnone
          dsimp only at hnone
          split_ifs at hnone
      | cons c rest => cases hnone
  | print c => cases hnone
  | finished => rfl

/-- The steps that all threads have before them at most. -/
def stepsLeft [Fintype τ] (content : List UInt8) (s : State τ) : ℕ :=
  3 * ((bytes content).length - s.offset) + ∑ j, (s.threads j).steps

lemma stepsLeft_lt [Fintype τ] (h : (readers content).step s i = some (e, s')) :
    stepsLeft content s' < stepsLeft content s := by
  obtain ⟨r, hstep, hthreads⟩ := readers_step h
  have hsum := sum_update Reader.steps s.threads i r
  have hless := hstep.steps_lt
  rw [stepsLeft, stepsLeft, hthreads]
  omega

/-- Whatever the threads have done so far, they come to their end. -/
theorem exists_finished [Fintype τ] (h : (readers content).Run opened tr s) :
    ∃ tr' t, (readers content).Run opened (tr ++ tr') t
      ∧ ∀ i, (t.threads i).pc = .finished := by
  obtain ⟨tr', t, hrun, hstuck⟩ := Machine.Run.exists_stuck
    (fun _ _ h => h.length_le (μ := stepsLeft content) fun _ _ _ _ => stepsLeft_lt) h
  exact ⟨tr', t, hrun, finished_of_stuck hstuck⟩

/-- When all have finished, the blocks are the pieces of the file. -/
lemma Shared.blocks_eq (h : Shared content tr s) (hfin : (s.threads i).pc = .finished) :
    (blocks tr).map Prod.snd = chunks (BUF_N - 1) (bytes content) := by
  rw [← h.taken, (h.ended i hfin).2, chunks_nil, List.append_nil]

/-- A thread that has finished has printed what it took. -/
lemma Shared.part_printed (h : Shared content tr s) (hfin : (s.threads i).pc = .finished) :
    part i (printed tr) = (part i (blocks tr)).flatten := by
  have hpending : (s.threads i).pending = [] := by
    rw [Reader.pending, hfin]
    exact (h.ended i hfin).1
  rw [← h.own i, hpending, List.append_nil]

end Readers

/-- **Two readers on one descriptor**: when both have finished, every byte of the file has
been printed once, the blocks taken are the pieces of the file in their order, and each
thread has printed the blocks that it took, in the same order. -/
theorem every_byte_once (content : List UInt8) {tr : List (Fin THD_N × Event)}
    {s : State (Fin THD_N)} (h : (readers content).Run opened tr s)
    (hfin : ∀ i, (s.threads i).pc = .finished) :
    ((printed tr).map Prod.snd).Perm (bytes content)
      ∧ (blocks tr).map Prod.snd = chunks (BUF_N - 1) (bytes content)
      ∧ ∀ i, part i (printed tr) = (part i (blocks tr)).flatten := by
  have hshared := shared_run h
  have hblocks := hshared.blocks_eq (hfin ⟨0, Nat.two_pos⟩)
  have hown : ∀ i, part i (printed tr) = (part i (blocks tr)).flatten := fun i =>
    hshared.part_printed (hfin i)
  refine ⟨?_, hblocks, hown⟩
  have hperm := perm_flatten_of_part hown
  rwa [hblocks, chunks_flatten] at hperm

/-- **The readers end**, however they are scheduled: they take at most three steps for each byte
and one for each thread, and they stop only where all have finished. -/
theorem readers_end {τ : Type*} [DecidableEq τ] [Fintype τ] {content : List UInt8}
    {tr : List (τ × Event)} {s : State τ} (h : (readers content).Run opened tr s) :
    tr.length ≤ 3 * content.length + Fintype.card τ
      ∧ ((readers content).Stuck s ↔ ∀ i, (s.threads i).pc = .finished) := by
  refine ⟨?_, finished_of_stuck, fun hfin => Machine.stuck_iff.mpr fun i => ?_⟩
  · calc tr.length
        ≤ stepsLeft content (opened : State τ) := h.length_le fun _ _ _ _ => stepsLeft_lt
      _ = 3 * content.length + Fintype.card τ := by
        simp [stepsLeft, opened, bytes, Reader.steps]
  · rw [readers, Option.map_eq_none_iff, openRead, hfin i]

/-- A file of 21 letters, which is one more than a buffer holds. -/
def twoBlocks : List UInt8 := (List.range (BUF_N + 1)).map fun k => UInt8.ofNat (97 + k)

/-- The first thread takes a block, the second one the other, and both print theirs. -/
lemma exists_run_twoBlocks : ∃ (tr : List (Fin THD_N × Event)) (s : State (Fin THD_N)),
    (readers twoBlocks).Run opened tr s ∧ (∀ i, (s.threads i).pc = .finished)
      ∧ ∀ i, part i (blocks tr) ≠ [] := by
  have hrun : ((readers twoBlocks).exec ([0, 1, 1, 0, 1, 0, 1] ++ List.replicate 39 0)
      (opened : State (Fin 2))).any
        (fun q => decide ((∀ i, (q.2.threads i).pc = .finished)
          ∧ ∀ i, part i (blocks q.1) ≠ [])) = true := by
    decide +kernel
  obtain ⟨tr, s, h, hfin⟩ := Machine.exists_run hrun
  exact ⟨tr, s, h, of_decide_eq_true hfin⟩

/-- Two threads that read 21 letters. -/
theorem readers_end_two_blocks : ∃ (tr : List (Fin THD_N × Event)) (s : State (Fin THD_N)),
    (readers twoBlocks).Run opened tr s ∧ tr.length ≤ 65 ∧ (readers twoBlocks).Stuck s := by
  obtain ⟨tr, s, h, hfin, -⟩ := exists_run_twoBlocks
  exact ⟨tr, s, h, (readers_end h).1, (readers_end h).2.mpr hfin⟩

/-- Two threads that read 21 letters and both take a block. -/
theorem every_byte_once_two_blocks : ∃ (tr : List (Fin THD_N × Event)) (s : State (Fin THD_N)),
    (∀ i, (s.threads i).pc = .finished) ∧ (∀ i, part i (blocks tr) ≠ [])
      ∧ ((printed tr).map Prod.snd).Perm (bytes twoBlocks)
      ∧ (blocks tr).map Prod.snd = chunks (BUF_N - 1) (bytes twoBlocks)
      ∧ ∀ i, part i (printed tr) = (part i (blocks tr)).flatten := by
  obtain ⟨tr, s, h, hfin, hboth⟩ := exists_run_twoBlocks
  exact ⟨tr, s, hfin, hboth, every_byte_once twoBlocks h hfin⟩

end Streams

end OperatingSys
