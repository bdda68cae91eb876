import OperatingSys.Win32.Basic

/-!
No deadlock in `os_01/lab_06/main.c`.

`Synced` accounts for the synchronisation objects: the mutex is held by the one
reader between its lock and its unlock, `waiting_readers` counts the readers in
the queue, `can_read` is reset only while such a reader has it, and `can_write`
is reset only while some thread is on its way to the test of `waiting_readers`
that makes up for it. The last part survives a test that finds readers waiting,
for these are then on their way to the same test.

So a reader with the mutex never sleeps (`canRead_signalled`), some reader on its
way can always go on, and where nobody can move no writer sleeps either
(`deadlock_free`).
-/

namespace OperatingSys

namespace Win32

/-! ### The places that count -/

namespace ReaderPc

/-- Counted by `waiting_readers`. -/
def queued : ReaderPc → Bool
  | .locking | .testingWriter | .testingWaiting | .waiting | .leavingQueue => true
  | .checking | .entering | .counting | .signalling | .unlocking | .printing | .discounting
  | .testingReaders | .freeing | .finished => false

/-- Between the lock and the unlock. -/
def locked : ReaderPc → Bool
  | .testingWriter | .testingWaiting | .waiting | .leavingQueue | .counting | .signalling
  | .unlocking => true
  | .checking | .entering | .locking | .printing | .discounting | .testingReaders | .freeing
  | .finished => false

/-- About to signal `can_read`, having passed it or not. -/
def passing : ReaderPc → Bool
  | .leavingQueue | .counting | .signalling => true
  | .checking | .entering | .locking | .testingWriter | .testingWaiting | .waiting | .unlocking
  | .printing | .discounting | .testingReaders | .freeing | .finished => false

/-- In `start_read` or `stop_read`, so on its way to the test of
`waiting_readers`, or behind it and about to signal `can_write`. -/
def engaged : ReaderPc → Bool
  | .locking | .testingWriter | .testingWaiting | .waiting | .leavingQueue | .counting
  | .signalling | .unlocking | .printing | .discounting | .testingReaders | .freeing => true
  | .checking | .entering | .finished => false

lemma engaged_of_queued {pc : ReaderPc} (h : pc.queued = true) : pc.engaged = true := by
  cases pc <;> simp_all [queued, engaged]

end ReaderPc

namespace WriterLoc

/-- On its way to the test of `waiting_readers`, or behind it and about to signal
`can_write`. -/
def pending (l : WriterLoc) : Bool :=
  match l.pc with
  | .loading | .storing _ | .printing _ | .releasing | .testingWaiting | .freeing => true
  | .entering | .testingWriter | .testingReaders | .waiting | .claiming | .leavingQueue
  | .resetting | .passing => false

end WriterLoc

/-! ### What one step does to the synchronisation objects -/

section Steps

variable {ρ : Type*} [DecidableEq ρ] {total iterations : ℕ} {r : ρ} {sh sh' : Shared ρ}
  {pc pc' : ReaderPc} {l l' : WriterLoc} {e : Event}

lemma ReaderStep.queue (h : ReaderStep total r sh pc e sh' pc') :
    sh'.waitingReaders + pc.queued.toNat = sh.waitingReaders + pc'.queued.toNat := by
  cases h <;> simp [ReaderPc.queued]

/-- A reader leaves the mutex as it is, or locks it, or unlocks it. -/
lemma ReaderStep.lock (h : ReaderStep total r sh pc e sh' pc') :
    (sh'.mutex = sh.mutex ∧ pc'.locked = pc.locked)
      ∨ (sh.mutex.wait r = some sh'.mutex ∧ pc.locked = false ∧ pc'.locked = true)
      ∨ (sh'.mutex = sh.mutex.release r ∧ pc.locked = true ∧ pc'.locked = false) := by
  cases h with
  | locks m hm => exact Or.inr (Or.inl ⟨hm, rfl, rfl⟩)
  | unlocks => exact Or.inr (Or.inr ⟨rfl, rfl, rfl⟩)
  | checks | finishes | enters | findsWriter | findsNoWriter | findsWaiting | findsNoWaiting
  | waits | leavesQueue | counts | signals | prints | discounts | findsNoReader | findsReader
  | frees => exact Or.inl ⟨rfl, rfl⟩

/-- If `can_read` is reset after a reader's step, the reader is about to signal
it, or it was reset before and the reader was not. -/
lemma ReaderStep.canRead (h : ReaderStep total r sh pc e sh' pc')
    (h0 : sh'.canRead.signalled = false) :
    pc'.passing = true ∨ (sh.canRead.signalled = false ∧ pc.passing = false) := by
  cases h with
  | findsNoWaiting | waits | leavesQueue | counts => exact Or.inl rfl
  | signals => cases h0
  | checks | finishes | enters | locks | findsWriter | findsNoWriter | findsWaiting | unlocks
  | prints | discounts | findsNoReader | findsReader | frees => exact Or.inr ⟨h0, rfl⟩

/-- If `can_write` is reset after a reader's step, the reader is on its way to
its test, or `can_write` was reset before and the reader was not, or the reader
has found others in the queue. -/
lemma ReaderStep.canWrite (h : ReaderStep total r sh pc e sh' pc')
    (h0 : sh'.canWrite.signalled = false) :
    pc'.engaged = true ∨ (sh.canWrite.signalled = false ∧ pc.engaged = false)
      ∨ (sh.waitingReaders ≠ 0 ∧ pc.queued = false) := by
  cases h with
  | frees => cases h0
  | checks | finishes => exact Or.inr (Or.inl ⟨h0, rfl⟩)
  | findsReader hw => exact Or.inr (Or.inr ⟨hw, rfl⟩)
  | enters | locks | findsWriter | findsNoWriter | findsWaiting | findsNoWaiting | waits
  | leavesQueue | counts | signals | unlocks | prints | discounts | findsNoReader =>
      exact Or.inl rfl

omit [DecidableEq ρ] in
/-- A writer leaves the mutex and the queue of the readers alone and does not
reset `can_read`. -/
lemma WriterStep.readerSide (h : WriterStep iterations sh l e sh' l') :
    sh'.mutex = sh.mutex ∧ sh'.waitingReaders = sh.waitingReaders
      ∧ (sh'.canRead.signalled = false → sh.canRead.signalled = false) := by
  cases h with
  | passes => exact ⟨rfl, rfl, fun h0 => by cases h0⟩
  | enters | findsWriter | findsNoWriter | findsReaders | findsNoReaders | waits | claims
  | leavesQueue | resets | loads | stores | prints | releases | findsWaiting | findsNoWaiting
  | frees => exact ⟨rfl, rfl, id⟩

omit [DecidableEq ρ] in
/-- If `can_write` is reset after a writer's step, the writer is on its way to its
test, or `can_write` was reset before and the writer was not, or the writer has
found readers in the queue. -/
lemma WriterStep.canWrite (h : WriterStep iterations sh l e sh' l')
    (h0 : sh'.canWrite.signalled = false) :
    l'.pending = true ∨ (sh.canWrite.signalled = false ∧ l.pending = false)
      ∨ sh.waitingReaders ≠ 0 := by
  cases h with
  | frees => cases h0
  | findsWaiting hw => exact Or.inr (Or.inr hw)
  | enters | findsWriter | findsNoWriter | findsReaders | findsNoReaders | waits | claims
  | leavesQueue | passes => exact Or.inr (Or.inl ⟨h0, rfl⟩)
  | resets | loads | stores | prints | releases | findsNoWaiting => exact Or.inl rfl

end Steps

/-! ### The invariant -/

variable {ρ ω : Type*} [Fintype ρ]

/-- **The account of the synchronisation objects.** -/
structure Synced (sh : Shared ρ) (R : ρ → ReaderPc) (W : ω → WriterLoc) : Prop where
  queue : sh.waitingReaders = population ReaderPc.queued R
  mutex : sh.mutex.Guards ReaderPc.locked R
  canRead : sh.canRead.signalled = false → ∃ r, (R r).passing = true
  canWrite : sh.canWrite.signalled = false →
    (∃ r, (R r).engaged = true) ∨ ∃ w, (W w).pending = true

/-- At the start both events are signalled and the mutex is free. -/
lemma synced_initial :
    Synced ⟨.free, ⟨true⟩, ⟨true⟩, 0, 0, 0, false, 0⟩ (fun _ : ρ => ReaderPc.checking)
      (fun _ : ω => ⟨0, .entering⟩) where
  queue := by
    rw [population_const ReaderPc.queued rfl]
    rfl
  mutex := .of_free fun _ => rfl
  canRead := fun h => by cases h
  canWrite := fun h => by cases h

namespace Synced

variable {sh sh' : Shared ρ} {R : ρ → ReaderPc} {W : ω → WriterLoc} {total iterations : ℕ}
  {e : Event}

/-- If `waiting_readers` is not `0`, some reader is in the queue. -/
lemma exists_queued (hs : Synced sh R W) (h : sh.waitingReaders ≠ 0) :
    ∃ r, (R r).queued = true := by
  apply exists_of_population_ne_zero
  intro h0
  rw [hs.queue, h0] at h
  exact h rfl

/-- A reader's step keeps the account. -/
lemma reader [DecidableEq ρ] (hs : Synced sh R W) {r : ρ} {pc : ReaderPc}
    (h : ReaderStep total r sh (R r) e sh' pc) : Synced sh' (Function.update R r pc) W := by
  refine ⟨?_, ?_, ?_, ?_⟩
  · have hq := h.queue
    have hp := population_update ReaderPc.queued R r pc
    have hw := hs.queue
    omega
  · rcases h.lock with ⟨hm, hl⟩ | ⟨hm, hout, hin⟩ | ⟨hm, hin, hout⟩
    · rw [hm]
      exact hs.mutex.keep hl
    · exact hs.mutex.lock hm hout hin
    · rw [hm]
      exact hs.mutex.unlock hin hout
  · intro h0
    rcases h.canRead h0 with hp | ⟨hold, hnot⟩
    · exact exists_update_self R r hp
    · exact exists_update_of_false pc (hs.canRead hold) hnot
  · intro h0
    rcases h.canWrite h0 with hp | ⟨hold, hnot⟩ | ⟨hq, hnot⟩
    · exact Or.inl (exists_update_self R r hp)
    · exact (hs.canWrite hold).imp (fun hR => exists_update_of_false pc hR hnot) id
    · obtain ⟨r', hr'⟩ := exists_update_of_false pc (hs.exists_queued hq) hnot
      exact Or.inl ⟨r', ReaderPc.engaged_of_queued hr'⟩

/-- A writer's step keeps the account. -/
lemma writer [DecidableEq ω] (hs : Synced sh R W) {w : ω} {l : WriterLoc}
    (h : WriterStep iterations sh (W w) e sh' l) : Synced sh' R (Function.update W w l) := by
  obtain ⟨hm, hq, hr⟩ := h.readerSide
  refine ⟨?_, ?_, ?_, ?_⟩
  · rw [hq]
    exact hs.queue
  · rw [hm]
    exact hs.mutex
  · exact fun h0 => hs.canRead (hr h0)
  · intro h0
    rcases h.canWrite h0 with hp | ⟨hold, hnot⟩ | hne
    · exact Or.inr (exists_update_self W w hp)
    · exact (hs.canWrite hold).imp id fun hW => exists_update_of_false l hW hnot
    · obtain ⟨r, hr'⟩ := hs.exists_queued hne
      exact Or.inl ⟨r, ReaderPc.engaged_of_queued hr'⟩

end Synced

variable [DecidableEq ρ] [DecidableEq ω] [Fintype ω] {iterations : ℕ}

/-- The account is right in every reachable state. -/
lemma synced_reachable {s : State ρ ω} (h : (program iterations).Reachable initial s) :
    Synced s.shared s.readers s.writers := by
  apply h.invariant (I := fun s => Synced s.shared s.readers s.writers) synced_initial
  intro s i e s' hs hstep
  cases i with
  | inl r =>
      obtain ⟨sh, pc, hr, rfl⟩ := reader_step hstep
      exact hs.reader hr
  | inr w =>
      obtain ⟨sh, l, hw, rfl⟩ := writer_step hstep
      exact hs.writer hw

/-! ### Who can move -/

omit [Fintype ρ] in
lemma enabled_reader {s : State ρ ω} {r : ρ} :
    (program iterations).Enabled s (.inl r)
      ↔ (reader (Fintype.card ω * iterations) r s.shared (s.readers r)).isSome := by
  simp only [Machine.Enabled, program, Option.isSome_map]

omit [Fintype ρ] in
lemma enabled_writer {s : State ρ ω} {w : ω} :
    (program iterations).Enabled s (.inr w)
      ↔ (writer iterations s.shared (s.writers w)).isSome := by
  simp only [Machine.Enabled, program, Option.isSome_map]

omit [DecidableEq ρ] [DecidableEq ω] [Fintype ω] in
/-- **A reader with the mutex never sleeps**: `can_read` is signalled, since only
a reader with the mutex has it reset. -/
lemma canRead_signalled {s : State ρ ω} (hs : Synced s.shared s.readers s.writers) {r : ρ}
    (hr : s.readers r = .waiting) : s.shared.canRead.signalled = true := by
  by_contra h0
  obtain ⟨r', hr'⟩ := hs.canRead (by simpa using h0)
  have hlocked : (s.readers r').locked = true := by
    generalize s.readers r' = pc at hr'
    cases pc <;> simp_all [ReaderPc.passing, ReaderPc.locked]
  have hrr : r' = r := hs.mutex.unique hlocked (by rw [hr]; rfl)
  rw [hrr, hr] at hr'
  cases hr'

/-- A reader with the mutex can go on. -/
lemma enabled_of_locked {s : State ρ ω} (hs : Synced s.shared s.readers s.writers) {r : ρ}
    (hr : (s.readers r).locked = true) : (program iterations).Enabled s (.inl r) := by
  rw [enabled_reader]
  cases hpc : s.readers r with
  | waiting =>
      simp [reader, EventObject.wait_autoReset, canRead_signalled hs hpc]
  | testingWriter | testingWaiting | leavingQueue | counting | signalling | unlocking => rfl
  | checking | entering | locking | printing | discounting | testingReaders | freeing
  | finished => simp [hpc, ReaderPc.locked] at hr

/-- An unfinished reader can go on, or the one with the mutex can. -/
lemma exists_enabled_reader {s : State ρ ω} (hs : Synced s.shared s.readers s.writers) {r : ρ}
    (hr : s.readers r ≠ .finished) : ∃ r', (program iterations).Enabled s (.inl r') := by
  by_cases hl : (s.readers r).locked = true
  · exact ⟨r, enabled_of_locked hs hl⟩
  · cases hpc : s.readers r with
    | locking =>
        rcases hs.mutex.wait_or r with hw | ⟨r', hr'⟩
        · refine ⟨r, ?_⟩
          rw [enabled_reader, hpc, reader, Option.isSome_map]
          exact hw
        · exact ⟨r', enabled_of_locked hs hr'⟩
    | checking | entering | printing | discounting | testingReaders | freeing =>
        refine ⟨r, ?_⟩
        rw [enabled_reader, hpc]
        rfl
    | finished => exact absurd hpc hr
    | testingWriter | testingWaiting | waiting | leavingQueue | counting | signalling
    | unlocking => simp [hpc, ReaderPc.locked] at hl

omit [Fintype ρ] in
/-- A writer that neither has finished nor waits can go on. -/
lemma enabled_of_not_waiting {s : State ρ ω} {w : ω}
    (hfin : ¬ (s.writers w).Finished iterations) (hpc : (s.writers w).pc ≠ .waiting) :
    (program iterations).Enabled s (.inr w) := by
  rw [enabled_writer]
  generalize s.writers w = l at hfin hpc
  obtain ⟨i, pc⟩ := l
  cases pc with
  | entering =>
      have hi : i < iterations := not_le.mp fun hle => hfin ⟨rfl, hle⟩
      simp [writer, hi]
  | waiting => exact absurd rfl hpc
  | testingWriter | testingReaders | claiming | leavingQueue | resetting | loading | storing v
  | printing v | releasing | testingWaiting | passing | freeing => rfl

/-- **No deadlock**: in every reachable state in which some thread is unfinished
some thread can move, and whenever a reader with the mutex is about to wait for
`can_read`, it is signalled. -/
theorem deadlock_free {s : State ρ ω} (h : (program iterations).Reachable initial s) :
    ((program iterations).Stuck s →
        (∀ r, s.readers r = .finished) ∧ ∀ w, (s.writers w).Finished iterations)
      ∧ ∀ r, s.readers r = .waiting →
          s.shared.mutex.HeldBy r ∧ s.shared.canRead.signalled = true := by
  have hs := synced_reachable h
  refine ⟨fun hst => ?_, fun r hr => ⟨?_, canRead_signalled hs hr⟩⟩
  · have hR : ∀ r, s.readers r = .finished := by
      -- a reader that has not finished could move, or one it waits for
      intro r
      by_contra hr
      obtain ⟨r', hr'⟩ : ∃ r', (program iterations).Enabled s (.inl r') :=
        exists_enabled_reader hs hr
      exact hst _ hr'
    refine ⟨hR, fun w => ?_⟩
    by_contra hw
    by_cases hpc : (s.writers w).pc = .waiting
    · -- nobody is on the way to the test that would signal `can_write`, so it is signalled
      have hsig : s.shared.canWrite.signalled = true := by
        by_contra h0
        rcases hs.canWrite (by simpa using h0) with ⟨r, hr⟩ | ⟨w', hw'⟩
        · rw [hR r] at hr
          cases hr
        · refine hst (.inr w') (enabled_of_not_waiting ?_ ?_)
          · intro hfin
            simp [WriterLoc.pending, hfin.1] at hw'
          · intro hwait
            simp [WriterLoc.pending, hwait] at hw'
      refine hst (.inr w) ?_
      rw [enabled_writer]
      simp [writer, hpc, EventObject.wait_manualReset, hsig]
    · exact hst (.inr w) (enabled_of_not_waiting hw hpc)
  · exact (hs.mutex.held r).mp (by rw [hr]; rfl)

/-- One writer that has entered and one reader that has locked the mutex and found
the writer waiting: the reader is about to wait, and `can_read` is signalled. -/
theorem deadlock_free_one_each : ∃ s : State (Fin 1) (Fin 1),
    s.readers 0 = .waiting ∧ s.shared.canRead.signalled = true := by
  obtain ⟨tr, s, h, hp⟩ := Machine.exists_run (show ((program 1).exec
    [.inr 0, .inl 0, .inl 0, .inl 0, .inl 0, .inl 0] (initial : State (Fin 1) (Fin 1))).any
      (fun q => q.2.readers 0 = .waiting) = true by decide)
  have hw : s.readers 0 = .waiting := by simpa using hp
  exact ⟨s, hw, ((deadlock_free ⟨tr, h⟩).2 0 hw).2⟩

end Win32

end OperatingSys
