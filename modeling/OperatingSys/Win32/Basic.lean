import OperatingSys.Foundations.Machine
import OperatingSys.Foundations.Population
import OperatingSys.Foundations.WaitObject

/-!
The readers and writers of `os_01/lab_06/main.c`.

Any number of reader and writer threads share one integer. A thread is modelled
at the granularity of its synchronisation calls and of its accesses to shared
variables: each of them is one step, the conditions of `start_read`,
`stop_read`, `start_write` and `stop_write` being tested one variable after the
other, and `++value` being a load and a store.

* `reader`, `writer`: one step of the two thread functions, from the place the
  thread is at; `ReaderStep` and `WriterStep` list what such a step can be.
* `program`: the machine of all threads, `initial` the state `main` creates them
  in.
-/

namespace OperatingSys

namespace Win32

/-! ### The shared variables -/

/-- What the threads share. -/
structure Shared (ρ : Type*) where
  mutex : Mutex ρ
  canRead : EventObject false
  canWrite : EventObject true
  waitingWriters : ℤ
  waitingReaders : ℤ
  activeReaders : ℤ
  activeWriter : Bool
  value : ℕ

/-- What a step shows to the outside. -/
inductive Event where
  | moves | loads (v : ℕ) | stores (v : ℕ) | prints (v : ℕ)
  deriving DecidableEq, Repr

/-! ### The thread functions -/

/-- The places of a reader. -/
inductive ReaderPc where
  /-- At the loop condition, `Sleep` included. -/
  | checking
  /-- At `InterlockedIncrement(&waiting_readers)`. -/
  | entering
  /-- At `WaitForSingleObject(mutex, INFINITE)`. -/
  | locking
  /-- At the test of `active_writer` in `start_read`. -/
  | testingWriter
  /-- At the test of `waiting_writers`. -/
  | testingWaiting
  /-- At `WaitForSingleObject(can_read, INFINITE)`. -/
  | waiting
  /-- At `InterlockedDecrement(&waiting_readers)`. -/
  | leavingQueue
  /-- At `InterlockedIncrement(&active_readers)`. -/
  | counting
  /-- At `SetEvent(can_read)`. -/
  | signalling
  /-- At `ReleaseMutex(mutex)`. -/
  | unlocking
  | printing
  /-- At `InterlockedDecrement(&active_readers)`. -/
  | discounting
  /-- At the test of `waiting_readers` in `stop_read`. -/
  | testingReaders
  /-- At `SetEvent(can_write)`. -/
  | freeing
  | finished
  deriving DecidableEq, Repr

/-- The places of a writer. -/
inductive WriterPc where
  /-- At the loop condition and `InterlockedIncrement(&waiting_writers)`, `Sleep`
  included. -/
  | entering
  /-- At the test of `active_writer` in `start_write`. -/
  | testingWriter
  /-- At the test of `active_readers`. -/
  | testingReaders
  /-- At `WaitForSingleObject(can_write, INFINITE)`. -/
  | waiting
  /-- At `active_writer = TRUE`. -/
  | claiming
  /-- At `InterlockedDecrement(&waiting_writers)`. -/
  | leavingQueue
  /-- At `ResetEvent(can_write)`. -/
  | resetting
  | loading
  | storing (v : ℕ)
  | printing (v : ℕ)
  /-- At `active_writer = FALSE`. -/
  | releasing
  /-- At the test of `waiting_readers` in `stop_write`. -/
  | testingWaiting
  /-- At `SetEvent(can_read)`. -/
  | passing
  /-- At `SetEvent(can_write)`. -/
  | freeing
  deriving DecidableEq, Repr

/-- A writer: its variable `i` and its place. -/
structure WriterLoc where
  i : ℕ
  pc : WriterPc

/-- The writer has made its rounds and left its loop. -/
def WriterLoc.Finished (iterations : ℕ) (l : WriterLoc) : Prop :=
  l.pc = .entering ∧ iterations ≤ l.i

instance (iterations : ℕ) (l : WriterLoc) : Decidable (l.Finished iterations) :=
  inferInstanceAs (Decidable (_ ∧ _))

variable {ρ ω : Type*}

/-- One step of the reader `r`, which loops while `value` is less than `total`. -/
def reader [DecidableEq ρ] (total : ℕ) (r : ρ) (sh : Shared ρ) :
    ReaderPc → Option (Event × Shared ρ × ReaderPc)
  | .checking => some (.moves, sh, if sh.value < total then .entering else .finished)
  | .entering => some (.moves, { sh with waitingReaders := sh.waitingReaders + 1 }, .locking)
  | .locking => (sh.mutex.wait r).map fun m => (.moves, { sh with mutex := m }, .testingWriter)
  | .testingWriter => some (.moves, sh, if sh.activeWriter then .waiting else .testingWaiting)
  | .testingWaiting =>
      some (.moves, sh, if sh.waitingWriters ≠ 0 then .waiting else .leavingQueue)
  | .waiting => sh.canRead.wait.map fun e => (.moves, { sh with canRead := e }, .leavingQueue)
  | .leavingQueue => some (.moves, { sh with waitingReaders := sh.waitingReaders - 1 }, .counting)
  | .counting => some (.moves, { sh with activeReaders := sh.activeReaders + 1 }, .signalling)
  | .signalling => some (.moves, { sh with canRead := sh.canRead.set }, .unlocking)
  | .unlocking => some (.moves, { sh with mutex := sh.mutex.release r }, .printing)
  | .printing => some (.prints sh.value, sh, .discounting)
  | .discounting =>
      some (.moves, { sh with activeReaders := sh.activeReaders - 1 }, .testingReaders)
  | .testingReaders => some (.moves, sh, if sh.waitingReaders = 0 then .freeing else .checking)
  | .freeing => some (.moves, { sh with canWrite := sh.canWrite.set }, .checking)
  | .finished => none

/-- One step of a writer with `iterations` rounds to make. -/
def writer (iterations : ℕ) (sh : Shared ρ) (l : WriterLoc) :
    Option (Event × Shared ρ × WriterLoc) :=
  match l.pc with
  | .entering =>
      if l.i < iterations then
        some (.moves, { sh with waitingWriters := sh.waitingWriters + 1 }, ⟨l.i, .testingWriter⟩)
      else none
  | .testingWriter =>
      some (.moves, sh, ⟨l.i, if sh.activeWriter then .waiting else .testingReaders⟩)
  | .testingReaders =>
      some (.moves, sh, ⟨l.i, if 0 < sh.activeReaders then .waiting else .claiming⟩)
  | .waiting => sh.canWrite.wait.map fun e => (.moves, { sh with canWrite := e }, ⟨l.i, .claiming⟩)
  | .claiming => some (.moves, { sh with activeWriter := true }, ⟨l.i, .leavingQueue⟩)
  | .leavingQueue =>
      some (.moves, { sh with waitingWriters := sh.waitingWriters - 1 }, ⟨l.i, .resetting⟩)
  | .resetting => some (.moves, { sh with canWrite := sh.canWrite.reset }, ⟨l.i, .loading⟩)
  | .loading => some (.loads sh.value, sh, ⟨l.i, .storing sh.value⟩)
  | .storing v => some (.stores (v + 1), { sh with value := v + 1 }, ⟨l.i, .printing (v + 1)⟩)
  | .printing v => some (.prints v, sh, ⟨l.i, .releasing⟩)
  | .releasing => some (.moves, { sh with activeWriter := false }, ⟨l.i, .testingWaiting⟩)
  | .testingWaiting =>
      some (.moves, sh, ⟨l.i, if sh.waitingReaders ≠ 0 then .passing else .freeing⟩)
  | .passing => some (.moves, { sh with canRead := sh.canRead.set }, ⟨l.i + 1, .entering⟩)
  | .freeing => some (.moves, { sh with canWrite := sh.canWrite.set }, ⟨l.i + 1, .entering⟩)

/-- What a step of a reader can be. -/
inductive ReaderStep [DecidableEq ρ] (total : ℕ) (r : ρ) (sh : Shared ρ) :
    ReaderPc → Event → Shared ρ → ReaderPc → Prop
  | checks (h : sh.value < total) : ReaderStep total r sh .checking .moves sh .entering
  | finishes (h : total ≤ sh.value) : ReaderStep total r sh .checking .moves sh .finished
  | enters : ReaderStep total r sh .entering .moves
      { sh with waitingReaders := sh.waitingReaders + 1 } .locking
  | locks (m : Mutex ρ) (h : sh.mutex.wait r = some m) :
      ReaderStep total r sh .locking .moves { sh with mutex := m } .testingWriter
  | findsWriter (h : sh.activeWriter = true) :
      ReaderStep total r sh .testingWriter .moves sh .waiting
  | findsNoWriter (h : sh.activeWriter = false) :
      ReaderStep total r sh .testingWriter .moves sh .testingWaiting
  | findsWaiting (h : sh.waitingWriters ≠ 0) :
      ReaderStep total r sh .testingWaiting .moves sh .waiting
  | findsNoWaiting (h : sh.waitingWriters = 0) :
      ReaderStep total r sh .testingWaiting .moves sh .leavingQueue
  | waits (h : sh.canRead.signalled = true) :
      ReaderStep total r sh .waiting .moves { sh with canRead := sh.canRead.reset } .leavingQueue
  | leavesQueue : ReaderStep total r sh .leavingQueue .moves
      { sh with waitingReaders := sh.waitingReaders - 1 } .counting
  | counts : ReaderStep total r sh .counting .moves
      { sh with activeReaders := sh.activeReaders + 1 } .signalling
  | signals : ReaderStep total r sh .signalling .moves
      { sh with canRead := sh.canRead.set } .unlocking
  | unlocks : ReaderStep total r sh .unlocking .moves
      { sh with mutex := sh.mutex.release r } .printing
  | prints : ReaderStep total r sh .printing (.prints sh.value) sh .discounting
  | discounts : ReaderStep total r sh .discounting .moves
      { sh with activeReaders := sh.activeReaders - 1 } .testingReaders
  | findsNoReader (h : sh.waitingReaders = 0) :
      ReaderStep total r sh .testingReaders .moves sh .freeing
  | findsReader (h : sh.waitingReaders ≠ 0) :
      ReaderStep total r sh .testingReaders .moves sh .checking
  | frees : ReaderStep total r sh .freeing .moves { sh with canWrite := sh.canWrite.set } .checking

/-- What a step of a writer can be. -/
inductive WriterStep (iterations : ℕ) (sh : Shared ρ) :
    WriterLoc → Event → Shared ρ → WriterLoc → Prop
  | enters {i : ℕ} (h : i < iterations) : WriterStep iterations sh ⟨i, .entering⟩ .moves
      { sh with waitingWriters := sh.waitingWriters + 1 } ⟨i, .testingWriter⟩
  | findsWriter {i : ℕ} (h : sh.activeWriter = true) :
      WriterStep iterations sh ⟨i, .testingWriter⟩ .moves sh ⟨i, .waiting⟩
  | findsNoWriter {i : ℕ} (h : sh.activeWriter = false) :
      WriterStep iterations sh ⟨i, .testingWriter⟩ .moves sh ⟨i, .testingReaders⟩
  | findsReaders {i : ℕ} (h : 0 < sh.activeReaders) :
      WriterStep iterations sh ⟨i, .testingReaders⟩ .moves sh ⟨i, .waiting⟩
  | findsNoReaders {i : ℕ} (h : sh.activeReaders ≤ 0) :
      WriterStep iterations sh ⟨i, .testingReaders⟩ .moves sh ⟨i, .claiming⟩
  | waits {i : ℕ} (h : sh.canWrite.signalled = true) :
      WriterStep iterations sh ⟨i, .waiting⟩ .moves sh ⟨i, .claiming⟩
  | claims {i : ℕ} : WriterStep iterations sh ⟨i, .claiming⟩ .moves
      { sh with activeWriter := true } ⟨i, .leavingQueue⟩
  | leavesQueue {i : ℕ} : WriterStep iterations sh ⟨i, .leavingQueue⟩ .moves
      { sh with waitingWriters := sh.waitingWriters - 1 } ⟨i, .resetting⟩
  | resets {i : ℕ} : WriterStep iterations sh ⟨i, .resetting⟩ .moves
      { sh with canWrite := sh.canWrite.reset } ⟨i, .loading⟩
  | loads {i : ℕ} :
      WriterStep iterations sh ⟨i, .loading⟩ (.loads sh.value) sh ⟨i, .storing sh.value⟩
  | stores {i : ℕ} (v : ℕ) : WriterStep iterations sh ⟨i, .storing v⟩ (.stores (v + 1))
      { sh with value := v + 1 } ⟨i, .printing (v + 1)⟩
  | prints {i : ℕ} (v : ℕ) :
      WriterStep iterations sh ⟨i, .printing v⟩ (.prints v) sh ⟨i, .releasing⟩
  | releases {i : ℕ} : WriterStep iterations sh ⟨i, .releasing⟩ .moves
      { sh with activeWriter := false } ⟨i, .testingWaiting⟩
  | findsWaiting {i : ℕ} (h : sh.waitingReaders ≠ 0) :
      WriterStep iterations sh ⟨i, .testingWaiting⟩ .moves sh ⟨i, .passing⟩
  | findsNoWaiting {i : ℕ} (h : sh.waitingReaders = 0) :
      WriterStep iterations sh ⟨i, .testingWaiting⟩ .moves sh ⟨i, .freeing⟩
  | passes {i : ℕ} : WriterStep iterations sh ⟨i, .passing⟩ .moves
      { sh with canRead := sh.canRead.set } ⟨i + 1, .entering⟩
  | frees {i : ℕ} : WriterStep iterations sh ⟨i, .freeing⟩ .moves
      { sh with canWrite := sh.canWrite.set } ⟨i + 1, .entering⟩

/-- The reader's code takes no other step. -/
lemma readerStep_of_reader [DecidableEq ρ] {total : ℕ} {r : ρ} {sh sh' : Shared ρ}
    {pc pc' : ReaderPc} {e : Event} (h : reader total r sh pc = some (e, sh', pc')) :
    ReaderStep total r sh pc e sh' pc' := by
  cases pc with
  | checking =>
      rw [reader] at h
      split_ifs at h with hv <;> cases h
      · exact .checks hv
      · exact .finishes (not_lt.mp hv)
  | entering => cases h; exact .enters
  | locking =>
      obtain ⟨m, hm, he⟩ := Option.map_eq_some_iff.mp h
      cases he
      exact .locks m hm
  | testingWriter =>
      rw [reader] at h
      split_ifs at h with hv <;> cases h
      · exact .findsWriter hv
      · exact .findsNoWriter (by simpa using hv)
  | testingWaiting =>
      rw [reader] at h
      split_ifs at h with hv <;> cases h
      · exact .findsWaiting hv
      · exact .findsNoWaiting (by simpa using hv)
  | waiting =>
      rw [reader, EventObject.wait_autoReset] at h
      split_ifs at h with hv <;> cases h
      exact .waits hv
  | leavingQueue => cases h; exact .leavesQueue
  | counting => cases h; exact .counts
  | signalling => cases h; exact .signals
  | unlocking => cases h; exact .unlocks
  | printing => cases h; exact .prints
  | discounting => cases h; exact .discounts
  | testingReaders =>
      rw [reader] at h
      split_ifs at h with hv <;> cases h
      · exact .findsNoReader hv
      · exact .findsReader hv
  | freeing => cases h; exact .frees
  | finished => cases h

/-- The writer's code takes no other step. -/
lemma writerStep_of_writer {iterations : ℕ} {sh sh' : Shared ρ} {l l' : WriterLoc} {e : Event}
    (h : writer iterations sh l = some (e, sh', l')) :
    WriterStep iterations sh l e sh' l' := by
  obtain ⟨i, pc⟩ := l
  cases pc with
  | entering =>
      simp only [writer] at h
      split_ifs at h with hv
      cases h
      exact .enters hv
  | testingWriter =>
      simp only [writer] at h
      split_ifs at h with hv <;> cases h
      · exact .findsWriter hv
      · exact .findsNoWriter (by simpa using hv)
  | testingReaders =>
      simp only [writer] at h
      split_ifs at h with hv <;> cases h
      · exact .findsReaders hv
      · exact .findsNoReaders (not_lt.mp hv)
  | waiting =>
      simp only [writer, EventObject.wait_manualReset] at h
      split_ifs at h with hv <;> cases h
      exact .waits hv
  | claiming => cases h; exact .claims
  | leavingQueue => cases h; exact .leavesQueue
  | resetting => cases h; exact .resets
  | loading => cases h; exact .loads
  | storing v => cases h; exact .stores v
  | printing v => cases h; exact .prints v
  | releasing => cases h; exact .releases
  | testingWaiting =>
      simp only [writer] at h
      split_ifs at h with hv <;> cases h
      · exact .findsWaiting hv
      · exact .findsNoWaiting (by simpa using hv)
  | passing => cases h; exact .passes
  | freeing => cases h; exact .frees

/-! ### The program -/

/-- A state of the program: what is shared and where every thread is. -/
structure State (ρ ω : Type*) where
  shared : Shared ρ
  readers : ρ → ReaderPc
  writers : ω → WriterLoc

/-- The state in which `main` creates the threads. -/
def initial : State ρ ω where
  shared := ⟨.free, ⟨true⟩, ⟨true⟩, 0, 0, 0, false, 0⟩
  readers := fun _ => .checking
  writers := fun _ => ⟨0, .entering⟩

variable [DecidableEq ρ] [DecidableEq ω] [Fintype ω]

/-- All threads together, one step of one of them at a time; `WRITERS_COUNT` is
the number of writers. -/
def program (iterations : ℕ) : Machine (State ρ ω) (ρ ⊕ ω) Event where
  step s
    | .inl r => (reader (Fintype.card ω * iterations) r s.shared (s.readers r)).map
        fun (e, sh, pc) =>
          (e, { s with shared := sh, readers := Function.update s.readers r pc })
    | .inr w => (writer iterations s.shared (s.writers w)).map fun (e, sh, l) =>
        (e, { s with shared := sh, writers := Function.update s.writers w l })

variable {iterations : ℕ}

/-- A step of the program taken by a reader. -/
lemma reader_step {s s' : State ρ ω} {r : ρ} {e : Event}
    (h : (program iterations).step s (.inl r) = some (e, s')) :
    ∃ sh pc, ReaderStep (Fintype.card ω * iterations) r s.shared (s.readers r) e sh pc
      ∧ s' = { s with shared := sh, readers := Function.update s.readers r pc } := by
  obtain ⟨⟨e', sh, pc⟩, hr, he⟩ := Option.map_eq_some_iff.mp h
  cases he
  exact ⟨sh, pc, readerStep_of_reader hr, rfl⟩

/-- A step of the program taken by a writer. -/
lemma writer_step {s s' : State ρ ω} {w : ω} {e : Event}
    (h : (program iterations).step s (.inr w) = some (e, s')) :
    ∃ sh l, WriterStep iterations s.shared (s.writers w) e sh l
      ∧ s' = { s with shared := sh, writers := Function.update s.writers w l } := by
  obtain ⟨⟨e', sh, l⟩, hw, he⟩ := Option.map_eq_some_iff.mp h
  cases he
  exact ⟨sh, l, writerStep_of_writer hw, rfl⟩

/-! ### One thread alone -/

/-- What a reader does alone it can do in any state. -/
lemma reachable_readerAlone {s : State ρ ω} {r : ρ} {n : ℕ} {sh : Shared ρ} {pc : ReaderPc}
    (h : Machine.alone (fun t => reader (Fintype.card ω * iterations) r t.1 t.2) n
      (s.shared, s.readers r) = some (sh, pc)) :
    (program iterations).Reachable s
      { s with shared := sh, readers := Function.update s.readers r pc } := by
  have hr := Machine.reachable_alone (M := program iterations) (i := .inl r)
    (g := fun t => { s with shared := t.1, readers := Function.update s.readers r t.2 })
    (fun t => by simp [program]) h
  simpa using hr

/-- What a writer does alone it can do in any state. -/
lemma reachable_writerAlone {s : State ρ ω} {w : ω} {n : ℕ} {sh : Shared ρ} {l : WriterLoc}
    (h : Machine.alone (fun t => writer iterations t.1 t.2) n (s.shared, s.writers w)
      = some (sh, l)) :
    (program iterations).Reachable s
      { s with shared := sh, writers := Function.update s.writers w l } := by
  have hw := Machine.reachable_alone (M := program iterations) (i := .inr w)
    (g := fun t => { s with shared := t.1, writers := Function.update s.writers w t.2 })
    (fun t => by simp [program]) h
  simpa using hw

end Win32

end OperatingSys
