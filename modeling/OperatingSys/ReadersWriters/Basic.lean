import OperatingSys.Foundations.Machine
import OperatingSys.Foundations.Population
import OperatingSys.Foundations.Semop

/-!
The readers and writers of `os_01/lab_05/02.c`.

Any number of reader and writer processes share one integer behind four
System V semaphores. A process is modelled at the granularity of its shared
accesses: the issue of a `semop`, its completion, the load and the store of
`(*shm)++` and the `printf` of `*shm` are steps of their own, and a schedule
interleaves the steps of all processes freely.

* `startRead`, `stopRead`, `startWrite`, `stopWrite`: the four operation
  vectors; `semop_startRead` and its companions say what each call does to the
  four values at once. Only the first three operations of `startRead` are
  passed.
* `reader`, `writer`: one step of the two loops, from the place the process is
  at; `ReaderStep` and `WriterStep` list what such a step can be.
* `program`: the machine of all processes, `initial` the state `main` forks
  them in.
-/

namespace OperatingSys

namespace ReadersWriters

/-! ### The four vectors -/

/-- The vector `start_read`. -/
def startRead : SemVector (Fin 4) where
  ops := [⟨3, 0, 1⟩, ⟨1, 0, 1⟩, ⟨0, 1, 1⟩, ⟨3, -1, 1⟩, ⟨2, 1, 1⟩]
  plain := by decide

/-- The vector `stop_read`. -/
def stopRead : SemVector (Fin 4) where
  ops := [⟨0, -1, 1⟩]
  plain := by decide

/-- The vector `start_write`. -/
def startWrite : SemVector (Fin 4) where
  ops := [⟨3, 1, 1⟩, ⟨0, 0, 1⟩, ⟨2, -1, 1⟩, ⟨1, 1, 1⟩, ⟨3, -1, 1⟩]
  plain := by decide

/-- The vector `stop_write`. -/
def stopWrite : SemVector (Fin 4) where
  ops := [⟨1, -1, 1⟩, ⟨2, 1, 1⟩]
  plain := by decide

lemma sem_ext {v w : Fin 4 → ℕ} (h0 : v 0 = w 0) (h1 : v 1 = w 1) (h2 : v 2 = w 2)
    (h3 : v 3 = w 3) : v = w := by
  funext k
  fin_cases k <;> assumption

/-- `semop(semid, start_read, 3)`: no writer counted as waiting and none
inside; one more reader. -/
lemma semop_startRead (v : Fin 4 → ℕ) :
    semop startRead 3 v
      = if v 3 = 0 ∧ v 1 = 0 then some ![v 0 + 1, v 1, v 2, v 3] else none := by
  by_cases h3 : v 3 = 0 <;> by_cases h1 : v 1 = 0 <;>
    simp [semop, startRead, h3, h1]
  apply sem_ext <;> simp [h1, h3]

/-- `semop(semid, stop_read, 1)`: one reader less. -/
lemma semop_stopRead (v : Fin 4 → ℕ) :
    semop stopRead 1 v
      = if 0 < v 0 then some ![v 0 - 1, v 1, v 2, v 3] else none := by
  by_cases h0 : 0 < v 0 <;> simp [semop, stopRead, h0]
  apply sem_ext <;> simp

/-- `semop(semid, start_write, 5)`: no reader inside and the writer's place
free. The increment of semaphore 3 is taken back by the same vector, so the
count of waiting writers is what it was. -/
lemma semop_startWrite (v : Fin 4 → ℕ) :
    semop startWrite 5 v
      = if v 0 = 0 ∧ 0 < v 2 then some ![v 0, v 1 + 1, v 2 - 1, v 3] else none := by
  by_cases h0 : v 0 = 0 <;> by_cases h2 : 0 < v 2 <;>
    simp [semop, startWrite, h0, h2]
  apply sem_ext <;> simp [h0]

/-- `semop(semid, stop_write, 2)`: the writer leaves and frees the place. -/
lemma semop_stopWrite (v : Fin 4 → ℕ) :
    semop stopWrite 2 v
      = if 0 < v 1 then some ![v 0, v 1 - 1, v 2 + 1, v 3] else none := by
  by_cases h1 : 0 < v 1 <;> simp [semop, stopWrite, h1]
  apply sem_ext <;> simp

/-! ### The two loops -/

/-- What the processes share: the four semaphore values and `*shm`. -/
structure Shared where
  sem : Fin 4 → ℕ
  shm : ℕ

/-- What a step shows to the outside. -/
inductive Event where
  | asks | starts | loads | stores | prints (v : ℕ) | stops
  deriving DecidableEq, Repr

/-- The places of a reader in its loop. -/
inductive ReaderPc where
  /-- Before the call of `semop(semid, start_read, 3)`, `sleep(1)` included. -/
  | idle
  /-- In `semop(semid, start_read, 3)`. -/
  | starting
  | printing
  /-- In `semop(semid, stop_read, 1)`. -/
  | stopping
  deriving DecidableEq, Repr

/-- The reader is between its `start_read` and its `stop_read`. -/
def ReaderPc.inside : ReaderPc → Bool
  | .idle | .starting => false
  | .printing | .stopping => true

/-- The places of a writer in its loop; `(*shm)++` holds the loaded value in
between. -/
inductive WriterPc where
  /-- Before the call of `semop(semid, start_write, 5)`, `sleep(2)` included. -/
  | idle
  /-- In `semop(semid, start_write, 5)`. -/
  | starting
  | loading
  | storing (v : ℕ)
  | printing
  /-- In `semop(semid, stop_write, 2)`. -/
  | stopping
  deriving DecidableEq, Repr

/-- The writer is between its `start_write` and its `stop_write`. -/
def WriterPc.inside : WriterPc → Bool
  | .idle | .starting => false
  | .loading | .storing _ | .printing | .stopping => true

/-- One step of the loop of `reader`. -/
def reader (sh : Shared) : ReaderPc → Option (Event × Shared × ReaderPc)
  | .idle => some (.asks, sh, .starting)
  | .starting =>
      (semop startRead 3 sh.sem).map fun v => (.starts, { sh with sem := v }, .printing)
  | .printing => some (.prints sh.shm, sh, .stopping)
  | .stopping =>
      (semop stopRead 1 sh.sem).map fun v => (.stops, { sh with sem := v }, .idle)

/-- One step of the loop of `writer`. -/
def writer (sh : Shared) : WriterPc → Option (Event × Shared × WriterPc)
  | .idle => some (.asks, sh, .starting)
  | .starting =>
      (semop startWrite 5 sh.sem).map fun v => (.starts, { sh with sem := v }, .loading)
  | .loading => some (.loads, sh, .storing sh.shm)
  | .storing v => some (.stores, { sh with shm := v + 1 }, .printing)
  | .printing => some (.prints sh.shm, sh, .stopping)
  | .stopping =>
      (semop stopWrite 2 sh.sem).map fun v => (.stops, { sh with sem := v }, .idle)

/-- What a step of a reader can be. -/
inductive ReaderStep (sh : Shared) : ReaderPc → Event → Shared → ReaderPc → Prop
  | asks : ReaderStep sh .idle .asks sh .starting
  | starts (h3 : sh.sem 3 = 0) (h1 : sh.sem 1 = 0) :
      ReaderStep sh .starting .starts
        { sh with sem := ![sh.sem 0 + 1, sh.sem 1, sh.sem 2, sh.sem 3] } .printing
  | prints : ReaderStep sh .printing (.prints sh.shm) sh .stopping
  | stops (h0 : 0 < sh.sem 0) :
      ReaderStep sh .stopping .stops
        { sh with sem := ![sh.sem 0 - 1, sh.sem 1, sh.sem 2, sh.sem 3] } .idle

/-- What a step of a writer can be. -/
inductive WriterStep (sh : Shared) : WriterPc → Event → Shared → WriterPc → Prop
  | asks : WriterStep sh .idle .asks sh .starting
  | starts (h0 : sh.sem 0 = 0) (h2 : 0 < sh.sem 2) :
      WriterStep sh .starting .starts
        { sh with sem := ![sh.sem 0, sh.sem 1 + 1, sh.sem 2 - 1, sh.sem 3] } .loading
  | loads : WriterStep sh .loading .loads sh (.storing sh.shm)
  | stores (v : ℕ) : WriterStep sh (.storing v) .stores { sh with shm := v + 1 } .printing
  | prints : WriterStep sh .printing (.prints sh.shm) sh .stopping
  | stops (h1 : 0 < sh.sem 1) :
      WriterStep sh .stopping .stops
        { sh with sem := ![sh.sem 0, sh.sem 1 - 1, sh.sem 2 + 1, sh.sem 3] } .idle

/-- The reader's code takes no other step. -/
lemma readerStep_of_reader {sh sh' : Shared} {pc pc' : ReaderPc} {e : Event}
    (h : reader sh pc = some (e, sh', pc')) : ReaderStep sh pc e sh' pc' := by
  cases pc with
  | idle =>
      simp only [reader, Option.some.injEq, Prod.mk.injEq] at h
      obtain ⟨rfl, rfl, rfl⟩ := h
      exact .asks
  | starting =>
      rw [reader, semop_startRead] at h
      split_ifs at h with hv
      · simp only [Option.map_some, Option.some.injEq, Prod.mk.injEq] at h
        obtain ⟨rfl, rfl, rfl⟩ := h
        exact .starts hv.1 hv.2
      · simp at h
  | printing =>
      simp only [reader, Option.some.injEq, Prod.mk.injEq] at h
      obtain ⟨rfl, rfl, rfl⟩ := h
      exact .prints
  | stopping =>
      rw [reader, semop_stopRead] at h
      split_ifs at h with hv
      · simp only [Option.map_some, Option.some.injEq, Prod.mk.injEq] at h
        obtain ⟨rfl, rfl, rfl⟩ := h
        exact .stops hv
      · simp at h

/-- The writer's code takes no other step. -/
lemma writerStep_of_writer {sh sh' : Shared} {pc pc' : WriterPc} {e : Event}
    (h : writer sh pc = some (e, sh', pc')) : WriterStep sh pc e sh' pc' := by
  cases pc with
  | idle =>
      simp only [writer, Option.some.injEq, Prod.mk.injEq] at h
      obtain ⟨rfl, rfl, rfl⟩ := h
      exact .asks
  | starting =>
      rw [writer, semop_startWrite] at h
      split_ifs at h with hv
      · simp only [Option.map_some, Option.some.injEq, Prod.mk.injEq] at h
        obtain ⟨rfl, rfl, rfl⟩ := h
        exact .starts hv.1 hv.2
      · simp at h
  | loading =>
      simp only [writer, Option.some.injEq, Prod.mk.injEq] at h
      obtain ⟨rfl, rfl, rfl⟩ := h
      exact .loads
  | storing v =>
      simp only [writer, Option.some.injEq, Prod.mk.injEq] at h
      obtain ⟨rfl, rfl, rfl⟩ := h
      exact .stores v
  | printing =>
      simp only [writer, Option.some.injEq, Prod.mk.injEq] at h
      obtain ⟨rfl, rfl, rfl⟩ := h
      exact .prints
  | stopping =>
      rw [writer, semop_stopWrite] at h
      split_ifs at h with hv
      · simp only [Option.map_some, Option.some.injEq, Prod.mk.injEq] at h
        obtain ⟨rfl, rfl, rfl⟩ := h
        exact .stops hv
      · simp at h

/-! ### The program -/

/-- A state of the program: what is shared and where every process is. -/
structure State (ρ ω : Type*) where
  shared : Shared
  readers : ρ → ReaderPc
  writers : ω → WriterPc

variable {ρ ω : Type*}

/-- `semctl(sem_id, 2, SETVAL, 1)` on a fresh set, which Linux creates with all
values `0`. -/
def mainSem : Fin 4 → ℕ := Function.update (fun _ => 0) 2 1

/-- The state in which `main` forks the processes. -/
def initial : State ρ ω where
  shared := ⟨mainSem, 0⟩
  readers := fun _ => .idle
  writers := fun _ => .idle

variable [DecidableEq ρ] [DecidableEq ω]

/-- All readers and writers together, one step of one of them at a time. -/
def program : Machine (State ρ ω) (ρ ⊕ ω) Event where
  step s
    | .inl r => (reader s.shared (s.readers r)).map fun (e, sh, pc) =>
        (e, { s with shared := sh, readers := Function.update s.readers r pc })
    | .inr w => (writer s.shared (s.writers w)).map fun (e, sh, pc) =>
        (e, { s with shared := sh, writers := Function.update s.writers w pc })

/-- A step of the program taken by a reader. -/
lemma reader_step {s s' : State ρ ω} {r : ρ} {e : Event}
    (h : program.step s (.inl r) = some (e, s')) :
    ∃ sh pc, ReaderStep s.shared (s.readers r) e sh pc
      ∧ s' = { s with shared := sh, readers := Function.update s.readers r pc } := by
  obtain ⟨⟨e', sh, pc⟩, hr, he⟩ := Option.map_eq_some_iff.mp h
  simp only [Prod.mk.injEq] at he
  obtain ⟨rfl, rfl⟩ := he
  exact ⟨sh, pc, readerStep_of_reader hr, rfl⟩

/-- A step of the program taken by a writer. -/
lemma writer_step {s s' : State ρ ω} {w : ω} {e : Event}
    (h : program.step s (.inr w) = some (e, s')) :
    ∃ sh pc, WriterStep s.shared (s.writers w) e sh pc
      ∧ s' = { s with shared := sh, writers := Function.update s.writers w pc } := by
  obtain ⟨⟨e', sh, pc⟩, hr, he⟩ := Option.map_eq_some_iff.mp h
  simp only [Prod.mk.injEq] at he
  obtain ⟨rfl, rfl⟩ := he
  exact ⟨sh, pc, writerStep_of_writer hr, rfl⟩

end ReadersWriters

end OperatingSys
