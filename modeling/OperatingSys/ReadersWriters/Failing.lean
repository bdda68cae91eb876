import OperatingSys.ReadersWriters.Basic

/-!
The readers and writers of `os_01/lab_05/02.c` when a `semop` may return `-1`.

`reader` and `writer` ignore what `semop` returns: a call that fails changes no
semaphore and the process goes on as if it had been done. Here every call may fail,
and a process remembers whether its last `start_read` or `start_write` was done.

A failed `stop` leaves the semaphores higher than they should be, which keeps others
out for good but lets nobody in (`Covered`). A failed `start` lets its process in. So
exclusion, with what it rests on, lasts exactly as long as no `start` fails
(`safe_iff_startsDone`).
-/

namespace OperatingSys

namespace ReadersWriters

/-! ### Calls that may fail -/

/-- What a `semop` does: its vector, or nothing but return `-1`. -/
inductive Outcome where
  | done | fails
  deriving DecidableEq, Repr

/-- Where a process is, and whether its last `start` vector was done. The second is
not in the code. -/
structure Local (π : Type*) where
  pc : π
  acquired : Bool

/-- The reader is between its `start_read` and its `stop_read`. -/
def Local.reading (l : Local ReaderPc) : Bool := l.pc.inside

/-- The writer is between its `start_write` and its `stop_write`. -/
def Local.writing (l : Local WriterPc) : Bool := l.pc.inside

/-- One step of the loop of `reader`, `none` as event for a call that fails. -/
def readerFailing (sh : Shared) (l : Local ReaderPc) :
    Outcome → Option (Option Event × Shared × Local ReaderPc)
  | .done => (reader sh l.pc).map fun (e, sh', pc) =>
      (some e, sh', ⟨pc, if l.pc = .starting then true else l.acquired⟩)
  | .fails =>
      match l.pc with
      | .starting => some (none, sh, ⟨.printing, false⟩)
      | .stopping => some (none, sh, ⟨.idle, l.acquired⟩)
      | .idle | .printing => none

/-- One step of the loop of `writer`, `none` as event for a call that fails. -/
def writerFailing (sh : Shared) (l : Local WriterPc) :
    Outcome → Option (Option Event × Shared × Local WriterPc)
  | .done => (writer sh l.pc).map fun (e, sh', pc) =>
      (some e, sh', ⟨pc, if l.pc = .starting then true else l.acquired⟩)
  | .fails =>
      match l.pc with
      | .starting => some (none, sh, ⟨.loading, false⟩)
      | .stopping => some (none, sh, ⟨.idle, l.acquired⟩)
      | .idle | .loading | .storing _ | .printing => none

/-- A state of the program whose calls may fail. -/
structure FailingState (ρ ω : Type*) where
  shared : Shared
  readers : ρ → Local ReaderPc
  writers : ω → Local WriterPc

variable {ρ ω : Type*}

/-- The state in which `main` forks the processes. -/
def failingInitial : FailingState ρ ω where
  shared := ⟨mainSem, 0⟩
  readers := fun _ => ⟨.idle, false⟩
  writers := fun _ => ⟨.idle, false⟩

section Program

variable [DecidableEq ρ] [DecidableEq ω]

/-- All readers and writers together; a move is that of a process, with the outcome
of its call. -/
def failingProgram : Machine (FailingState ρ ω) ((ρ ⊕ ω) × Outcome) (Option Event) where
  step s
    | (.inl r, o) => (readerFailing s.shared (s.readers r) o).map fun (e, sh, l) =>
        (e, { s with shared := sh, readers := Function.update s.readers r l })
    | (.inr w, o) => (writerFailing s.shared (s.writers w) o).map fun (e, sh, l) =>
        (e, { s with shared := sh, writers := Function.update s.writers w l })

end Program

/-! ### What holds while no `start` fails -/

/-- Nobody is inside without having acquired it: no two writers, and no reader
with a writer. -/
structure Safe (s : FailingState ρ ω) : Prop where
  readers : ∀ r, (s.readers r).reading = true → (s.readers r).acquired = true
  writers : ∀ w, (s.writers w).writing = true → (s.writers w).acquired = true
  unique : ∀ w w', (s.writers w).writing = true → (s.writers w').writing = true → w = w'
  apart : ∀ w r, (s.writers w).writing = true → (s.readers r).reading = false

/-- The move is no failing `start_read` and no failing `start_write`. -/
def StartsDone (s : FailingState ρ ω) : (ρ ⊕ ω) × Outcome → Prop
  | (.inl r, o) => o = .fails → (s.readers r).pc ≠ .starting
  | (.inr w, o) => o = .fails → (s.writers w).pc ≠ .starting

variable [Fintype ρ] [Fintype ω]

/-- **The invariant**: the semaphores count at least the processes inside, who have
all acquired it. -/
structure Covered (v : Fin 4 → ℕ) (R : ρ → Local ReaderPc) (W : ω → Local WriterPc) : Prop where
  readers : population Local.reading R ≤ v 0
  writers : population Local.writing W ≤ v 1
  place : v 2 + v 1 = 1
  apart : v 0 = 0 ∨ v 1 = 0
  acquiredReaders : ∀ r, (R r).reading = true → (R r).acquired = true
  acquiredWriters : ∀ w, (W w).writing = true → (W w).acquired = true

lemma covered_failingInitial : Covered mainSem (fun _ : ρ => ⟨ReaderPc.idle, false⟩)
    (fun _ : ω => ⟨WriterPc.idle, false⟩) where
  readers := (population_const _ rfl).le.trans (Nat.zero_le _)
  writers := (population_const _ rfl).le.trans (Nat.zero_le _)
  place := rfl
  apart := Or.inl rfl
  acquiredReaders := fun _ h => (Bool.false_ne_true h).elim
  acquiredWriters := fun _ h => (Bool.false_ne_true h).elim

namespace Covered

variable {v : Fin 4 → ℕ} {R : ρ → Local ReaderPc} {W : ω → Local WriterPc}

lemma safe {m : ℕ} (h : Covered v R W) : Safe ⟨⟨v, m⟩, R, W⟩ := by
  have hp := h.place
  have hw := h.writers
  refine ⟨h.acquiredReaders, h.acquiredWriters, fun w w' => ?_, fun w r hin => ?_⟩
  · have hone : population Local.writing W ≤ 1 := by omega
    exact eq_of_population_le_one hone
  · have hpos : 0 < population Local.writing W := population_pos hin
    have hnone : population Local.reading R = 0 := by
      have ha := h.apart
      have hr := h.readers
      omega
    exact population_eq_zero.mp hnone r

/-- A reader's step that is no failing `start_read`. -/
lemma reader [DecidableEq ρ] (h : Covered v R W) {m : ℕ} {r : ρ} {o : Outcome} {e : Option Event}
    {sh : Shared} {l : Local ReaderPc} (hc : o = .fails → (R r).pc ≠ .starting)
    (hs : readerFailing ⟨v, m⟩ (R r) o = some (e, sh, l)) :
    Covered sh.sem (Function.update R r l) W := by
  obtain ⟨h0, h1, h2, ha, hR, hW⟩ := h
  have hp := population_update Local.reading R r l
  -- the process keeps what it has acquired, so only its own case is new
  suffices hstep : (population Local.reading (Function.update R r l) ≤ sh.sem 0
      ∧ sh.sem 1 = v 1 ∧ sh.sem 2 = v 2 ∧ (sh.sem 0 = 0 ∨ sh.sem 1 = 0))
      ∧ (l.reading = true → l.acquired = true) by
    obtain ⟨⟨hn, h1', h2', ha'⟩, hl⟩ := hstep
    exact ⟨hn, h1' ▸ h1, by rw [h1', h2', h2], ha',
      (Function.forall_update_iff R fun _ l => l.reading = true → l.acquired = true).mpr
        ⟨hl, fun r' _ => hR r'⟩, hW⟩
  have hRr := hR r
  generalize R r = l₀ at *
  obtain ⟨pc₀, a₀⟩ := l₀
  cases o with
  | done =>
      obtain ⟨⟨e', sh', pc⟩, hr, he⟩ := Option.map_eq_some_iff.mp hs
      simp only [Prod.mk.injEq] at he
      obtain ⟨-, rfl, rfl⟩ := he
      cases readerStep_of_reader hr with
      | asks =>
          simp only [Local.reading, ReaderPc.inside] at hp
          exact ⟨⟨by dsimp only; omega, rfl, rfl, ha⟩, fun hin => (Bool.false_ne_true hin).elim⟩
      | starts h3' h1' =>
          rw [if_pos rfl] at hp ⊢
          simp only [Local.reading, ReaderPc.inside, Bool.toNat_false, Bool.toNat_true] at hp
          exact ⟨⟨by change _ ≤ v 0 + 1; omega, rfl, rfl, Or.inr h1'⟩, fun _ => rfl⟩
      | prints =>
          simp only [Local.reading, ReaderPc.inside] at hp
          exact ⟨⟨by dsimp only; omega, rfl, rfl, ha⟩, hRr⟩
      | stops h0' =>
          simp only [Local.reading, ReaderPc.inside, Bool.toNat_false, Bool.toNat_true] at hp
          exact ⟨⟨by change _ ≤ v 0 - 1; omega, rfl, rfl,
            by change v 0 - 1 = 0 ∨ v 1 = 0; omega⟩, fun hin => (Bool.false_ne_true hin).elim⟩
  | fails =>
      cases pc₀ with
      | starting => exact absurd rfl (hc rfl)
      | stopping =>
          simp only [readerFailing, Option.some.injEq, Prod.mk.injEq] at hs
          obtain ⟨-, rfl, rfl⟩ := hs
          simp only [Local.reading, ReaderPc.inside, Bool.toNat_false, Bool.toNat_true] at hp
          exact ⟨⟨by dsimp only; omega, rfl, rfl, ha⟩, by simp [Local.reading, ReaderPc.inside]⟩
      | idle | printing => simp [readerFailing] at hs

/-- A writer's step that is no failing `start_write`. -/
lemma writer [DecidableEq ω] (h : Covered v R W) {m : ℕ} {w : ω} {o : Outcome} {e : Option Event}
    {sh : Shared} {l : Local WriterPc} (hc : o = .fails → (W w).pc ≠ .starting)
    (hs : writerFailing ⟨v, m⟩ (W w) o = some (e, sh, l)) :
    Covered sh.sem R (Function.update W w l) := by
  obtain ⟨h0, h1, h2, ha, hR, hW⟩ := h
  have hp := population_update Local.writing W w l
  -- only the semaphores and the place of the writer change
  suffices hstep : (population Local.writing (Function.update W w l) ≤ sh.sem 1
      ∧ sh.sem 0 = v 0 ∧ sh.sem 2 + sh.sem 1 = 1 ∧ (sh.sem 0 = 0 ∨ sh.sem 1 = 0))
      ∧ (l.writing = true → l.acquired = true) by
    obtain ⟨⟨hn, h0', h2', ha'⟩, hl⟩ := hstep
    exact ⟨h0' ▸ h0, hn, h2', ha', hR,
      (Function.forall_update_iff W fun _ l => l.writing = true → l.acquired = true).mpr
        ⟨hl, fun w' _ => hW w'⟩⟩
  have hWw := hW w
  generalize W w = l₀ at *
  obtain ⟨pc₀, a₀⟩ := l₀
  cases o with
  | done =>
      obtain ⟨⟨e', sh', pc⟩, hw, he⟩ := Option.map_eq_some_iff.mp hs
      simp only [Prod.mk.injEq] at he
      obtain ⟨-, rfl, rfl⟩ := he
      cases writerStep_of_writer hw with
      | asks =>
          simp only [Local.writing, WriterPc.inside] at hp
          exact ⟨⟨by dsimp only; omega, rfl, h2, ha⟩, fun hin => (Bool.false_ne_true hin).elim⟩
      | starts h0' h2' =>
          change v 0 = 0 at h0'
          change 0 < v 2 at h2'
          rw [if_pos rfl] at hp ⊢
          simp only [Local.writing, WriterPc.inside, Bool.toNat_false, Bool.toNat_true] at hp
          exact ⟨⟨by change _ ≤ v 1 + 1; omega, rfl, by change v 2 - 1 + (v 1 + 1) = 1; omega,
            Or.inl h0'⟩, fun _ => rfl⟩
      | loads | stores | prints =>
          simp only [Local.writing, WriterPc.inside] at hp
          exact ⟨⟨by dsimp only; omega, rfl, h2, ha⟩, hWw⟩
      | stops h1' =>
          change 0 < v 1 at h1'
          simp only [Local.writing, WriterPc.inside, Bool.toNat_false, Bool.toNat_true] at hp
          exact ⟨⟨by change _ ≤ v 1 - 1; omega, rfl, by change v 2 + 1 + (v 1 - 1) = 1; omega,
            by change v 0 = 0 ∨ v 1 - 1 = 0; omega⟩, fun hin => (Bool.false_ne_true hin).elim⟩
  | fails =>
      cases pc₀ with
      | starting => exact absurd rfl (hc rfl)
      | stopping =>
          simp only [writerFailing, Option.some.injEq, Prod.mk.injEq] at hs
          obtain ⟨-, rfl, rfl⟩ := hs
          simp only [Local.writing, WriterPc.inside, Bool.toNat_false, Bool.toNat_true] at hp
          exact ⟨⟨by dsimp only; omega, rfl, h2, ha⟩, by simp [Local.writing, WriterPc.inside]⟩
      | idle | loading | storing | printing => simp [writerFailing] at hs

end Covered

variable [DecidableEq ρ] [DecidableEq ω]

lemma covered_step {s s' : FailingState ρ ω} {i : (ρ ⊕ ω) × Outcome} {e : Option Event}
    (hs : Covered s.shared.sem s.readers s.writers) (hc : StartsDone s i)
    (h : failingProgram.step s i = some (e, s')) :
    Covered s'.shared.sem s'.readers s'.writers := by
  rcases i with ⟨r | w, o⟩
  · obtain ⟨⟨e', sh, l⟩, hr, he⟩ := Option.map_eq_some_iff.mp h
    simp only [Prod.mk.injEq] at he
    obtain ⟨rfl, rfl⟩ := he
    exact hs.reader hc hr
  · obtain ⟨⟨e', sh, l⟩, hw, he⟩ := Option.map_eq_some_iff.mp h
    simp only [Prod.mk.injEq] at he
    obtain ⟨rfl, rfl⟩ := he
    exact hs.writer hc hw

omit [Fintype ρ] [Fintype ω] in
/-- A failing `start` lets its process in without having acquired it. -/
lemma exists_unsafe_of_not_startsDone {s : FailingState ρ ω} {i : (ρ ⊕ ω) × Outcome}
    (h : ¬ StartsDone s i) : ∃ s', failingProgram.step s i = some (none, s') ∧ ¬ Safe s' := by
  rcases i with ⟨r | w, o⟩
  · simp only [StartsDone, not_forall, not_not] at h
    obtain ⟨rfl, hpc⟩ := h
    refine ⟨{ s with readers := Function.update s.readers r ⟨.printing, false⟩ }, ?_, fun hs => ?_⟩
    · simp [failingProgram, readerFailing, hpc]
    · simpa [Local.reading, ReaderPc.inside] using hs.readers r
  · simp only [StartsDone, not_forall, not_not] at h
    obtain ⟨rfl, hpc⟩ := h
    refine ⟨{ s with writers := Function.update s.writers w ⟨.loading, false⟩ }, ?_, fun hs => ?_⟩
    · simp [failingProgram, writerFailing, hpc]
    · simpa [Local.writing, WriterPc.inside] using hs.writers w

/-- **Exclusion when calls may fail**: along every schedule, whichever `stop` calls
fail, all states reached are safe exactly when no `start` call fails. -/
theorem safe_iff_startsDone (is : List ((ρ ⊕ ω) × Outcome)) :
    (∀ js, js <+: is → ∀ tr s, failingProgram.exec js failingInitial = some (tr, s) → Safe s)
      ↔ failingProgram.Meets StartsDone is failingInitial := by
  refine Machine.throughout_iff_meets (S := fun _ => Safe)
    (I := fun _ s => Covered s.shared.sem s.readers s.writers)
    ⟨covered_failingInitial.safe, covered_failingInitial⟩ ?_ ?_
  · intro tr s i e s' _ hcov hc hs
    have hcov' := covered_step hcov hc hs
    exact ⟨hcov'.safe, hcov'⟩
  · intro tr s i _ _ hc
    obtain ⟨s', hs', hunsafe⟩ := exists_unsafe_of_not_startsDone hc
    exact ⟨none, s', hs', hunsafe⟩

/-- Two writers: the first is let in, and the second goes on after `-1`. -/
theorem failed_start_two_inside : ¬ ∀ s : FailingState (Fin 1) (Fin 2),
    failingProgram.Reachable failingInitial s → Safe s := by
  intro hall
  obtain ⟨tr, s, hrun, hp⟩ := Machine.exists_run
    (show (failingProgram.exec [(.inr 0, .done), (.inr 0, .done), (.inr 1, .done),
      (.inr 1, .fails)] (failingInitial : FailingState (Fin 1) (Fin 2))).any
        (fun q => (q.2.writers 0).writing && (q.2.writers 1).writing) = true by decide)
  rw [Bool.and_eq_true] at hp
  exact absurd ((hall s ⟨tr, hrun⟩).unique 0 1 hp.1 hp.2) (by decide)

end ReadersWriters

end OperatingSys
