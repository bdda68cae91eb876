import OperatingSys.ReadersWriters.Basic

/-!
Exclusion between the readers and writers of `os_01/lab_05/02.c`.

`Counted` is the counting invariant: semaphore 0 is the number of readers
inside, semaphore 1 the number of writers inside, semaphore 2 the place a
writer still may take, semaphore 3 is `0`, and readers and writers are not
inside together. `counted_step` keeps it through every step of every process,
and `exclusion` reads mutual exclusion off it.
-/

namespace OperatingSys

namespace ReadersWriters

variable {ρ ω : Type*} [Fintype ρ] [Fintype ω]

/-- **The counting invariant** of the four semaphores. -/
structure Counted (v : Fin 4 → ℕ) (R : ρ → ReaderPc) (W : ω → WriterPc) : Prop where
  readers : v 0 = population ReaderPc.inside R
  writers : v 1 = population WriterPc.inside W
  place : v 2 + v 1 = 1
  waiting : v 3 = 0
  apart : v 0 = 0 ∨ v 1 = 0

lemma counted_initial :
    Counted mainSem (fun _ : ρ => ReaderPc.idle) (fun _ : ω => WriterPc.idle) where
  readers := (population_const ReaderPc.inside rfl).symm
  writers := (population_const WriterPc.inside rfl).symm
  place := rfl
  waiting := rfl
  apart := Or.inl rfl

namespace Counted

variable {v : Fin 4 → ℕ} {R : ρ → ReaderPc} {W : ω → WriterPc}

/-- At most one writer is inside. -/
lemma writer_unique (hs : Counted v R W) {w w' : ω}
    (hw : (W w).inside = true) (hw' : (W w').inside = true) : w = w' := by
  refine eq_of_population_le_one (p := WriterPc.inside) ?_ hw hw'
  have hp := hs.place
  rw [← hs.writers]
  omega

/-- No reader is inside together with a writer. -/
lemma no_reader (hs : Counted v R W) {w : ω} (hw : (W w).inside = true) (r : ρ) :
    (R r).inside = false := by
  have hpos : 0 < population WriterPc.inside W := population_pos hw
  have h0 : population ReaderPc.inside R = 0 := by
    have h1 := hs.writers
    have ha := hs.apart
    rw [← hs.readers]
    omega
  exact population_eq_zero.mp h0 r

/-- A reader's step keeps the counts. -/
lemma reader [DecidableEq ρ] (hs : Counted v R W) {m : ℕ} {r : ρ} {e : Event} {sh : Shared}
    {pc : ReaderPc} (h : ReaderStep ⟨v, m⟩ (R r) e sh pc) :
    Counted sh.sem (Function.update R r pc) W := by
  obtain ⟨h0, h1, h2, h3, ha⟩ := hs
  have hp := population_update ReaderPc.inside R r pc
  generalize R r = pc₀ at h hp
  cases h with
  | asks | prints =>
      simp only [ReaderPc.inside] at hp
      exact ⟨by dsimp only; omega, h1, h2, h3, ha⟩
  | starts h3' h1' =>
      simp only [ReaderPc.inside, Bool.toNat_false, Bool.toNat_true] at hp h1'
      constructor <;> simp <;> omega
  | stops h0' =>
      simp only [ReaderPc.inside, Bool.toNat_false, Bool.toNat_true] at hp h0'
      constructor <;> simp <;> omega

/-- A writer's step keeps the counts. -/
lemma writer [DecidableEq ω] (hs : Counted v R W) {m : ℕ} {w : ω} {e : Event} {sh : Shared}
    {pc : WriterPc} (h : WriterStep ⟨v, m⟩ (W w) e sh pc) :
    Counted sh.sem R (Function.update W w pc) := by
  obtain ⟨h0, h1, h2, h3, ha⟩ := hs
  have hp := population_update WriterPc.inside W w pc
  generalize W w = pc₀ at h hp
  cases h with
  | asks | loads | stores | prints =>
      simp only [WriterPc.inside] at hp
      exact ⟨h0, by dsimp only; omega, h2, h3, ha⟩
  | starts h0' h2' =>
      simp only [WriterPc.inside, Bool.toNat_false, Bool.toNat_true] at hp h0' h2'
      constructor <;> simp <;> omega
  | stops h1' =>
      simp only [WriterPc.inside, Bool.toNat_false, Bool.toNat_true] at hp h1'
      constructor <;> simp <;> omega

end Counted

variable [DecidableEq ρ] [DecidableEq ω]

/-- Every step keeps the counts. -/
lemma counted_step {s s' : State ρ ω} {i : ρ ⊕ ω} {e : Event}
    (hs : Counted s.shared.sem s.readers s.writers) (h : program.step s i = some (e, s')) :
    Counted s'.shared.sem s'.readers s'.writers := by
  cases i with
  | inl r =>
      obtain ⟨sh, pc, hr, rfl⟩ := reader_step h
      exact hs.reader hr
  | inr w =>
      obtain ⟨sh, pc, hw, rfl⟩ := writer_step h
      exact hs.writer hw

/-- The counts are right in every reachable state. -/
lemma counted_reachable {s : State ρ ω} (h : program.Reachable initial s) :
    Counted s.shared.sem s.readers s.writers :=
  h.invariant (I := fun s => Counted s.shared.sem s.readers s.writers) counted_initial
    fun _ _ _ _ => counted_step

/-- **Exclusion**: in every reachable state at most one writer is inside, while
one is no reader is, and the four semaphores count exactly who is inside. -/
theorem exclusion {s : State ρ ω} (h : program.Reachable initial s) :
    (∀ w w', (s.writers w).inside = true → (s.writers w').inside = true → w = w')
      ∧ (∀ w r, (s.writers w).inside = true → (s.readers r).inside = false)
      ∧ s.shared.sem 0 = population ReaderPc.inside s.readers
      ∧ s.shared.sem 1 = population WriterPc.inside s.writers
      ∧ (s.shared.sem 2 : ℤ) = 1 - s.shared.sem 1
      ∧ s.shared.sem 3 = 0 := by
  have hs := counted_reachable h
  have hp := hs.place
  exact ⟨fun w w' => hs.writer_unique, fun w r hw => hs.no_reader hw r, hs.readers, hs.writers,
    by omega, hs.waiting⟩

/-- With one reader and two writers: the first writer has been let in, the other
two processes have asked. -/
theorem exclusion_two_writers : ∃ s : State (Fin 1) (Fin 2), (s.writers 0).inside = true
    ∧ s.writers 1 = .starting ∧ s.readers 0 = .starting
    ∧ (∀ w w', (s.writers w).inside = true → (s.writers w').inside = true → w = w') := by
  obtain ⟨⟨tr, s⟩, he⟩ := Option.isSome_iff_exists.mp
    (show (program.exec [.inr 0, .inr 0, .inr 0, .inr 1, .inl 0]
      (initial : State (Fin 1) (Fin 2))).isSome by decide)
  have hpc : (program.exec [.inr 0, .inr 0, .inr 0, .inr 1, .inl 0]
      (initial : State (Fin 1) (Fin 2))).map
        (fun q => ((q.2.writers 0).inside, q.2.writers 1, q.2.readers 0))
      = some (true, .starting, .starting) := by decide
  rw [he] at hpc
  simp only [Option.map_some, Option.some.injEq, Prod.mk.injEq] at hpc
  exact ⟨s, hpc.1, hpc.2.1, hpc.2.2, (exclusion (Machine.reachable_of_exec he)).1⟩

end ReadersWriters

end OperatingSys
