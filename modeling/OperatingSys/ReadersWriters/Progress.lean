import OperatingSys.ReadersWriters.Exclusion

/-!
No deadlock in `os_01/lab_05/02.c`.

The counting invariant gives the four semaphore values from the places of the
processes. A process inside can always go on: it waits for nothing before its
stop, and its stop takes back what its start has given
(`enabled_of_reader_inside`, `enabled_of_writer_inside`). With nobody inside the
values are those `main` has set, and every process can go on, one at its start
too (`enabled_of_nobody_inside`). `no_deadlock` is the two cases together.
-/

namespace OperatingSys

namespace ReadersWriters

variable {ρ ω : Type*} [DecidableEq ρ] [DecidableEq ω]

lemma enabled_reader {s : State ρ ω} {r : ρ} :
    program.Enabled s (.inl r) ↔ (reader s.shared (s.readers r)).isSome := by
  simp only [Machine.Enabled, program, Option.isSome_map]

lemma enabled_writer {s : State ρ ω} {w : ω} :
    program.Enabled s (.inr w) ↔ (writer s.shared (s.writers w)).isSome := by
  simp only [Machine.Enabled, program, Option.isSome_map]

variable [Fintype ρ] [Fintype ω]

/-- A reader inside can go on: semaphore 0 counts it. -/
lemma enabled_of_reader_inside {s : State ρ ω} (hs : Counted s.shared.sem s.readers s.writers)
    {r : ρ} (hr : (s.readers r).inside = true) : program.Enabled s (.inl r) := by
  have hpos : 0 < s.shared.sem 0 := by
    rw [hs.readers]
    exact population_pos hr
  rw [enabled_reader]
  cases hpc : s.readers r with
  | idle | starting => simp [hpc, ReaderPc.inside] at hr
  | printing => rfl
  | stopping => simp [reader, semop_stopRead, hpos]

/-- A writer inside can go on: semaphore 1 counts it. -/
lemma enabled_of_writer_inside {s : State ρ ω} (hs : Counted s.shared.sem s.readers s.writers)
    {w : ω} (hw : (s.writers w).inside = true) : program.Enabled s (.inr w) := by
  have hpos : 0 < s.shared.sem 1 := by
    rw [hs.writers]
    exact population_pos hw
  rw [enabled_writer]
  cases hpc : s.writers w with
  | idle | starting => simp [hpc, WriterPc.inside] at hw
  | loading | storing v | printing => rfl
  | stopping => simp [writer, semop_stopWrite, hpos]

/-- Nobody is between its start and its stop. -/
def State.NobodyInside (s : State ρ ω) : Prop :=
  (∀ r, (s.readers r).inside = false) ∧ ∀ w, (s.writers w).inside = false

omit [DecidableEq ρ] [DecidableEq ω] in
/-- With nobody inside the semaphores are as `main` has set them. -/
lemma Counted.eq_mainSem {s : State ρ ω} (hs : Counted s.shared.sem s.readers s.writers)
    (hout : s.NobodyInside) : s.shared.sem = mainSem := by
  have h0 : s.shared.sem 0 = 0 := hs.readers.trans (population_eq_zero.mpr hout.1)
  have h1 : s.shared.sem 1 = 0 := hs.writers.trans (population_eq_zero.mpr hout.2)
  have hp := hs.place
  apply sem_ext
  · exact h0
  · exact h1
  · rw [h1] at hp
    exact hp
  · exact hs.waiting

/-- With nobody inside every process can go on. -/
lemma enabled_of_nobody_inside {s : State ρ ω} (hs : Counted s.shared.sem s.readers s.writers)
    (hout : s.NobodyInside) (i : ρ ⊕ ω) : program.Enabled s i := by
  have hsem := hs.eq_mainSem hout
  cases i with
  | inl r =>
      have hr := hout.1 r
      rw [enabled_reader]
      cases hpc : s.readers r with
      | idle => rfl
      | starting => simp [reader, semop_startRead, hsem, mainSem]
      | printing | stopping => simp [hpc, ReaderPc.inside] at hr
  | inr w =>
      have hw := hout.2 w
      rw [enabled_writer]
      cases hpc : s.writers w with
      | idle => rfl
      | starting => simp [writer, semop_startWrite, hsem, mainSem]
      | loading | storing v | printing | stopping => simp [hpc, WriterPc.inside] at hw

/-- **No deadlock**: in every reachable state some process can go on, and while
nobody is inside, whoever waits at its start can. -/
theorem no_deadlock [Nonempty (ρ ⊕ ω)] {s : State ρ ω} (h : program.Reachable initial s) :
    (∃ i, program.Enabled s i)
      ∧ (s.NobodyInside →
          (∀ r, s.readers r = .starting → program.Enabled s (.inl r))
            ∧ ∀ w, s.writers w = .starting → program.Enabled s (.inr w)) := by
  have hs := counted_reachable h
  refine ⟨?_, fun hout => ⟨fun r _ => ?_, fun w _ => ?_⟩⟩
  · by_cases hout : s.NobodyInside
    · obtain ⟨i⟩ := ‹Nonempty (ρ ⊕ ω)›
      exact ⟨i, enabled_of_nobody_inside hs hout i⟩
    · rw [State.NobodyInside, not_and_or] at hout
      push Not at hout
      rcases hout with ⟨r, hr⟩ | ⟨w, hw⟩
      · exact ⟨.inl r, enabled_of_reader_inside hs (by simpa using hr)⟩
      · exact ⟨.inr w, enabled_of_writer_inside hs (by simpa using hw)⟩
  · exact enabled_of_nobody_inside hs hout (.inl r)
  · exact enabled_of_nobody_inside hs hout (.inr w)

/-- With one reader and one writer that have both asked: both can go on. -/
theorem no_deadlock_one_each : ∃ s : State (Fin 1) (Fin 1), s.readers 0 = .starting
    ∧ s.writers 0 = .starting ∧ program.Enabled s (.inl 0) ∧ program.Enabled s (.inr 0) := by
  have hr : program.step (initial : State (Fin 1) (Fin 1)) (.inl 0) = some (.asks,
      { (initial : State (Fin 1) (Fin 1)) with
        readers := Function.update (fun _ => .idle) 0 .starting }) := rfl
  have h := ((Machine.Reachable.refl _).step hr).step (i := .inr 0) (e := .asks) rfl
  have hgo := (no_deadlock h).2 ⟨fun r => by fin_cases r; rfl, fun w => by fin_cases w; rfl⟩
  exact ⟨_, rfl, rfl, hgo.1 0 rfl, hgo.2 0 rfl⟩

end ReadersWriters

end OperatingSys
