import OperatingSys.ReadersWriters.Exclusion

/-!
Writer preference in `os_01/lab_05/02.c`.

The comment of the source names semaphore 3 `WAIT_WRITER`: `start_write` raises
it first and lowers it last, and `start_read` waits for it to be `0`. A vector
is applied all or nothing, so the raise of a writer that has to wait is never
seen, semaphore 3 is `0` in every reachable state (`Counted.waiting`), and a
reader is let in as soon as no writer is inside (`reader_let_in_iff`), however
many writers wait.
-/

namespace OperatingSys

namespace ReadersWriters

variable {ρ ω : Type*} [DecidableEq ρ] [DecidableEq ω]

/-- No reader can complete its `start_read` in `s` while a writer has issued
its `start_write` and has not been let in. -/
def HeldBack (s : State ρ ω) : Prop :=
  ∀ r, s.readers r = .starting → program.Enabled s (.inl r) →
    ∀ w, s.writers w ≠ .starting

/-- A state in which a waiting writer has no bearing on the readers: a writer
is inside, or no writer waits, or no reader does. -/
def NothingToHold (s : State ρ ω) : Prop :=
  (∃ w, (s.writers w).inside = true) ∨ (∀ w, s.writers w ≠ .starting)
    ∨ ∀ r, s.readers r ≠ .starting

/-- A reader at its `start_read` can go on exactly when semaphores 3 and 1 are
`0`. -/
lemma enabled_starting {s : State ρ ω} {r : ρ} (hr : s.readers r = .starting) :
    program.Enabled s (.inl r) ↔ s.shared.sem 3 = 0 ∧ s.shared.sem 1 = 0 := by
  simp only [Machine.Enabled, program, hr, reader, semop_startRead, Option.isSome_map]
  split_ifs with hv <;> simp [hv]

/-- The state in which the writer `w` and then the reader `r` have asked and
nothing else has happened. -/
def bothAsked (w : ω) (r : ρ) : State ρ ω where
  shared := ⟨mainSem, 0⟩
  readers := Function.update (fun _ => .idle) r .starting
  writers := Function.update (fun _ => .idle) w .starting

lemma bothAsked_reachable (w : ω) (r : ρ) : program.Reachable initial (bothAsked w r) := by
  have hw : program.step (initial : State ρ ω) (.inr w) = some (.asks,
      { (initial : State ρ ω) with
        writers := Function.update (fun _ => .idle) w .starting }) := rfl
  have h := (Machine.Reachable.refl (initial : State ρ ω)).step hw
  exact h.step (i := .inl r) (e := .asks) rfl

/-- In the state in which both have asked, the reader is let in before the
writer. -/
lemma not_heldBack_bothAsked (w : ω) (r : ρ) : ¬ HeldBack (bothAsked w r) := by
  intro h
  have hr : (bothAsked w r).readers r = .starting := by simp [bothAsked]
  refine h r hr ((enabled_starting hr).mpr ⟨rfl, rfl⟩) w ?_
  simp [bothAsked]

/-- One reader and one writer: the writer issues its `start_write`, the reader
its `start_read`, and the reader completes it first. -/
theorem reader_overtakes : ¬ ∀ s : State (Fin 1) (Fin 1),
    program.Reachable initial s → HeldBack s :=
  fun h => not_heldBack_bothAsked 0 0 (h _ (bothAsked_reachable 0 0))

variable [Fintype ρ] [Fintype ω]

/-- A reader at its `start_read` is let in exactly when no writer is inside,
whoever waits. -/
lemma reader_let_in_iff {s : State ρ ω} (h : program.Reachable initial s) {r : ρ}
    (hr : s.readers r = .starting) :
    program.Enabled s (.inl r) ↔ ∀ w, (s.writers w).inside = false := by
  have hs := counted_reachable h
  rw [enabled_starting hr, hs.writers, population_eq_zero]
  exact and_iff_right hs.waiting

/-- **Writer preference**, as far as it goes: in a reachable state a waiting
writer holds the readers back exactly when there is nothing to hold back, a
writer being inside or nobody waiting on one of the two sides; and over all
runs exactly when there are no readers or no writers at all. -/
theorem heldBack_iff :
    (∀ s : State ρ ω, program.Reachable initial s → (HeldBack s ↔ NothingToHold s))
      ∧ ((∀ s : State ρ ω, program.Reachable initial s → HeldBack s)
          ↔ IsEmpty ρ ∨ IsEmpty ω) := by
  refine ⟨fun s h => ⟨fun hb => ?_, ?_⟩, fun hall => ?_, ?_⟩
  · by_contra hn
    simp only [NothingToHold, not_or, not_exists, not_forall, not_not,
      Bool.not_eq_true] at hn
    obtain ⟨hin, ⟨w, hw⟩, r, hr⟩ := hn
    exact hb r hr ((reader_let_in_iff h hr).mpr hin) w hw
  · rintro (⟨w, hw⟩ | hw | hr) r hst hen w'
    · have hout := (reader_let_in_iff h hst).mp hen w
      rw [hw] at hout
      cases hout
    · exact hw w'
    · exact absurd hst (hr r)
  · by_contra hn
    simp only [not_or, not_isEmpty_iff] at hn
    obtain ⟨⟨r⟩, ⟨w⟩⟩ := hn
    exact not_heldBack_bothAsked w r (hall _ (bothAsked_reachable w r))
  · rintro (hρ | hω) s - r - - w
    · exact (hρ.false r).elim
    · exact (hω.false w).elim

end ReadersWriters

end OperatingSys
