import OperatingSys.Win32.Basic

/-!
Exclusion between the readers and writers of `os_01/lab_06/main.c`, and where it
is lost.

`start_write` and `start_read` test the flags in one step and set them in a later
one, and nothing keeps the others from setting them in between. `Timely` says of
a step that what was tested still holds when the flag is set; `Claimed` is the
account of the flags, which such steps keep (`claimed_of_timely`), and exclusion
is read off it (`Claimed.exclusive`). Without the condition two writers, or a writer and a reader,
are let in together (`two_writers_inside`, `writer_and_reader_inside`), so that
exclusion is a matter of the number of threads alone
(`exclusive_iff`).
-/

namespace OperatingSys

namespace Win32

namespace ReaderPc

/-- Counted by `active_readers`. -/
def active : ReaderPc → Bool
  | .signalling | .unlocking | .printing | .discounting => true
  | .checking | .entering | .locking | .testingWriter | .testingWaiting | .waiting
  | .leavingQueue | .counting | .testingReaders | .freeing | .finished => false

/-- Between the end of `start_read` and the start of `stop_read`. -/
def inside : ReaderPc → Bool
  | .printing => true
  | .checking | .entering | .locking | .testingWriter | .testingWaiting | .waiting
  | .leavingQueue | .counting | .signalling | .unlocking | .discounting | .testingReaders
  | .freeing | .finished => false

lemma active_of_inside {pc : ReaderPc} (h : pc.inside = true) : pc.active = true := by
  cases pc <;> simp_all [inside, active]

end ReaderPc

namespace WriterLoc

/-- Between `active_writer = TRUE` and `active_writer = FALSE`. -/
def claimed (l : WriterLoc) : Bool :=
  match l.pc with
  | .leavingQueue | .resetting | .loading | .storing _ | .printing _ | .releasing => true
  | .entering | .testingWriter | .testingReaders | .waiting | .claiming | .testingWaiting
  | .passing | .freeing => false

/-- Between the end of `start_write` and the start of `stop_write`. -/
def inside (l : WriterLoc) : Bool :=
  match l.pc with
  | .loading | .storing _ | .printing _ => true
  | .entering | .testingWriter | .testingReaders | .waiting | .claiming | .leavingQueue
  | .resetting | .releasing | .testingWaiting | .passing | .freeing => false

lemma claimed_of_inside {l : WriterLoc} (h : l.inside = true) : l.claimed = true := by
  obtain ⟨i, pc⟩ := l
  cases pc <;> simp_all [inside, claimed]

end WriterLoc

variable {ρ ω : Type*}

/-- **Exclusion**: at most one writer is inside, and while one is no reader is. -/
def Exclusive (s : State ρ ω) : Prop :=
  (∀ w w', (s.writers w).inside = true → (s.writers w').inside = true → w = w')
    ∧ ∀ w r, (s.writers w).inside = true → (s.readers r).inside = false

/-- What was tested still holds when the flag is set: a writer that sets
`active_writer` finds it `FALSE` and no active reader, and a reader that counts
itself among the active readers finds no active writer. -/
def Timely (s : State ρ ω) : ρ ⊕ ω → Prop
  | .inl r => s.readers r = .counting → s.shared.activeWriter = false
  | .inr w => (s.writers w).pc = .claiming →
      s.shared.activeWriter = false ∧ s.shared.activeReaders ≤ 0

/-! ### What one step does to the flags -/

section Steps

variable {total iterations : ℕ} {sh sh' : Shared ρ} {l l' : WriterLoc} {e : Event}

lemma ReaderStep.flags [DecidableEq ρ] {r : ρ} {pc pc' : ReaderPc}
    (h : ReaderStep total r sh pc e sh' pc') :
    sh'.activeWriter = sh.activeWriter
      ∧ sh'.activeReaders + pc.active.toNat = sh.activeReaders + pc'.active.toNat
      ∧ (pc'.active = true → pc.active = true ∨ pc = .counting) := by
  cases h <;> simp [ReaderPc.active]

/-- A writer leaves the flag as it is, or sets it, or takes it back. -/
lemma WriterStep.flags (h : WriterStep iterations sh l e sh' l') :
    sh'.activeReaders = sh.activeReaders
      ∧ ((sh'.activeWriter = sh.activeWriter ∧ l'.claimed = l.claimed)
        ∨ (l.pc = .claiming ∧ sh'.activeWriter = true ∧ l.claimed = false ∧ l'.claimed = true)
        ∨ (sh'.activeWriter = false ∧ l.claimed = true ∧ l'.claimed = false)) := by
  cases h with
  | claims => exact ⟨rfl, Or.inr (Or.inl ⟨rfl, rfl, rfl, rfl⟩)⟩
  | releases => exact ⟨rfl, Or.inr (Or.inr ⟨rfl, rfl, rfl⟩)⟩
  | enters | findsWriter | findsNoWriter | findsReaders | findsNoReaders | waits | leavesQueue
  | resets | loads | stores | prints | findsWaiting | findsNoWaiting | passes | frees =>
      exact ⟨rfl, Or.inl ⟨rfl, rfl⟩⟩

end Steps

/-! ### Runs whose steps are timely -/

variable [Fintype ρ] [Fintype ω]

/-- **The account of the flags**: `active_readers` and `active_writer` count the
threads between their setting and their taking back, and not both kinds are
there. -/
structure Claimed (sh : Shared ρ) (R : ρ → ReaderPc) (W : ω → WriterLoc) : Prop where
  readers : sh.activeReaders = population ReaderPc.active R
  writers : sh.activeWriter.toNat = population WriterLoc.claimed W
  apart : sh.activeWriter = true → sh.activeReaders ≤ 0

lemma claimed_initial :
    Claimed ⟨.free, ⟨true⟩, ⟨true⟩, 0, 0, 0, false, 0⟩ (fun _ : ρ => ReaderPc.checking)
      (fun _ : ω => ⟨0, .entering⟩) where
  readers := by
    rw [population_const ReaderPc.active rfl]
    rfl
  writers := (population_const WriterLoc.claimed rfl).symm
  apart := fun h => by cases h

namespace Claimed

variable {sh sh' : Shared ρ} {R : ρ → ReaderPc} {W : ω → WriterLoc} {total iterations : ℕ}
  {e : Event}

/-- A timely step of a reader keeps the account. -/
lemma reader [DecidableEq ρ] (hs : Claimed sh R W) {r : ρ} {pc : ReaderPc}
    (h : ReaderStep total r sh (R r) e sh' pc)
    (ht : R r = .counting → sh.activeWriter = false) :
    Claimed sh' (Function.update R r pc) W := by
  obtain ⟨hflag, hcount, hactive⟩ := h.flags
  have hp := population_update ReaderPc.active R r pc
  have hr := hs.readers
  refine ⟨by omega, ?_, ?_⟩
  · rw [hflag]
    exact hs.writers
  · intro hw
    rw [hflag] at hw
    have h0 := hs.apart hw
    have hout : (R r).active = false := population_eq_zero.mp (by omega) r
    have hout' : pc.active = false := by
      by_contra hin
      rcases hactive (by simpa using hin) with hin | hc
      · rw [hout] at hin
        cases hin
      · rw [ht hc] at hw
        cases hw
    rw [hout, hout'] at hcount
    omega

/-- A timely step of a writer keeps the account. -/
lemma writer [DecidableEq ω] (hs : Claimed sh R W) {w : ω} {l : WriterLoc}
    (h : WriterStep iterations sh (W w) e sh' l)
    (ht : (W w).pc = .claiming → sh.activeWriter = false ∧ sh.activeReaders ≤ 0) :
    Claimed sh' R (Function.update W w l) := by
  obtain ⟨hread, hcase⟩ := h.flags
  have hp := population_update WriterLoc.claimed W w l
  have hw := hs.writers
  refine ⟨by rw [hread]; exact hs.readers, ?_, ?_⟩
  · rcases hcase with ⟨hf, hc⟩ | ⟨hpc, hf, hout, hin⟩ | ⟨hf, hin, hout⟩
    · -- the writer does not claim anything
      rw [hc] at hp
      rw [hf]
      omega
    · -- it claims, and nobody had
      rw [(ht hpc).1] at hw
      rw [hout, hin] at hp
      rw [hf]
      simp only [Bool.toNat_false, Bool.toNat_true] at hp hw ⊢
      omega
    · -- it gives up what it had
      rw [hin, hout] at hp
      rw [hf]
      have hle := Bool.toNat_le sh.activeWriter
      simp only [Bool.toNat_false, Bool.toNat_true] at hp ⊢
      omega
  · rw [hread]
    rcases hcase with ⟨hf, -⟩ | ⟨hpc, -⟩ | ⟨hf, -⟩
    · rw [hf]
      exact hs.apart
    · exact fun _ => (ht hpc).2
    · intro hw'
      rw [hf] at hw'
      cases hw'

/-- The account gives exclusion. -/
lemma exclusive {s : State ρ ω} (hs : Claimed s.shared s.readers s.writers) : Exclusive s := by
  have hw := hs.writers
  have hle := Bool.toNat_le s.shared.activeWriter
  constructor
  · intro w w' hin hin'
    exact eq_of_population_le_one (by omega) (WriterLoc.claimed_of_inside hin)
      (WriterLoc.claimed_of_inside hin')
  · intro w r hin
    have hpos := population_pos (L := s.writers) (WriterLoc.claimed_of_inside hin)
    have hflag : s.shared.activeWriter = true := by
      by_contra hno
      rw [Bool.not_eq_true] at hno
      rw [hno] at hw
      simp only [Bool.toNat_false] at hw
      omega
    have h0 : population ReaderPc.active s.readers = 0 := by
      have hr := hs.readers
      have ha := hs.apart hflag
      omega
    by_contra hr
    have hact : (s.readers r).active = true := ReaderPc.active_of_inside (by simpa using hr)
    rw [population_eq_zero.mp h0 r] at hact
    cases hact

end Claimed

variable [DecidableEq ρ] [DecidableEq ω] {iterations : ℕ}

/-- Along a schedule whose steps are timely the account of the flags is right. -/
lemma claimed_of_timely {is : List (ρ ⊕ ω)} {tr : List ((ρ ⊕ ω) × Event)} {s : State ρ ω}
    (ht : (program iterations).Meets Timely is initial)
    (h : (program iterations).exec is initial = some (tr, s)) :
    Claimed s.shared s.readers s.writers := by
  apply ht.invariant (I := fun s => Claimed s.shared s.readers s.writers) claimed_initial ?_ h
  intro s i e s' hs ht hstep
  cases i with
  | inl r =>
      obtain ⟨sh, pc, hr, rfl⟩ := reader_step hstep
      exact hs.reader hr ht
  | inr w =>
      obtain ⟨sh, l, hw, rfl⟩ := writer_step hstep
      exact hs.writer hw ht

/-! ### Runs that let two in -/

section Alone

omit [Fintype ρ]

variable {s : State ρ ω} {w : ω} {i : ℕ}

/-- Up to the end of its tests a writer that meets nobody comes to where it sets
`active_writer`. -/
lemma exists_claiming (hs : s.writers w = ⟨i, .entering⟩) (hi : i < iterations)
    (hw : s.shared.activeWriter = false) (hr : s.shared.activeReaders ≤ 0) :
    ∃ s', (program iterations).Reachable s s'
      ∧ s'.writers = Function.update s.writers w ⟨i, .claiming⟩ ∧ s'.readers = s.readers
      ∧ s'.shared = { s.shared with waitingWriters := s.shared.waitingWriters + 1 } := by
  have h : Machine.alone (fun t => writer iterations t.1 t.2) 3 (s.shared, s.writers w)
      = some ({ s.shared with waitingWriters := s.shared.waitingWriters + 1 },
        ⟨i, .claiming⟩) := by
    simp [hs, Machine.alone, writer, hi, hw, not_lt.mpr hr]
  exact ⟨_, reachable_writerAlone h, rfl, rfl, rfl⟩

/-- From there it comes in, whatever has happened since. -/
lemma exists_loading (iterations : ℕ) (hs : s.writers w = ⟨i, .claiming⟩) :
    ∃ s', (program iterations).Reachable s s'
      ∧ s'.writers = Function.update s.writers w ⟨i, .loading⟩ ∧ s'.readers = s.readers := by
  obtain ⟨sh, h⟩ : ∃ sh, Machine.alone (fun t => writer iterations t.1 t.2) 3
      (s.shared, s.writers w) = some (sh, ⟨i, .loading⟩) := by
    rw [hs]
    exact ⟨_, rfl⟩
  exact ⟨_, reachable_writerAlone h, rfl, rfl⟩

/-- A reader that finds a writer waiting and nobody inside comes in through
`can_read`. -/
lemma exists_printing (iterations : ℕ) {r : ρ} (hs : s.readers r = .checking)
    (hv : s.shared.value < Fintype.card ω * iterations) (hm : s.shared.mutex = .free)
    (hc : s.shared.canRead.signalled = true) (hw : s.shared.activeWriter = false)
    (hq : s.shared.waitingWriters ≠ 0) :
    ∃ s', (program iterations).Reachable s s'
      ∧ s'.readers = Function.update s.readers r .printing ∧ s'.writers = s.writers := by
  obtain ⟨sh, h⟩ : ∃ sh, Machine.alone
      (fun t => reader (Fintype.card ω * iterations) r t.1 t.2) 10 (s.shared, s.readers r)
      = some (sh, .printing) := by
    simp [hs, Machine.alone, reader, hv, hm, Mutex.wait_free, EventObject.wait_autoReset, hc, hw,
      hq]
  exact ⟨_, reachable_readerAlone h, rfl, rfl⟩

/-- Two writers are let in when both have tested before either has set
`active_writer`. -/
lemma two_writers_inside (hI : 0 < iterations) {w' : ω} (hne : w ≠ w') :
    ∃ s : State ρ ω, (program iterations).Reachable initial s
      ∧ (s.writers w).inside = true ∧ (s.writers w').inside = true := by
  obtain ⟨s₁, h₁, hw₁, -, hsh₁⟩ :=
    exists_claiming (s := (initial : State ρ ω)) (w := w) rfl hI rfl le_rfl
  obtain ⟨s₂, h₂, hw₂, -⟩ := exists_claiming (s := s₁) (w := w')
    (by rw [hw₁, Function.update_of_ne hne.symm]; rfl) hI (by rw [hsh₁]; rfl)
    (by rw [hsh₁]; exact le_rfl)
  obtain ⟨s₃, h₃, hw₃, -⟩ := exists_loading iterations (s := s₂) (w := w)
    (by rw [hw₂, Function.update_of_ne hne, hw₁, Function.update_self])
  obtain ⟨s₄, h₄, hw₄, -⟩ := exists_loading iterations (s := s₃) (w := w')
    (by rw [hw₃, Function.update_of_ne hne.symm, hw₂, Function.update_self])
  refine ⟨s₄, ((h₁.trans h₂).trans h₃).trans h₄, ?_, ?_⟩
  · rw [hw₄, Function.update_of_ne hne, hw₃, Function.update_self]
    rfl
  · rw [hw₄, Function.update_self]
    rfl

/-- A writer and a reader are let in when the reader has come through before the
writer sets `active_writer`. -/
lemma writer_and_reader_inside (hI : 0 < iterations) (w : ω) (r : ρ) :
    ∃ s : State ρ ω, (program iterations).Reachable initial s
      ∧ (s.writers w).inside = true ∧ (s.readers r).inside = true := by
  have hpos : 0 < Fintype.card ω * iterations :=
    Nat.mul_pos (Fintype.card_pos_iff.mpr ⟨w⟩) hI
  obtain ⟨s₁, h₁, hw₁, hr₁, hsh₁⟩ :=
    exists_claiming (s := (initial : State ρ ω)) (w := w) rfl hI rfl le_rfl
  obtain ⟨s₂, h₂, hr₂, hw₂⟩ := exists_printing iterations (s := s₁) (r := r)
    (by rw [hr₁]; rfl) (by rw [hsh₁]; exact hpos) (by rw [hsh₁]; rfl) (by rw [hsh₁]; rfl)
    (by rw [hsh₁]; rfl) (by rw [hsh₁]; exact one_ne_zero)
  obtain ⟨s₃, h₃, hw₃, hr₃⟩ := exists_loading iterations (s := s₂) (w := w)
    (by rw [hw₂, hw₁, Function.update_self])
  refine ⟨s₃, (h₁.trans h₂).trans h₃, ?_, ?_⟩
  · rw [hw₃, Function.update_self]
    rfl
  · rw [hr₃, hr₂, Function.update_self]
    rfl

/-- Without rounds to make no writer leaves its start. -/
lemma no_writer_inside (h : (program 0).Reachable initial s) (w : ω) :
    (s.writers w).inside = false := by
  have hall : ∀ w, s.writers w = ⟨0, .entering⟩ := by
    apply h.invariant (I := fun s => ∀ w, s.writers w = ⟨0, .entering⟩)
    · exact fun _ => rfl
    · intro s i e s' hs hstep
      cases i with
      | inl r =>
          obtain ⟨sh, pc, -, rfl⟩ := reader_step hstep
          exact hs
      | inr w =>
          obtain ⟨sh, l, hw, -⟩ := writer_step hstep
          rw [hs w] at hw
          cases hw with
          | enters hi => exact absurd hi (Nat.not_lt_zero 0)
  rw [hall w]
  rfl

end Alone

/-- **When the flags keep the threads apart**: in every run whose steps are timely
exclusion holds, and it holds in all runs exactly when there is nothing to write,
or nobody to write, or one writer and nobody to read. -/
theorem exclusive_iff :
    (∀ is tr (s : State ρ ω), (program iterations).exec is initial = some (tr, s) →
        (program iterations).Meets Timely is initial → Exclusive s)
      ∧ ((∀ s : State ρ ω, (program iterations).Reachable initial s → Exclusive s)
          ↔ iterations = 0 ∨ IsEmpty ω ∨ (Subsingleton ω ∧ IsEmpty ρ)) := by
  refine ⟨fun is tr s h ht => (claimed_of_timely ht h).exclusive, ?_, ?_⟩
  · intro hall
    by_contra hno
    simp only [not_or, not_and_or, not_isEmpty_iff, not_subsingleton_iff_nontrivial] at hno
    obtain ⟨hI, ⟨w⟩, hmany⟩ := hno
    rcases hmany with ⟨w₁, w₂, hne⟩ | ⟨⟨r⟩⟩
    · obtain ⟨s, h, hw₁, hw₂⟩ :=
        two_writers_inside (ρ := ρ) (Nat.pos_of_ne_zero hI) hne
      exact hne ((hall s h).1 w₁ w₂ hw₁ hw₂)
    · obtain ⟨s, h, hw, hr⟩ := writer_and_reader_inside (Nat.pos_of_ne_zero hI) w r
      rw [(hall s h).2 w r hw] at hr
      cases hr
  · rintro (rfl | hω | ⟨hω, hρ⟩) s h
    · refine ⟨fun w _ hw => ?_, fun w _ hw => ?_⟩ <;>
      · rw [no_writer_inside h w] at hw
        cases hw
    · exact ⟨fun w => (hω.false w).elim, fun w => (hω.false w).elim⟩
    · exact ⟨fun w w' _ _ => Subsingleton.elim w w', fun _ r => (hρ.false r).elim⟩

/-- Two writers, each at its first write: both test before either has set
`active_writer`, and both are let in. -/
theorem two_let_in : ¬ ∀ s : State (Fin 1) (Fin 2),
    (program 1).Reachable initial s → Exclusive s := by
  intro hall
  obtain ⟨s, h, hw, hw'⟩ :=
    two_writers_inside (ρ := Fin 1) Nat.one_pos (show (0 : Fin 2) ≠ 1 by decide)
  exact absurd ((hall s h).1 0 1 hw hw') (by decide)

end Win32

end OperatingSys
