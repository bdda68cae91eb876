import OperatingSys.Foundations.Increment
import OperatingSys.Win32.Basic

/-!
Lost writes in `os_01/lab_06/main.c`.

`value` with what the writers have loaded of it is a `Register`: every step of
the program leaves it alone, or is a load or a store of a writer
(`register_step`). A writer that loads while another one is between its load and
its store loses an increment for good. So when all writers have finished, `value`
is the number of all writes exactly if every load was alone, and otherwise it is
less and the readers loop on (`no_lost_write_iff`).
-/

namespace OperatingSys

namespace Win32

namespace WriterLoc

/-- The value loaded and not yet stored. -/
def held (l : WriterLoc) : Option ℕ :=
  match l.pc with
  | .storing v => some v
  | .entering | .testingWriter | .testingReaders | .waiting | .claiming | .leavingQueue
  | .resetting | .loading | .printing _ | .releasing | .testingWaiting | .passing | .freeing =>
      none

/-- The stores done in the current round. -/
def storedNow (l : WriterLoc) : ℕ :=
  match l.pc with
  | .printing _ | .releasing | .testingWaiting | .passing | .freeing => 1
  | .entering | .testingWriter | .testingReaders | .waiting | .claiming | .leavingQueue
  | .resetting | .loading | .storing _ => 0

/-- The stores done. -/
def stored (l : WriterLoc) : ℕ := l.i + l.storedNow

/-- The writer has not gone beyond its rounds. -/
def Within (iterations : ℕ) (l : WriterLoc) : Prop :=
  l.i ≤ iterations ∧ (l.pc ≠ .entering → l.i < iterations)

end WriterLoc

variable {ρ ω : Type*}

/-- A writer that loads `value` is the only one that has it loaded. -/
def Alone (s : State ρ ω) : ρ ⊕ ω → Prop
  | .inl _ => True
  | .inr w => (s.writers w).pc = .loading → ∀ w', (s.writers w').held = none

section Steps

variable {total iterations : ℕ} {sh sh' : Shared ρ} {l l' : WriterLoc} {e : Event}

lemma ReaderStep.value [DecidableEq ρ] {r : ρ} {pc pc' : ReaderPc}
    (h : ReaderStep total r sh pc e sh' pc') : sh'.value = sh.value := by
  cases h <;> rfl

/-- A writer loads `value`, or stores what it has loaded, or leaves it alone. -/
lemma WriterStep.value (h : WriterStep iterations sh l e sh' l') :
    (l.pc = .loading ∧ l.held = none ∧ l'.held = some sh.value ∧ sh'.value = sh.value
        ∧ l'.stored = l.stored)
      ∨ (∃ v, l.held = some v ∧ l.pc ≠ .loading ∧ l'.held = none ∧ sh'.value = v + 1
        ∧ l'.stored = l.stored + 1)
      ∨ (l.held = none ∧ l.pc ≠ .loading ∧ l'.held = none ∧ sh'.value = sh.value
        ∧ l'.stored = l.stored) := by
  cases h with
  | loads => exact Or.inl ⟨rfl, rfl, rfl, rfl, rfl⟩
  | stores v => exact Or.inr (Or.inl ⟨v, rfl, by simp, rfl, rfl, rfl⟩)
  | enters | findsWriter | findsNoWriter | findsReaders | findsNoReaders | waits | claims
  | leavesQueue | resets | prints | releases | findsWaiting | findsNoWaiting | passes | frees =>
      exact Or.inr (Or.inr ⟨rfl, by simp, rfl, rfl, rfl⟩)

lemma WriterStep.within (h : WriterStep iterations sh l e sh' l') (hl : l.Within iterations) :
    l'.Within iterations := by
  cases h with
  | enters hi => exact ⟨hi.le, fun _ => hi⟩
  | passes | frees => exact ⟨hl.2 (by simp), fun h => absurd rfl h⟩
  | findsWriter | findsNoWriter | findsReaders | findsNoReaders | waits | claims | leavesQueue
  | resets | loads | stores | prints | releases | findsWaiting | findsNoWaiting =>
      exact ⟨hl.1, fun _ => hl.2 (by simp)⟩

end Steps

/-! ### The register -/

variable [Fintype ω]

/-- `value`, what the writers have loaded of it, and the stores they have done. -/
def State.register (s : State ρ ω) : Register ω where
  value := s.shared.value
  held := fun w => (s.writers w).held
  stores := ∑ w, (s.writers w).stored

lemma register_initial : (initial : State ρ ω).register = ⟨0, fun _ => none, 0⟩ := by
  simp [State.register, initial, WriterLoc.held, WriterLoc.stored, WriterLoc.storedNow]

variable [DecidableEq ρ] [DecidableEq ω] {iterations : ℕ}

/-- A step leaves the register alone, or is a load or a store of a writer. -/
lemma register_step {s s' : State ρ ω} {i : ρ ⊕ ω} {e : Event}
    (h : (program iterations).step s i = some (e, s')) :
    (∃ w, i = .inr w ∧ (s.writers w).pc = .loading ∧ (s.writers w).held = none
        ∧ s'.register = s.register.load w)
      ∨ (∃ w, ∃ v ∈ (s.writers w).held, (∀ w', i = .inr w' → (s.writers w').pc ≠ .loading)
        ∧ s'.register = s.register.store w v)
      ∨ ((∀ w, i = .inr w → (s.writers w).pc ≠ .loading) ∧ s'.register = s.register) := by
  cases i with
  | inl r =>
      obtain ⟨sh, pc, hr, rfl⟩ := reader_step h
      refine Or.inr (Or.inr ⟨by simp, ?_⟩)
      simp only [State.register, hr.value]
  | inr w =>
      obtain ⟨sh, l, hw, rfl⟩ := writer_step h
      have hsum := sum_update WriterLoc.stored s.writers w l
      have hheld : ∀ w', (Function.update s.writers w l w').held
          = Function.update (fun w' => (s.writers w').held) w l.held w' :=
        Function.apply_update (fun _ => WriterLoc.held) s.writers w l
      rcases hw.value with ⟨hpc, h0, hl, hv, hst⟩ | ⟨v, h0, hpc, hl, hv, hst⟩
        | ⟨h0, hpc, hl, hv, hst⟩
      · -- a load
        refine Or.inl ⟨w, rfl, hpc, h0, ?_⟩
        have hsame : ∑ w', (Function.update s.writers w l w').stored
            = ∑ w', (s.writers w').stored := by omega
        simp only [State.register, Register.load, hheld, hl, hv, hsame]
      · -- a store
        refine Or.inr (Or.inl ⟨w, v, h0, by simpa using hpc, ?_⟩)
        have hnext : ∑ w', (Function.update s.writers w l w').stored
            = ∑ w', (s.writers w').stored + 1 := by omega
        simp only [State.register, Register.store, hheld, hl, hv, hnext]
      · -- neither
        refine Or.inr (Or.inr ⟨by simpa using hpc, ?_⟩)
        have hsame : ∑ w', (Function.update s.writers w l w').stored
            = ∑ w', (s.writers w').stored := by omega
        simp only [State.register, hheld, hl, hv, hsame, ← h0, Function.update_eq_self]

omit [Fintype ω] [DecidableEq ρ] [DecidableEq ω] in
/-- Only a load can be made in company. -/
lemma alone_of_not_loading {s : State ρ ω} {i : ρ ⊕ ω}
    (h : ∀ w, i = .inr w → (s.writers w).pc ≠ .loading) : Alone s i := by
  cases i with
  | inl r => trivial
  | inr w => exact fun hpc => absurd hpc (h w rfl)

/-- Along a schedule the register is recorded, and nothing is lost as long as
every writer loads alone; from the first load that is not alone on, something
is. -/
lemma register_exec {is : List (ρ ⊕ ω)} {tr : List ((ρ ⊕ ω) × Event)} {s : State ρ ω}
    (h : (program iterations).exec is initial = some (tr, s)) :
    s.register.Recorded
      ∧ ((program iterations).Meets Alone is initial → s.register.Exact)
      ∧ (¬ (program iterations).Meets Alone is initial → s.register.Behind) := by
  induction is using List.reverseRecOn generalizing tr s with
  | nil =>
      cases h
      rw [register_initial]
      refine ⟨Register.exact_zero.recorded, fun _ => Register.exact_zero, fun hno => ?_⟩
      exact (hno fun pre i hp => by simp at hp).elim
  | append_singleton is i ih =>
      obtain ⟨tr', t, e, ht, hstep, -⟩ := Machine.exec_last h
      obtain ⟨hrec, hexact, hbehind⟩ := ih ht
      rw [Machine.meets_snoc_iff ht]
      rcases register_step hstep with ⟨w, rfl, hpc, h0, hreg⟩ | ⟨w, v, hv, hpc, hreg⟩
        | ⟨hpc, hreg⟩
      · rw [hreg]
        refine ⟨hrec.load w, fun hall => (hexact hall.1).load w (hall.2 hpc), fun hno => ?_⟩
        rw [not_and_or] at hno
        rcases hno with hno | hno
        · exact (hbehind hno).load h0
        · -- the writer loads while another one has loaded
          simp only [Alone, Classical.not_imp, not_forall] at hno
          obtain ⟨-, w', hw'⟩ := hno
          exact Register.behind_of_load h0 hw'
      · rw [hreg]
        have halone := alone_of_not_loading hpc
        refine ⟨hrec.store hv, fun hall => (hexact hall.1).store hv, fun hno => ?_⟩
        exact (hbehind fun hall => hno ⟨hall, halone⟩).store hrec hv
      · rw [hreg]
        have halone := alone_of_not_loading hpc
        refine ⟨hrec, fun hall => hexact hall.1, fun hno => ?_⟩
        exact hbehind fun hall => hno ⟨hall, halone⟩

/-! ### When all writers have finished -/

/-- No writer goes beyond its rounds. -/
lemma within_reachable {s : State ρ ω} (h : (program iterations).Reachable initial s) :
    ∀ w, (s.writers w).Within iterations := by
  apply h.invariant (I := fun s => ∀ w, (s.writers w).Within iterations)
  · exact fun w => ⟨Nat.zero_le _, fun hpc => absurd rfl hpc⟩
  · intro s i e s' hs hstep
    cases i with
    | inl r =>
        obtain ⟨sh, pc, -, rfl⟩ := reader_step hstep
        exact hs
    | inr w =>
        obtain ⟨sh, l, hw, rfl⟩ := writer_step hstep
        rw [Function.forall_update_iff s.writers fun _ l => l.Within iterations]
        exact ⟨hw.within (hs w), fun w' _ => hs w'⟩

/-- Once all writers have finished they have done all stores, and hold nothing. -/
lemma register_finished {s : State ρ ω} (h : (program iterations).Reachable initial s)
    (hfin : ∀ w, (s.writers w).Finished iterations) :
    s.register.stores = Fintype.card ω * iterations ∧ ∀ w, s.register.held w = none := by
  have hloc : ∀ w, s.writers w = ⟨iterations, .entering⟩ := by
    intro w
    have hi := le_antisymm (within_reachable h w).1 (hfin w).2
    have hpc := (hfin w).1
    generalize s.writers w = l at hi hpc
    obtain ⟨i, pc⟩ := l
    cases hi
    cases hpc
    rfl
  constructor
  · simp [State.register, hloc, WriterLoc.stored, WriterLoc.storedNow]
  · intro w
    simp only [State.register, hloc w, WriterLoc.held]

/-- **No lost write**: in a run after which all writers have finished, `value` is
the number of all writes exactly if every writer has loaded it while no other was
between its load and its store; otherwise it is less, and the loop condition of
the readers stays true. -/
theorem no_lost_write_iff {is : List (ρ ⊕ ω)} {tr : List ((ρ ⊕ ω) × Event)} {s : State ρ ω}
    (h : (program iterations).exec is initial = some (tr, s))
    (hfin : ∀ w, (s.writers w).Finished iterations) :
    (s.shared.value = Fintype.card ω * iterations
        ↔ (program iterations).Meets Alone is initial)
      ∧ (s.shared.value < Fintype.card ω * iterations
        ↔ ¬ (program iterations).Meets Alone is initial) := by
  obtain ⟨hdone, hnone⟩ := register_finished (Machine.reachable_of_exec h) hfin
  obtain ⟨-, hexact, hbehind⟩ := register_exec h
  have heq : (program iterations).Meets Alone is initial →
      s.shared.value = Fintype.card ω * iterations := by
    intro hall
    rw [← hdone]
    exact (hexact hall).eq
  have hlt : ¬ (program iterations).Meets Alone is initial →
      s.shared.value < Fintype.card ω * iterations := by
    intro hno
    rw [← hdone]
    exact (hbehind hno).lt hnone
  refine ⟨⟨fun hv => ?_, heq⟩, ⟨fun hv hall => ?_, hlt⟩⟩
  · by_contra hno
    exact (hlt hno).ne hv
  · exact hv.ne (heq hall)

/-- Two writers of one write each and a reader: both writers load `0`, and `value`
ends at `1`. -/
theorem one_write_lost : ¬ ∀ s : State (Fin 1) (Fin 2), (program 1).Reachable initial s →
    (∀ w, (s.writers w).Finished 1) → s.shared.value = 2 * 1 := by
  intro hall
  obtain ⟨tr, s, h, hp⟩ := Machine.exists_run (show ((program 1).exec
    [.inr 0, .inr 0, .inr 0, .inr 1, .inr 1, .inr 1, .inr 0, .inr 0, .inr 0, .inr 0,
      .inr 1, .inr 1, .inr 1, .inr 1, .inr 0, .inr 0, .inr 0, .inr 0, .inr 0,
      .inr 1, .inr 1, .inr 1, .inr 1, .inr 1] (initial : State (Fin 1) (Fin 2))).any
      (fun q => decide ((∀ w, (q.2.writers w).Finished 1) ∧ q.2.shared.value = 1)) = true
      by decide)
  rw [decide_eq_true_eq] at hp
  have hv := hall s ⟨tr, h⟩ hp.1
  rw [hp.2] at hv
  exact absurd hv (by decide)

/-- Two writers of one write each, and a reader between them: `value` ends at `2`, so each has
loaded alone. -/
theorem no_lost_write_two : (program 1).Meets Alone
    (List.replicate 12 (.inr 0) ++ List.replicate 13 (.inl 0) ++ List.replicate 12 (.inr 1)
      ++ [.inl 0]) (initial : State (Fin 1) (Fin 2)) := by
  obtain ⟨⟨tr, s⟩, h, hp⟩ := Option.any_eq_true _ _ |>.mp (show ((program 1).exec
    (List.replicate 12 (.inr 0) ++ List.replicate 13 (.inl 0) ++ List.replicate 12 (.inr 1)
      ++ [.inl 0]) (initial : State (Fin 1) (Fin 2))).any
      (fun q => decide ((∀ w, (q.2.writers w).Finished 1) ∧ q.2.shared.value = 2)) = true
      by decide)
  rw [decide_eq_true_eq] at hp
  exact (no_lost_write_iff h hp.1).1.mp hp.2

end Win32

end OperatingSys
