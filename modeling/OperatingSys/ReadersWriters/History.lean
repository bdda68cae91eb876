import OperatingSys.ReadersWriters.Exclusion

/-!
The history of the counter of `os_01/lab_05/02.c`.

`(*shm)++` is a load and a store, so the counter is right only because of
`Counted`: a writer between the two is alone inside. `Recorded` ties the trace
to the counter through every partial step; a reader inside keeps the writers
from storing (`quiet_run`), and the trace shows where it has started
(`session_run`). `counter_history` puts these together: the writers print
`1, 2, 3, …`, and what a reader prints is the number of increments completed
before its start, none being completed before its stop.
-/

namespace OperatingSys

namespace ReadersWriters

variable {ρ ω : Type*}

/-- The values the writers have printed, in the order of printing. -/
def written (tr : List ((ρ ⊕ ω) × Event)) : List ℕ :=
  tr.filterMap fun q =>
    match q with
    | (.inr _, .prints v) => some v
    | _ => none

/-- The number of increments completed: of stores. -/
def increments (tr : List ((ρ ⊕ ω) × Event)) : ℕ := tr.countP fun q => decide (q.2 = .stores)

lemma written_append (tr tr' : List ((ρ ⊕ ω) × Event)) :
    written (tr ++ tr') = written tr ++ written tr' :=
  List.filterMap_append

lemma increments_append (tr tr' : List ((ρ ⊕ ω) × Event)) :
    increments (tr ++ tr') = increments tr + increments tr' :=
  List.countP_append

/-- A step without a store adds no increment. -/
lemma increments_snoc {tr : List ((ρ ⊕ ω) × Event)} {i : ρ ⊕ ω} {e : Event} (he : e ≠ .stores) :
    increments (tr ++ [(i, e)]) = increments tr := by
  rw [increments_append]
  simp [increments, he]

/-- A store completes one. -/
lemma increments_snoc_stores (tr : List ((ρ ⊕ ω) × Event)) (i : ρ ⊕ ω) :
    increments (tr ++ [(i, .stores)]) = increments tr + 1 := by
  rw [increments_append]
  rfl

/-- A step that prints nothing. -/
lemma written_snoc {tr : List ((ρ ⊕ ω) × Event)} {i : ρ ⊕ ω} {e : Event}
    (he : ∀ v, e ≠ .prints v) : written (tr ++ [(i, e)]) = written tr := by
  rw [written_append]
  cases i <;> cases e <;> simp_all [written]

/-- A writer prints a value. -/
lemma written_snoc_prints (tr : List ((ρ ⊕ ω) × Event)) (w : ω) (v : ℕ) :
    written (tr ++ [(.inr w, .prints v)]) = written tr ++ [v] := by
  rw [written_append]
  rfl

/-- A step of a reader prints nothing of a writer. -/
lemma written_snoc_reader (tr : List ((ρ ⊕ ω) × Event)) (r : ρ) (e : Event) :
    written (tr ++ [(.inl r, e)]) = written tr := by
  rw [written_append]
  simp [written]

/-- A reader stores nothing. -/
lemma ReaderStep.ne_stores {sh sh' : Shared} {pc pc' : ReaderPc} {e : Event}
    (h : ReaderStep sh pc e sh' pc') : e ≠ .stores := by
  cases h <;> simp

/-! ### The counter and the writers -/

/-- The writer has stored and not yet printed. -/
def WriterPc.stored : WriterPc → Bool
  | .printing => true
  | .idle | .starting | .loading | .storing _ | .stopping => false

/-- **The recording invariant**: the counter is the number of increments, a
loaded value is the counter still, and the writers have printed `1, 2, 3, …` up
to the last increment, or up to the one before it while its writer is about to
print. -/
structure Recorded [Fintype ω] (tr : List ((ρ ⊕ ω) × Event)) (m : ℕ) (W : ω → WriterPc) :
    Prop where
  counter : m = increments tr
  loaded : ∀ w v, W w = .storing v → v = m
  pending : (written tr).length + population WriterPc.stored W = increments tr
  inOrder : written tr = List.range' 1 (written tr).length

variable [Fintype ρ] [Fintype ω]

/-- A writer that has stored is inside, so there is at most one. -/
lemma population_stored_le {v : Fin 4 → ℕ} {R : ρ → ReaderPc} {W : ω → WriterPc}
    (hc : Counted v R W) : population WriterPc.stored W ≤ 1 := by
  have hle : population WriterPc.stored W ≤ population WriterPc.inside W := by
    apply population_mono
    intro pc
    cases pc <;> simp [WriterPc.stored, WriterPc.inside]
  have hw := hc.writers
  have hp := hc.place
  omega

namespace Recorded

variable {tr : List ((ρ ⊕ ω) × Event)} {sh : Shared} {R : ρ → ReaderPc} {W : ω → WriterPc}

omit [Fintype ρ] in
/-- A reader's step keeps the record. -/
lemma reader (hr : Recorded tr sh.shm W) {r : ρ} {pc pc' : ReaderPc} {e : Event} {sh' : Shared}
    (h : ReaderStep sh pc e sh' pc') : Recorded (tr ++ [(.inl r, e)]) sh'.shm W := by
  have hshm : sh'.shm = sh.shm := by
    cases h <;> rfl
  rw [hshm]
  constructor
  · rw [increments_snoc h.ne_stores]
    exact hr.counter
  · exact hr.loaded
  · rw [increments_snoc h.ne_stores, written_snoc_reader]
    exact hr.pending
  · rw [written_snoc_reader]
    exact hr.inOrder

/-- A writer's step keeps the record. -/
lemma writer [DecidableEq ω] (hr : Recorded tr sh.shm W) (hc : Counted sh.sem R W) {w : ω}
    {e : Event} {sh' : Shared} {pc' : WriterPc} (h : WriterStep sh (W w) e sh' pc') :
    Recorded (tr ++ [(.inr w, e)]) sh'.shm (Function.update W w pc') := by
  obtain ⟨h1, h2, h3, h4⟩ := hr
  have hst := population_update WriterPc.stored W w pc'
  have hone := population_stored_le hc
  have hloaded : (∀ x, pc' = .storing x → x = sh.shm) →
      ∀ w' x, Function.update W w pc' w' = .storing x → x = sh.shm := by
    intro hpc'
    rw [Function.forall_update_iff W fun _ pc => ∀ x, pc = .storing x → x = sh.shm]
    exact ⟨hpc', fun w' _ => h2 w'⟩
  have hinside := fun w₁ => @Counted.writer_unique _ _ _ _ _ _ _ hc w₁ w
  have hstored : (W w).stored = true → 0 < population WriterPc.stored W := population_pos
  generalize hpc : W w = pc at h hst hinside hstored
  cases h with
  | asks | starts | loads | stops =>
      constructor
      · rw [increments_snoc (by simp)]
        exact h1
      · exact hloaded (by simp)
      · rw [increments_snoc (by simp), written_snoc (by simp), ← h3]
        simpa [WriterPc.stored] using hst
      · rw [written_snoc (by simp)]
        exact h4
  | stores v =>
      -- what was loaded is the counter still, so the store is the next number
      have hv : v = sh.shm := h2 w v hpc
      constructor
      · rw [increments_snoc_stores, hv, h1]
      · rw [Function.forall_update_iff W fun _ pc => ∀ x, pc = .storing x → x = v + 1]
        refine ⟨by simp, fun w' hne x hx => ?_⟩
        exact absurd (hinside w' (by rw [hx]; rfl) rfl) hne
      · rw [increments_snoc_stores, written_snoc (by simp)]
        simp only [WriterPc.stored, Bool.toNat_true, Bool.toNat_false, Nat.add_zero] at hst
        omega
      · rw [written_snoc (by simp)]
        exact h4
  | prints =>
      -- the writer that prints is the only one that has stored
      have hpos := hstored rfl
      simp only [WriterPc.stored, Bool.toNat_true, Bool.toNat_false, Nat.add_zero] at hst
      have hnext : sh.shm = (written tr).length + 1 := by omega
      constructor
      · rw [increments_snoc (by simp)]
        exact h1
      · exact hloaded (by simp)
      · rw [increments_snoc (by simp), written_snoc_prints, List.length_append,
          List.length_singleton]
        omega
      · rw [written_snoc_prints, List.length_append, List.length_singleton, List.range'_concat,
          ← h4, hnext, Nat.one_mul, Nat.add_comm 1]

end Recorded

variable [DecidableEq ρ] [DecidableEq ω]

/-- The record is right after every run. -/
lemma recorded_run {tr : List ((ρ ⊕ ω) × Event)} {s : State ρ ω}
    (h : program.Run initial tr s) :
    Counted s.shared.sem s.readers s.writers ∧ Recorded tr s.shared.shm s.writers := by
  apply h.induct_trace (I := fun tr s => Counted s.shared.sem s.readers s.writers
    ∧ Recorded tr s.shared.shm s.writers)
  · refine ⟨counted_initial, rfl, ?_, ?_, rfl⟩
    · intro w v hw
      cases hw
    · have h0 : population WriterPc.stored (fun _ : ω => WriterPc.idle) = 0 :=
        population_const WriterPc.stored rfl
      exact (Nat.zero_add _).trans h0
  · intro tr s i e s' hs hstep
    refine ⟨counted_step hs.1 hstep, ?_⟩
    cases i with
    | inl r =>
        obtain ⟨sh, pc, hr, rfl⟩ := reader_step hstep
        exact hs.2.reader hr
    | inr w =>
        obtain ⟨sh, pc, hw, rfl⟩ := writer_step hstep
        exact hs.2.writer hs.1 hw

/-! ### The readers -/

/-- While a reader is inside and does not stop, no step is a store, and it stays
inside. -/
lemma quiet_step {s s' : State ρ ω} {r : ρ} {i : ρ ⊕ ω} {e : Event}
    (hc : Counted s.shared.sem s.readers s.writers) (hin : (s.readers r).inside = true)
    (h : program.step s i = some (e, s')) (hstop : (.inl r, .stops) ≠ (i, e)) :
    e ≠ .stores ∧ (s'.readers r).inside = true := by
  cases i with
  | inl r' =>
      obtain ⟨sh, pc, hr, rfl⟩ := reader_step h
      refine ⟨hr.ne_stores, ?_⟩
      by_cases hrr : r = r'
      · subst hrr
        simp only [Function.update_self]
        generalize s.readers r = pc₀ at hr hin
        cases hr with
        | asks | starts => simp [ReaderPc.inside] at hin
        | prints => rfl
        | stops => exact absurd rfl hstop
      · simp only [Function.update_of_ne hrr]
        exact hin
  | inr w =>
      obtain ⟨sh, pc, hw, rfl⟩ := writer_step h
      refine ⟨?_, hin⟩
      rintro rfl
      -- a writer at its store is inside, and then no reader is
      have hout := hc.no_reader (w := w)
      generalize s.writers w = pc₀ at hw hout
      cases hw with
      | stores v =>
          rw [hout rfl r] at hin
          cases hin

/-- While a reader is inside and does not stop, no increment is completed. -/
lemma quiet_run {s t : State ρ ω} {tr : List ((ρ ⊕ ω) × Event)} {r : ρ}
    (hc : Counted s.shared.sem s.readers s.writers) (hin : (s.readers r).inside = true)
    (h : program.Run s tr t) (hstop : (.inl r, .stops) ∉ tr) : increments tr = 0 := by
  have hall : (.inl r, .stops) ∉ tr → Counted t.shared.sem t.readers t.writers
      ∧ (t.readers r).inside = true ∧ increments tr = 0 := by
    apply h.induct_trace (I := fun tr t => (.inl r, .stops) ∉ tr →
      Counted t.shared.sem t.readers t.writers ∧ (t.readers r).inside = true
        ∧ increments tr = 0)
    · exact fun _ => ⟨hc, hin, rfl⟩
    · intro tr t i e u ih hstep hnot
      rw [List.mem_append, List.mem_singleton, not_or] at hnot
      obtain ⟨hct, hint, hinc⟩ := ih hnot.1
      obtain ⟨he, hinu⟩ := quiet_step hct hint hstep hnot.2
      exact ⟨counted_step hct hstep, hinu, (increments_snoc he).trans hinc⟩
  exact (hall hstop).2.2

/-- The trace shows the reader inside: it has started and not stopped since, and
has done nothing since if it is about to print. -/
def Session (tr : List ((ρ ⊕ ω) × Event)) (r : ρ) (pc : ReaderPc) : Prop :=
  ∃ before during, tr = before ++ (.inl r, .starts) :: during ∧ (.inl r, .stops) ∉ during
    ∧ (pc = .printing → ∀ e, (.inl r, e) ∉ during)

omit [Fintype ρ] [Fintype ω] [DecidableEq ρ] [DecidableEq ω] in
/-- A step of another process leaves the session open. -/
lemma Session.snoc {tr : List ((ρ ⊕ ω) × Event)} {r : ρ} {pc : ReaderPc} (h : Session tr r pc)
    {i : ρ ⊕ ω} (hi : .inl r ≠ i) (e : Event) : Session (tr ++ [(i, e)]) r pc := by
  obtain ⟨before, during, rfl, hstop, hprint⟩ := h
  refine ⟨before, during ++ [(i, e)], by simp, ?_, ?_⟩
  · simp [hstop, hi]
  · intro hp e'
    simp [hprint hp e', hi]

omit [Fintype ρ] [Fintype ω] in
/-- A reader inside has its session in the trace. -/
lemma session_run {tr : List ((ρ ⊕ ω) × Event)} {s : State ρ ω} (h : program.Run initial tr s) :
    ∀ r, (s.readers r).inside = true → Session tr r (s.readers r) := by
  apply h.induct_trace
    (I := fun tr s => ∀ r, (s.readers r).inside = true → Session tr r (s.readers r))
  · intro r hr
    cases hr
  · intro tr s i e s' ih hstep r hin
    cases i with
    | inl r' =>
        obtain ⟨sh, pc, hr, rfl⟩ := reader_step hstep
        by_cases hrr : r = r'
        · subst hrr
          have hold := ih r
          simp only [Function.update_self] at hin ⊢
          generalize s.readers r = pc₀ at hr hold
          cases hr with
          | asks | stops => cases hin
          | starts => exact ⟨tr, [], rfl, by simp, by simp⟩
          | prints =>
              obtain ⟨before, during, rfl, hstop, -⟩ := hold rfl
              refine ⟨before, during ++ [(.inl r, .prints s.shared.shm)], by simp, ?_, by simp⟩
              simp [hstop]
        · simp only [Function.update_of_ne hrr] at hin ⊢
          exact (ih r hin).snoc (by simpa using hrr) e
    | inr w =>
        obtain ⟨sh, pc, hw, rfl⟩ := writer_step hstep
        exact (ih r hin).snoc (by simp) e

/-- **The history of the counter**: the writers print `1, 2, 3, …`, and every
value a reader prints is the number of increments completed before its start,
none being completed before its stop. -/
theorem counter_history {tr : List ((ρ ⊕ ω) × Event)} {s : State ρ ω}
    (h : program.Run initial tr s) :
    written tr = List.range' 1 (written tr).length
      ∧ ∀ pre r v post, tr = pre ++ (.inl r, .prints v) :: post →
          ∃ before during, pre = before ++ (.inl r, .starts) :: during
            ∧ (∀ e, (.inl r, e) ∉ during) ∧ v = increments before ∧ increments during = 0
            ∧ ∀ mid rest, post = mid ++ rest → (.inl r, .stops) ∉ mid → increments mid = 0 := by
  refine ⟨(recorded_run h).2.inOrder, ?_⟩
  rintro pre r v post rfl
  obtain ⟨t, t', ht, hstep, hpost⟩ := h.split_cons
  obtain ⟨hct, hrt⟩ := recorded_run ht
  obtain ⟨sh, pc, hr, rfl⟩ := reader_step hstep
  have hsession := session_run ht r
  generalize t.readers r = pc₀ at hr hsession
  cases hr with
  | prints =>
      obtain ⟨before, during, rfl, hstop, hnone⟩ := hsession rfl
      -- nothing is stored since the start, where the reader has come in
      obtain ⟨u, u', hu, hstart, hduring⟩ := ht.split_cons
      have hzero : increments during = 0 := by
        refine quiet_run (r := r) (counted_step (recorded_run hu).1 hstart) ?_ hduring hstop
        obtain ⟨sh', pc', hr', rfl⟩ := reader_step hstart
        simp only [Function.update_self]
        generalize u.readers r = pc₁ at hr'
        cases hr' with
        | starts => rfl
      refine ⟨before, during, rfl, hnone rfl, ?_, hzero, ?_⟩
      · rw [hrt.counter, List.append_cons, increments_append, hzero,
          increments_snoc (by simp), Nat.add_zero]
      · rintro mid rest rfl hmid
        obtain ⟨w, hw, -⟩ := hpost.split
        refine quiet_run (r := r) (counted_step hct hstep) ?_ hw hmid
        simp only [Function.update_self, ReaderPc.inside]

/-- One writer and one reader: the writer counts to `1` and prints it, and then
the reader prints the `1` increment completed before its start. -/
theorem counter_history_one_each : ∃ tr : List ((Fin 1 ⊕ Fin 1) × Event),
    written tr = [1] ∧ (.inl 0, .prints 1) ∈ tr
      ∧ written tr = List.range' 1 (written tr).length := by
  obtain ⟨tr, s, h, hp⟩ := Machine.exists_run (show (program.exec
    [.inr 0, .inr 0, .inr 0, .inr 0, .inr 0, .inr 0, .inl 0, .inl 0, .inl 0]
    (initial : State (Fin 1) (Fin 1))).any
      (fun q => written q.1 = [1] && q.1.any fun x => x = (.inl 0, .prints 1)) = true by decide)
  simp only [Bool.and_eq_true, decide_eq_true_eq, List.any_eq_true, exists_eq_right] at hp
  exact ⟨tr, hp.1, hp.2, (counter_history h).1⟩

end ReadersWriters

end OperatingSys
