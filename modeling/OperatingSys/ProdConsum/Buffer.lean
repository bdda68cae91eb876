import OperatingSys.ProdConsum.Basic

/-!
The bounded buffer of `os_01/lab_05/01.c`.

`Counted` accounts for every process stopped half way: the critical section is
held by at most one process, `SE`, `SM` and the processes inside add up to `N`,
and `posProd` is ahead of `posConsum` by the filled slots, those still counted
by `SM` and those a process inside has taken off or not yet put on.
`Recorded` ties the history of a run to its state: the slots stored so far are
`0, 1, 2, …` in this order and still hold what was stored, and the slots read
are an initial part of them. `bounded_buffer` is what the two say together.
-/

namespace OperatingSys

namespace ProdConsum

/-! ### The places inside the critical section -/

namespace ProdLoc

/-- About to store. -/
def storing (l : ProdLoc) : Bool :=
  match l.pc with
  | .storing => true
  | .starting | .printing | .advancing | .stopping => false

/-- Has stored and not yet advanced the position. -/
def stored (l : ProdLoc) : Bool :=
  match l.pc with
  | .printing | .advancing => true
  | .starting | .storing | .stopping => false

/-- Has advanced the position and not yet left. -/
def advanced (l : ProdLoc) : Bool :=
  match l.pc with
  | .stopping => true
  | .starting | .storing | .printing | .advancing => false

/-- Between `prod_start` and `prod_stop`. -/
def inside (l : ProdLoc) : Bool :=
  match l.pc with
  | .starting => false
  | .storing | .printing | .advancing | .stopping => true

lemma inside_toNat (l : ProdLoc) :
    l.inside.toNat = l.storing.toNat + l.stored.toNat + l.advanced.toNat := by
  obtain ⟨i, x, pc⟩ := l
  cases pc <;> rfl

end ProdLoc

namespace ConsumLoc

/-- About to read. -/
def reading (l : ConsumLoc) : Bool :=
  match l.pc with
  | .reading => true
  | .starting | .advancing | .stopping => false

/-- Has read and not yet advanced the position. -/
def hasRead (l : ConsumLoc) : Bool :=
  match l.pc with
  | .advancing => true
  | .starting | .reading | .stopping => false

/-- Has advanced the position and not yet left. -/
def advanced (l : ConsumLoc) : Bool :=
  match l.pc with
  | .stopping => true
  | .starting | .reading | .advancing => false

/-- Between `consum_start` and `consum_stop`. -/
def inside (l : ConsumLoc) : Bool :=
  match l.pc with
  | .starting => false
  | .reading | .advancing | .stopping => true

lemma inside_toNat (l : ConsumLoc) :
    l.inside.toNat = l.reading.toNat + l.hasRead.toNat + l.advanced.toNat := by
  obtain ⟨i, pc⟩ := l
  cases pc <;> rfl

end ConsumLoc

variable {π κ : Type*} [Fintype π] [Fintype κ]

/-- The producers inside are those about to store, those that have stored and
those that have advanced. -/
lemma population_prod_inside (P : π → ProdLoc) :
    population ProdLoc.inside P = population ProdLoc.storing P + population ProdLoc.stored P
      + population ProdLoc.advanced P := by
  simp only [population_eq_sum, ← Finset.sum_add_distrib, ProdLoc.inside_toNat]

/-- The consumers inside are those about to read, those that have read and those
that have advanced. -/
lemma population_consum_inside (C : κ → ConsumLoc) :
    population ConsumLoc.inside C = population ConsumLoc.reading C
      + population ConsumLoc.hasRead C + population ConsumLoc.advanced C := by
  simp only [population_eq_sum, ← Finset.sum_add_distrib, ConsumLoc.inside_toNat]

/-! ### The counting invariant -/

/-- **The counting invariant** of the semaphores and the positions. -/
structure Counted (sh : Shared) (P : π → ProdLoc) (C : κ → ConsumLoc) : Prop where
  taken : sh.sem SB + population ProdLoc.inside P + population ConsumLoc.inside C = 1
  slots : sh.sem SE + sh.sem SM
    + (population ProdLoc.inside P + population ConsumLoc.inside C) = N
  filled : sh.posProd = sh.posConsum + sh.sem SM + population ProdLoc.advanced P
    + (population ConsumLoc.reading C + population ConsumLoc.hasRead C)

lemma counted_initial (args : π → ProdArg) (buffer : ℕ → ℤ) :
    Counted ⟨mainSem, 0, 0, buffer⟩ (fun p => (⟨0, (args p).value, .starting⟩ : ProdLoc))
      (fun _ : κ => (⟨0, .starting⟩ : ConsumLoc)) := by
  have hin : population ProdLoc.inside
      (fun p => (⟨0, (args p).value, .starting⟩ : ProdLoc)) = 0 :=
    population_eq_zero.mpr fun _ => rfl
  have had : population ProdLoc.advanced
      (fun p => (⟨0, (args p).value, .starting⟩ : ProdLoc)) = 0 :=
    population_eq_zero.mpr fun _ => rfl
  have hC : ∀ q : ConsumLoc → Bool, q ⟨0, .starting⟩ = false →
      population q (fun _ : κ => (⟨0, .starting⟩ : ConsumLoc)) = 0 :=
    fun q hq => population_const q hq
  constructor
  · simp [hin, hC ConsumLoc.inside rfl, mainSem, SB]
  · simp [hin, hC ConsumLoc.inside rfl, mainSem, SE, SM]
  · simp [had, hC ConsumLoc.reading rfl, hC ConsumLoc.hasRead rfl, mainSem, SM]

namespace Counted

variable {sh : Shared} {P : π → ProdLoc} {C : κ → ConsumLoc}

/-- A producer's step keeps the counts. -/
lemma prod [DecidableEq π] (hs : Counted sh P C) {arg : ProdArg} {p : π} {e : Event}
    {sh' : Shared} {l : ProdLoc} (h : ProdStep arg sh (P p) e sh' l) :
    Counted sh' (Function.update P p l) C := by
  obtain ⟨h1, h2, h3⟩ := hs
  have hin := population_update ProdLoc.inside P p l
  have had := population_update ProdLoc.advanced P p l
  generalize P p = l₀ at h hin had
  cases h with
  | starts hi hE hB =>
      simp only [ProdLoc.inside, ProdLoc.advanced, Bool.toNat_false, Bool.toNat_true] at hin had
      simp only [SB, SE, SM] at *
      constructor <;> simp [SB, SE, SM] <;> omega
  | stores | advances =>
      simp only [ProdLoc.inside, ProdLoc.advanced, Bool.toNat_false, Bool.toNat_true] at hin had
      constructor <;> dsimp only <;> omega
  | prints =>
      simp only [ProdLoc.inside, ProdLoc.advanced] at hin had
      constructor <;> omega
  | stops =>
      simp only [ProdLoc.inside, ProdLoc.advanced, Bool.toNat_false, Bool.toNat_true] at hin had
      simp only [SB, SE, SM] at *
      constructor <;> simp [SB, SE, SM] <;> omega

/-- A consumer's step keeps the counts. -/
lemma consum [DecidableEq κ] (hs : Counted sh P C) {COUNT : ℤ} {c : κ} {e : Event}
    {sh' : Shared} {l : ConsumLoc} (h : ConsumStep COUNT sh (C c) e sh' l) :
    Counted sh' P (Function.update C c l) := by
  obtain ⟨h1, h2, h3⟩ := hs
  have hin := population_update ConsumLoc.inside C c l
  have hre := population_update ConsumLoc.reading C c l
  have hha := population_update ConsumLoc.hasRead C c l
  generalize C c = l₀ at h hin hre hha
  cases h with
  | starts hi hM hB =>
      simp only [ConsumLoc.inside, ConsumLoc.reading, ConsumLoc.hasRead, Bool.toNat_false,
        Bool.toNat_true] at hin hre hha
      simp only [SB, SE, SM] at *
      constructor <;> simp [SB, SE, SM] <;> omega
  | reads =>
      simp only [ConsumLoc.inside, ConsumLoc.reading, ConsumLoc.hasRead, Bool.toNat_false,
        Bool.toNat_true] at hin hre hha
      constructor <;> omega
  | advances =>
      simp only [ConsumLoc.inside, ConsumLoc.reading, ConsumLoc.hasRead, Bool.toNat_false,
        Bool.toNat_true] at hin hre hha
      constructor <;> dsimp only <;> omega
  | stops =>
      simp only [ConsumLoc.inside, ConsumLoc.reading, ConsumLoc.hasRead, Bool.toNat_false,
        Bool.toNat_true] at hin hre hha
      simp only [SB, SE, SM] at *
      constructor <;> simp [SB, SE, SM] <;> omega

end Counted

variable [DecidableEq π] [DecidableEq κ] {args : π → ProdArg} {COUNT : κ → ℤ}

/-- Every step keeps the counts. -/
lemma counted_step {s s' : State π κ} {i : π ⊕ κ} {e : Event}
    (hs : Counted s.shared s.prods s.consums)
    (h : (program args COUNT).step s i = some (e, s')) :
    Counted s'.shared s'.prods s'.consums := by
  cases i with
  | inl p =>
      obtain ⟨sh, l, hp, rfl⟩ := prod_step h
      exact hs.prod hp
  | inr c =>
      obtain ⟨sh, l, hc, rfl⟩ := consum_step h
      exact hs.consum hc

/-! ### The history of the buffer -/

/-- The first `n` slots with what they hold. -/
def held (b : ℕ → ℤ) (n : ℕ) : List (ℕ × ℤ) := (List.range n).map fun k => (k, b k)

lemma held_succ (b : ℕ → ℤ) (n : ℕ) : held b (n + 1) = held b n ++ [(n, b n)] := by
  simp [held, List.range_succ]

/-- A store above the first `n` slots leaves them alone. -/
lemma held_update {b : ℕ → ℤ} {n k : ℕ} (h : n ≤ k) (x : ℤ) :
    held (Function.update b k x) n = held b n := by
  refine List.map_congr_left fun j hj => ?_
  have hjn := List.mem_range.mp hj
  rw [Function.update_of_ne (by omega)]

lemma held_prefix (b : ℕ → ℤ) {m n : ℕ} (h : m ≤ n) : held b m <+: held b n := by
  obtain ⟨d, rfl⟩ := Nat.exists_eq_add_of_le h
  rw [held, held, List.range_add, List.map_append]
  exact List.prefix_append _ _

lemma held_fst (b : ℕ → ℤ) (n : ℕ) : (held b n).map Prod.fst = List.range n := by
  simp [held, Function.comp_def]

lemma held_length (b : ℕ → ℤ) (n : ℕ) : (held b n).length = n := by simp [held]

/-- What the producers have stored in the course of a run: slot and value. -/
def stores (tr : List ((π ⊕ κ) × Event)) : List (ℕ × ℤ) :=
  tr.filterMap fun q =>
    match q.2 with
    | .stores k v => some (k, v)
    | _ => none

/-- What the consumers have read in the course of a run: slot and value. -/
def reads (tr : List ((π ⊕ κ) × Event)) : List (ℕ × ℤ) :=
  tr.filterMap fun q =>
    match q.2 with
    | .reads k v => some (k, v)
    | _ => none

/-- **The recording invariant**: the slots stored are the first ones, in order,
and still hold what was stored; the slots read are the first ones, in order,
with what they held. -/
structure Recorded (tr : List ((π ⊕ κ) × Event)) (sh : Shared) (P : π → ProdLoc)
    (C : κ → ConsumLoc) : Prop where
  stored : stores tr = held sh.buffer (sh.posProd + population ProdLoc.stored P)
  read : reads tr = held sh.buffer (sh.posConsum + population ConsumLoc.hasRead C)

namespace Recorded

variable {tr : List ((π ⊕ κ) × Event)} {sh : Shared} {P : π → ProdLoc} {C : κ → ConsumLoc}

omit [DecidableEq κ] in
/-- A producer's step keeps the record. A store goes to the slot after the ones
stored so far: the producer at it is alone inside, so nobody else has stored
without advancing. -/
lemma prod (hr : Recorded tr sh P C) (hc : Counted sh P C) {arg : ProdArg} {p : π} {e : Event}
    {sh' : Shared} {l : ProdLoc} (h : ProdStep arg sh (P p) e sh' l) :
    Recorded (tr ++ [(.inl p, e)]) sh' (Function.update P p l) C := by
  obtain ⟨h1, h2⟩ := hr
  have hst := population_update ProdLoc.stored P p l
  have hpos : (P p).storing = true → 0 < population ProdLoc.storing P := population_pos
  generalize P p = l₀ at h hst hpos
  cases h with
  | stores =>
      simp only [ProdLoc.stored, Bool.toNat_false, Bool.toNat_true] at hst
      have hpos := hpos rfl
      have htaken := hc.taken
      have hin := population_prod_inside P
      have hfill := hc.filled
      -- nobody else has stored and not advanced
      have h0 : population ProdLoc.stored P = 0 := by omega
      rw [h0, Nat.zero_add, Nat.add_zero] at hst
      rw [h0, Nat.add_zero] at h1
      constructor <;> dsimp only
      · rw [hst, held_succ, held_update le_rfl, Function.update_self, ← h1]
        simp [ProdConsum.stores]
      · rw [held_update (by omega), ← h2]
        simp [reads]
  | starts | prints | stops =>
      simp only [ProdLoc.stored, Nat.add_right_cancel_iff] at hst
      exact ⟨by simpa [ProdConsum.stores, hst] using h1, by simpa [reads] using h2⟩
  | advances =>
      simp only [ProdLoc.stored, Bool.toNat_false, Bool.toNat_true, Nat.add_zero] at hst
      rw [← hst] at h1
      refine ⟨?_, by simpa [reads] using h2⟩
      simpa [ProdConsum.stores, Nat.add_assoc, Nat.add_comm 1] using h1

omit [DecidableEq π] in
/-- A consumer's step keeps the record. A read goes to the slot after the ones
read so far, and that slot has been stored. -/
lemma consum (hr : Recorded tr sh P C) (hc : Counted sh P C) {COUNT : ℤ} {c : κ} {e : Event}
    {sh' : Shared} {l : ConsumLoc} (h : ConsumStep COUNT sh (C c) e sh' l) :
    Recorded (tr ++ [(.inr c, e)]) sh' P (Function.update C c l) := by
  obtain ⟨h1, h2⟩ := hr
  have hre := population_update ConsumLoc.hasRead C c l
  have hpos : (C c).reading = true → 0 < population ConsumLoc.reading C := population_pos
  generalize C c = l₀ at h hre hpos
  cases h with
  | reads =>
      simp only [ConsumLoc.hasRead, Bool.toNat_false, Bool.toNat_true] at hre
      have hpos := hpos rfl
      have htaken := hc.taken
      have hin := population_consum_inside C
      -- nobody else has read and not advanced
      have h0 : population ConsumLoc.hasRead C = 0 := by omega
      rw [h0, Nat.zero_add, Nat.add_zero] at hre
      rw [h0, Nat.add_zero] at h2
      constructor
      · simpa [stores] using h1
      · rw [hre, held_succ, ← h2]
        simp [ProdConsum.reads]
  | starts | stops =>
      simp only [ConsumLoc.hasRead, Nat.add_right_cancel_iff] at hre
      exact ⟨by simpa [stores] using h1, by simpa [ProdConsum.reads, hre] using h2⟩
  | advances =>
      simp only [ConsumLoc.hasRead, Bool.toNat_false, Bool.toNat_true, Nat.add_zero] at hre
      rw [← hre] at h2
      refine ⟨by simpa [stores] using h1, ?_⟩
      simpa [ProdConsum.reads, Nat.add_assoc, Nat.add_comm 1] using h2

end Recorded

/-- The counts and the record are right after every run. -/
lemma recorded_run {buffer : ℕ → ℤ} {tr : List ((π ⊕ κ) × Event)} {s : State π κ}
    (h : (program args COUNT).Run (initial args buffer) tr s) :
    Counted s.shared s.prods s.consums ∧ Recorded tr s.shared s.prods s.consums := by
  refine h.induct_trace (I := fun tr s => Counted s.shared s.prods s.consums
    ∧ Recorded tr s.shared s.prods s.consums) ⟨counted_initial args buffer, ?_⟩ ?_
  · have hP : population ProdLoc.stored (initial (κ := κ) args buffer).prods = 0 :=
      population_eq_zero.mpr fun _ => rfl
    have hC : population ConsumLoc.hasRead (initial (κ := κ) args buffer).consums = 0 :=
      population_eq_zero.mpr fun _ => rfl
    exact ⟨by rw [hP]; rfl, by rw [hC]; rfl⟩
  · rintro tr s i e s' ⟨hc, hr⟩ hstep
    refine ⟨counted_step hc hstep, ?_⟩
    cases i with
    | inl p =>
        obtain ⟨sh, l, hp, rfl⟩ := prod_step hstep
        exact hr.prod hc hp
    | inr c =>
        obtain ⟨sh, l, hc', rfl⟩ := consum_step hstep
        exact hr.consum hc hc'

/-! ### What the invariants say -/

/-- The process is between its start and its stop `semop`. -/
def State.inside (s : State π κ) : π ⊕ κ → Bool
  | .inl p => (s.prods p).inside
  | .inr c => (s.consums c).inside

omit [DecidableEq π] [DecidableEq κ] in
lemma population_inside (s : State π κ) :
    population id s.inside
      = population ProdLoc.inside s.prods + population ConsumLoc.inside s.consums := by
  simp only [population_eq_sum, Fintype.sum_sum_type]
  rfl

/-- **The bounded buffer**: after every run at most one process is inside, the
semaphores and the process inside account for all slots, the positions are at
most `N` apart, and what has been read is, slot by slot and value by value, an
initial part of what has been stored, the slots being `0, 1, 2, …`. -/
theorem bounded_buffer {buffer : ℕ → ℤ} {tr : List ((π ⊕ κ) × Event)} {s : State π κ}
    (h : (program args COUNT).Run (initial args buffer) tr s) :
    (∀ i j, s.inside i = true → s.inside j = true → i = j)
      ∧ s.shared.sem SE + s.shared.sem SM + population id s.inside = N
      ∧ s.shared.posConsum ≤ s.shared.posProd
      ∧ s.shared.posProd ≤ s.shared.posConsum + N
      ∧ reads tr <+: stores tr
      ∧ (stores tr).map Prod.fst = List.range (stores tr).length := by
  obtain ⟨hc, hr⟩ := recorded_run h
  have htaken := hc.taken
  have hslots := hc.slots
  have hfill := hc.filled
  have hP := population_prod_inside s.prods
  have hC := population_consum_inside s.consums
  have hone : population id s.inside ≤ 1 := by rw [population_inside]; omega
  refine ⟨fun i j => eq_of_population_le_one (p := id) (L := s.inside) hone, ?_, by omega,
    by omega, ?_, ?_⟩
  · rw [population_inside]; exact hslots
  · rw [hr.stored, hr.read]
    exact held_prefix _ (by omega)
  · rw [hr.stored, held_fst, held_length]

/-- Two producers store three values, which two consumers read; the last one has not left yet. -/
theorem bounded_buffer_three : ∃ (tr : List ((Fin 2 ⊕ Fin 2) × Event))
    (s : State (Fin 2) (Fin 2)), stores tr = [(0, 7), (1, 8), (2, 17)]
      ∧ reads tr = [(0, 7), (1, 8), (2, 17)]
      ∧ s.shared.sem SE + s.shared.sem SM + population id s.inside = N
      ∧ reads tr <+: stores tr := by
  let args : Fin 2 → ProdArg := fun p => ⟨7 + 10 * p.val, 2⟩
  obtain ⟨tr, s, h, hp⟩ := Machine.exists_run (show ((program args fun _ : Fin 2 => 2).exec
      (List.replicate 10 (.inl 0) ++ List.replicate 4 (.inr 1) ++ List.replicate 5 (.inl 1)
        ++ List.replicate 4 (.inr 0) ++ List.replicate 2 (.inr 1))
      (initial args fun _ => 0 : State (Fin 2) (Fin 2))).any (fun q =>
        stores q.1 = [(0, 7), (1, 8), (2, 17)] && reads q.1 = [(0, 7), (1, 8), (2, 17)]) = true
      by decide +kernel)
  obtain ⟨hstores, hreads⟩ := Bool.and_eq_true_iff.mp hp
  obtain ⟨-, hslots, -, -, hprefix, -⟩ := bounded_buffer h
  exact ⟨tr, s, of_decide_eq_true hstores, of_decide_eq_true hreads, hslots, hprefix⟩

end ProdConsum

end OperatingSys
