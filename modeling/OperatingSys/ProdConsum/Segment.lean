import OperatingSys.ProdConsum.Completion

/-!
The slots and the cells that `os_01/lab_05/01.c` uses.

`shm_pos_consum` and `shm_buffer` are set by additions to an `int *`, whose unit
is an `int`, so they lie `4` and `8` ints behind `shm_pos_prod` in a segment of
`11` ints; the slots from `3` on are outside (`slot_inSegment`).

The positions are never taken back to the front, so the slots used in the course
of all runs are exactly those below `min P (C + N)` (`slot_used_iff`): `SE`
bounds how many slots are filled, not which. Hence the slots stay below `N` if
and only if `P ≤ N` or there is nothing to consume (`slots_below_iff`), and the
runs that stay in the segment are those that store at most three items
(`segment_iff`).
-/

namespace OperatingSys

namespace ProdConsum

/-- The slot of `shm_buffer` a step accesses. -/
def Event.slot : Event → Option ℕ
  | .stores k _ | .prints k _ | .reads k _ => some k
  | .starts | .advances | .stops => none

variable {π κ : Type*}

/-! ### The shared segment -/

/-- `sizeof(int)`. -/
def sizeofInt : ℕ := 4

/-- `shm_size`, the bytes requested from `shmget`. -/
def shmSize : ℕ := (9 + 2) * sizeofInt

/-- `p + n` for a pointer `p` to `int`: the unit is an `int`. -/
def intPtrAdd (p n : ℕ) : ℕ := p + n * sizeofInt

/-- `shm_pos_prod = shm_at_add`. -/
def shmPosProd (shmAtAdd : ℕ) : ℕ := shmAtAdd

/-- `shm_pos_consum = shm_at_add + sizeof(int)`. -/
def shmPosConsum (shmAtAdd : ℕ) : ℕ := intPtrAdd shmAtAdd sizeofInt

/-- `shm_buffer = shm_at_add + 2 * sizeof(int)`. -/
def shmBuffer (shmAtAdd : ℕ) : ℕ := intPtrAdd shmAtAdd (2 * sizeofInt)

/-- The `int` at the address `a` lies inside the segment at `shmAtAdd`. -/
def InSegment (shmAtAdd a : ℕ) : Prop :=
  shmAtAdd ≤ a ∧ a + sizeofInt ≤ shmAtAdd + shmSize

/-- The position a process reads and writes. -/
def position (shmAtAdd : ℕ) : π ⊕ κ → ℕ
  | .inl _ => shmPosProd shmAtAdd
  | .inr _ => shmPosConsum shmAtAdd

/-- The addresses of the `int`s a step reads or writes in the segment: the slots
are found through the position. -/
def cells (shmAtAdd : ℕ) (q : (π ⊕ κ) × Event) : List ℕ :=
  match q.2 with
  | .stores k _ | .prints k _ | .reads k _ =>
      [position shmAtAdd q.1, intPtrAdd (shmBuffer shmAtAdd) k]
  | .advances => [position shmAtAdd q.1]
  | .starts | .stops => []

/-- The addresses read or written in a run, `main` setting both positions to `0`
first. -/
def accessed (shmAtAdd : ℕ) (tr : List ((π ⊕ κ) × Event)) : List ℕ :=
  [shmPosProd shmAtAdd, shmPosConsum shmAtAdd] ++ tr.flatMap (cells shmAtAdd)

lemma position_inSegment (m : ℕ) (i : π ⊕ κ) : InSegment m (position m i) := by
  cases i with
  | inl p =>
      simp only [InSegment, position, shmPosProd, shmSize, sizeofInt]
      omega
  | inr c =>
      simp only [InSegment, position, shmPosConsum, intPtrAdd, shmSize, sizeofInt]
      omega

/-- The buffer starts at the eighth of eleven `int`s: three slots are inside. -/
lemma slot_inSegment (m k : ℕ) : InSegment m (intPtrAdd (shmBuffer m) k) ↔ k < 3 := by
  simp only [InSegment, shmBuffer, intPtrAdd, shmSize, sizeofInt]
  omega

/-- The cells of a step are inside exactly when its slot is. -/
lemma cells_inSegment (m : ℕ) (q : (π ⊕ κ) × Event) :
    (∀ a ∈ cells m q, InSegment m a) ↔ ∀ k ∈ q.2.slot, k < 3 := by
  obtain ⟨i, e⟩ := q
  cases e <;> simp [cells, Event.slot, position_inSegment, slot_inSegment]

/-- The cells of a run are inside exactly when its slots are. -/
lemma accessed_inSegment (m : ℕ) (tr : List ((π ⊕ κ) × Event)) :
    (∀ a ∈ accessed m tr, InSegment m a) ↔ ∀ q ∈ tr, ∀ k ∈ q.2.slot, k < 3 := by
  have hP : InSegment m (shmPosProd m) := position_inSegment m (.inl () : Unit ⊕ Unit)
  have hC : InSegment m (shmPosConsum m) := position_inSegment m (.inr () : Unit ⊕ Unit)
  rw [accessed, List.forall_mem_append]
  simp only [List.forall_mem_cons, hP, hC, List.not_mem_nil, false_implies, implies_true,
    true_and, List.mem_flatMap]
  constructor
  · intro h q hq
    exact (cells_inSegment m q).mp fun a ha => h a ⟨q, hq, ha⟩
  · rintro h a ⟨q, hq, ha⟩
    exact (cells_inSegment m q).mpr (h q hq) a ha

variable [Fintype π] [Fintype κ] [DecidableEq π] [DecidableEq κ] {args : π → ProdArg}
  {COUNT : κ → ℤ} {buffer : ℕ → ℤ}

/-! ### The slots used -/

/-- A producer's step accesses a slot that is stored after it, and the stored
slots stay so. -/
lemma Counted.prod_slot {sh sh' : Shared} {P : π → ProdLoc} {arg : ProdArg} {p : π} {e : Event}
    {l : ProdLoc} (h : ProdStep arg sh (P p) e sh' l) :
    sh.posProd + population ProdLoc.stored P
        ≤ sh'.posProd + population ProdLoc.stored (Function.update P p l)
      ∧ ∀ k ∈ e.slot, k < sh'.posProd + population ProdLoc.stored (Function.update P p l) := by
  have hst := population_update ProdLoc.stored P p l
  have hpos : (P p).stored = true → 0 < population ProdLoc.stored P := population_pos
  generalize P p = l₀ at h hst hpos
  cases h with
  | starts | stops =>
      simp only [ProdLoc.stored, Nat.add_right_cancel_iff] at hst
      simp [Event.slot, hst]
  | stores =>
      simp only [ProdLoc.stored, Bool.toNat_false, Bool.toNat_true] at hst
      refine ⟨by dsimp only; omega, fun k hk => ?_⟩
      simp only [Event.slot, Option.mem_def, Option.some.injEq] at hk
      dsimp only
      omega
  | prints =>
      have hpos := hpos rfl
      simp only [ProdLoc.stored, Nat.add_right_cancel_iff] at hst
      refine ⟨by rw [hst], fun k hk => ?_⟩
      simp only [Event.slot, Option.mem_def, Option.some.injEq] at hk
      omega
  | advances =>
      simp only [ProdLoc.stored, Bool.toNat_false, Bool.toNat_true] at hst
      refine ⟨?_, by simp [Event.slot]⟩
      dsimp only
      omega

omit [DecidableEq π] [DecidableEq κ] in
/-- A consumer's step accesses a slot that is stored, and stores none. -/
lemma Counted.consum_slot {sh sh' : Shared} {P : π → ProdLoc} {C : κ → ConsumLoc}
    (hc : Counted sh P C) {COUNT : ℤ} {c : κ} {e : Event} {l : ConsumLoc}
    (h : ConsumStep COUNT sh (C c) e sh' l) :
    sh'.posProd = sh.posProd
      ∧ ∀ k ∈ e.slot, k < sh.posProd + population ProdLoc.stored P := by
  have hfill := hc.filled
  have hpos : (C c).reading = true → 0 < population ConsumLoc.reading C := population_pos
  generalize C c = l₀ at h hpos
  cases h with
  | starts | advances | stops => exact ⟨rfl, by simp [Event.slot]⟩
  | reads =>
      have hpos := hpos rfl
      refine ⟨rfl, fun k hk => ?_⟩
      simp only [Event.slot, Option.mem_def, Option.some.injEq] at hk
      omega

/-- Every slot accessed in a run is one of those stored at its end. -/
lemma slot_lt_of_run {tr : List ((π ⊕ κ) × Event)} {s : State π κ}
    (h : (program args COUNT).Run (initial args buffer) tr s) :
    ∀ q ∈ tr, ∀ k ∈ q.2.slot, k < s.shared.posProd + population ProdLoc.stored s.prods := by
  have hall : Counted s.shared s.prods s.consums ∧ ∀ q ∈ tr, ∀ k ∈ q.2.slot,
      k < s.shared.posProd + population ProdLoc.stored s.prods := by
    apply h.induct_trace (I := fun tr s => Counted s.shared s.prods s.consums
      ∧ ∀ q ∈ tr, ∀ k ∈ q.2.slot, k < s.shared.posProd + population ProdLoc.stored s.prods)
    · refine ⟨counted_initial args buffer, ?_⟩
      intro q hq
      cases hq
    · -- the slots of the steps before, and that of this one
      rintro tr s i e s' ⟨hc, ih⟩ hstep
      refine ⟨counted_step hc hstep, ?_⟩
      intro q hq k hk
      rw [List.mem_append, List.mem_singleton] at hq
      cases i with
      | inl p =>
          obtain ⟨sh, l, hp, rfl⟩ := prod_step hstep
          obtain ⟨hmono, hslot⟩ := Counted.prod_slot hp
          rcases hq with hq | rfl
          · exact (ih q hq k hk).trans_le hmono
          · exact hslot k hk
      | inr c =>
          obtain ⟨sh, l, hc', rfl⟩ := consum_step hstep
          obtain ⟨hsame, hslot⟩ := hc.consum_slot hc'
          dsimp only
          rw [hsame]
          rcases hq with hq | rfl
          · exact ih q hq k hk
          · exact hslot k hk
  exact hall.2

omit [Fintype π] [Fintype κ] [DecidableEq π] [DecidableEq κ] in
/-- What is stored is the slot of a step. -/
lemma exists_slot_of_stores {tr : List ((π ⊕ κ) × Event)} {k : ℕ} {v : ℤ}
    (h : (k, v) ∈ stores tr) : ∃ q ∈ tr, k ∈ q.2.slot := by
  rw [stores, List.mem_filterMap] at h
  obtain ⟨⟨i, e⟩, hq, he⟩ := h
  refine ⟨(i, e), hq, ?_⟩
  cases e <;> simp_all [Event.slot]

/-- The slots accessed in a run are the first ones, as many as are stored. -/
lemma slot_iff_of_run {tr : List ((π ⊕ κ) × Event)} {s : State π κ}
    (h : (program args COUNT).Run (initial args buffer) tr s) (k : ℕ) :
    (∃ q ∈ tr, k ∈ q.2.slot) ↔ k < (stores tr).length := by
  obtain ⟨-, hr⟩ := recorded_run h
  rw [hr.stored, held_length]
  constructor
  · rintro ⟨q, hq, hk⟩
    exact slot_lt_of_run h q hq k hk
  · intro hk
    apply exists_slot_of_stores (v := s.shared.buffer k)
    rw [hr.stored, held, List.mem_map]
    exact ⟨k, List.mem_range.mpr hk, rfl⟩

/-- A run stores at most `min P (C + N)` items. -/
lemma stores_length_le {tr : List ((π ⊕ κ) × Event)} {s : State π κ}
    (h : (program args COUNT).Run (initial args buffer) tr s) :
    (stores tr).length ≤ min (produced args) (consumed COUNT + N) := by
  obtain ⟨hc, ht⟩ := tallied_run h
  rw [(recorded_run h).2.stored, held_length]
  exact ht.stored_le hc

/-- Some run stores `min P (C + N)` items. -/
lemma exists_stores_length (args : π → ProdArg) (COUNT : κ → ℤ) (buffer : ℕ → ℤ) :
    ∃ tr s, (program args COUNT).Run (initial args buffer) tr s
      ∧ (stores tr).length = min (produced args) (consumed COUNT + N) := by
  obtain ⟨tr, s, h, hst⟩ := exists_stuck_run args COUNT buffer
  obtain ⟨hc, ht⟩ := tallied_run h
  refine ⟨tr, s, h, le_antisymm (stores_length_le h) ?_⟩
  rw [(recorded_run h).2.stored, held_length, (stuck_positions hc ht hst).1]
  exact Nat.le_add_right _ _

/-- **The slots used**: some run accesses slot `k` exactly when `k` is below
`min P (C + N)`. -/
lemma slot_used_iff (args : π → ProdArg) (COUNT : κ → ℤ) (buffer : ℕ → ℤ) (k : ℕ) :
    (∃ tr s, (program args COUNT).Run (initial args buffer) tr s ∧ ∃ q ∈ tr, k ∈ q.2.slot)
      ↔ k < min (produced args) (consumed COUNT + N) := by
  constructor
  · rintro ⟨tr, s, h, hq⟩
    exact ((slot_iff_of_run h k).mp hq).trans_le (stores_length_le h)
  · intro hk
    obtain ⟨tr, s, h, hlen⟩ := exists_stores_length args COUNT buffer
    exact ⟨tr, s, h, (slot_iff_of_run h k).mpr (by rw [hlen]; exact hk)⟩

/-- **The slots stay below `N`** in every run if and only if there are at most `N`
items to produce, or none to consume. -/
theorem slots_below_iff (args : π → ProdArg) (COUNT : κ → ℤ) (buffer : ℕ → ℤ) :
    (∀ tr s, (program args COUNT).Run (initial args buffer) tr s →
        ∀ q ∈ tr, ∀ k ∈ q.2.slot, k < N)
      ↔ produced args ≤ N ∨ consumed COUNT = 0 := by
  constructor
  · intro hall
    by_contra hno
    obtain ⟨tr, s, h, q, hq, hk⟩ :=
      (slot_used_iff args COUNT buffer N).mpr (by rw [lt_min_iff]; omega)
    exact lt_irrefl N (hall tr s h q hq N hk)
  · intro hcond tr s h q hq k hk
    have hlt := (slot_used_iff args COUNT buffer k).mp ⟨tr, s, h, q, hq, hk⟩
    rw [lt_min_iff] at hlt
    omega

/-- One producer of ten items and one consumer of one item: the tenth item is
stored in slot `9`. -/
theorem tenth_slot : ¬ ∀ tr s, (program (fun _ : Fin 1 => (⟨0, 10⟩ : ProdArg))
    (fun _ : Fin 1 => (1 : ℤ))).Run (initial (fun _ => ⟨0, 10⟩) fun _ => 0) tr s →
      ∀ q ∈ tr, ∀ k ∈ q.2.slot, k < N := by
  intro hall
  obtain ⟨tr, s, h, q, hq, hk⟩ := (slot_used_iff (fun _ : Fin 1 => (⟨0, 10⟩ : ProdArg))
    (fun _ : Fin 1 => (1 : ℤ)) (fun _ => 0) 9).mpr (by decide)
  exact absurd (hall tr s h q hq 9 hk) (by decide)

/-! ### Which runs stay inside -/

/-- A run stays inside the segment exactly when it stores at most three items. -/
lemma accessed_inSegment_iff {tr : List ((π ⊕ κ) × Event)} {s : State π κ}
    (h : (program args COUNT).Run (initial args buffer) tr s) (m : ℕ) :
    (∀ a ∈ accessed m tr, InSegment m a) ↔ (stores tr).length ≤ 3 := by
  rw [accessed_inSegment]
  constructor
  · intro hall
    by_contra hlen
    obtain ⟨q, hq, hk⟩ := (slot_iff_of_run h 3).mpr (not_le.mp hlen)
    exact lt_irrefl 3 (hall q hq 3 hk)
  · intro hlen q hq k hk
    exact ((slot_iff_of_run h k).mp ⟨q, hq, hk⟩).trans_le hlen

/-- **The shared segment**: a run stays inside exactly when it stores at most
three items, and all runs do exactly when there are at most three items to
produce. -/
theorem segment_iff (args : π → ProdArg) (COUNT : κ → ℤ) (buffer : ℕ → ℤ) (shmAtAdd : ℕ) :
    (∀ tr s, (program args COUNT).Run (initial args buffer) tr s →
        ((∀ a ∈ accessed shmAtAdd tr, InSegment shmAtAdd a) ↔ (stores tr).length ≤ 3))
      ∧ ((∀ tr s, (program args COUNT).Run (initial args buffer) tr s →
            ∀ a ∈ accessed shmAtAdd tr, InSegment shmAtAdd a)
          ↔ produced args ≤ 3) := by
  refine ⟨fun tr s h => accessed_inSegment_iff h shmAtAdd, ?_, ?_⟩
  · intro hall
    obtain ⟨tr, s, h, hlen⟩ := exists_stores_length args COUNT buffer
    have hle := (accessed_inSegment_iff h shmAtAdd).mp (hall tr s h)
    have hN : N = 9 := rfl
    omega
  · intro hle tr s h
    apply (accessed_inSegment_iff h shmAtAdd).mpr
    have hmin := stores_length_le h
    omega

/-- The producers `main` creates. -/
def mainProds : Fin 3 → ProdArg := ![⟨0, 3⟩, ⟨10, 3⟩, ⟨100, 3⟩]

/-- The `COUNT`s of the consumers `main` creates. -/
def mainConsums : Fin 2 → ℤ := ![4, 5]

/-- The children `main` creates, in the segment at address `4096`: the fourth item
is stored outside. -/
theorem main_outside : ¬ ∀ tr s, (program mainProds mainConsums).Run
    (initial mainProds fun _ => 0) tr s → ∀ a ∈ accessed 4096 tr, InSegment 4096 a := by
  intro hall
  obtain ⟨tr, s, h, q, hq, hk⟩ :=
    (slot_used_iff mainProds mainConsums (fun _ => 0) 3).mpr (by decide)
  have hin := (accessed_inSegment 4096 tr).mp (hall tr s h) q hq 3 hk
  omega

end ProdConsum

end OperatingSys
