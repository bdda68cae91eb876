import OperatingSys.ProdConsum.Tally

/-!
When the children of `os_01/lab_05/01.c` all finish.

In a state where nobody can move nobody is inside, so the semaphores account for
all `N` slots; a producer that has not finished waits because no slot is free,
a consumer because none is filled, and both cannot be. `stuck_positions` reads
off how far both sides have come: `min P (C + N)` items produced and
`min P C` consumed. `completion` follows: every run ends, and the ends are all
right if and only if `C ≤ P ≤ C + N`.
-/

namespace OperatingSys

namespace ProdConsum

variable {π κ : Type*}

/-- Every child has left its loop. -/
def State.Finished (args : π → ProdArg) (COUNT : κ → ℤ) (s : State π κ) : Prop :=
  (∀ p, (s.prods p).Finished (items (args p).COUNT))
    ∧ ∀ c, (s.consums c).Finished (items (COUNT c))

section Enabled

variable [DecidableEq π] [DecidableEq κ] {args : π → ProdArg} {COUNT : κ → ℤ}

/-- A producer waits only at its start: for a free slot, for the critical
section, or because it has finished. -/
lemma enabled_prod {s : State π κ} {p : π} :
    (program args COUNT).Enabled s (.inl p) ↔
      ((s.prods p).pc = .starting → (s.prods p).i < items (args p).COUNT
        ∧ 0 < s.shared.sem SE ∧ 0 < s.shared.sem SB) := by
  rw [Machine.Enabled, program, Option.isSome_map]
  generalize s.prods p = l
  obtain ⟨i, x, pc⟩ := l
  cases pc with
  | starting =>
      rw [prod, semop_prodStart, lt_items]
      split_ifs with hi hv
      · simp [hi, hv]
      · simp [hi, hv]
      · simp [hi]
  | storing | printing | advancing => simp [prod]
  | stopping => simp [prod, semop_prodStop]

/-- A consumer waits only at its start: for a filled slot, for the critical
section, or because it has finished. -/
lemma enabled_consum {s : State π κ} {c : κ} :
    (program args COUNT).Enabled s (.inr c) ↔
      ((s.consums c).pc = .starting → (s.consums c).i < items (COUNT c)
        ∧ 0 < s.shared.sem SM ∧ 0 < s.shared.sem SB) := by
  rw [Machine.Enabled, program, Option.isSome_map]
  generalize s.consums c = l
  obtain ⟨i, pc⟩ := l
  cases pc with
  | starting =>
      rw [consum, semop_consumStart, lt_items]
      split_ifs with hi hv
      · simp [hi, hv]
      · simp [hi, hv]
      · simp [hi]
  | reading | advancing => simp [consum]
  | stopping => simp [consum, semop_consumStop]

/-- Where nobody can move, every child is at its start. -/
lemma starting_of_stuck {s : State π κ} (hst : (program args COUNT).Stuck s) :
    (∀ p, (s.prods p).pc = .starting) ∧ ∀ c, (s.consums c).pc = .starting := by
  constructor
  · intro p
    by_contra hpc
    exact hst (.inl p) (enabled_prod.mpr fun h => absurd h hpc)
  · intro c
    by_contra hpc
    exact hst (.inr c) (enabled_consum.mpr fun h => absurd h hpc)

end Enabled

/-! ### States where nobody can move -/

variable [Fintype π] [Fintype κ] {args : π → ProdArg} {COUNT : κ → ℤ}

/-- With all children at their start, the producers have all finished exactly
when all items are produced. -/
lemma prods_finished_iff {tr : List ((π ⊕ κ) × Event)} {s : State π κ}
    (ht : Tallied args COUNT tr s.shared s.prods s.consums)
    (hpc : ∀ p, (s.prods p).pc = .starting) :
    (∀ p, (s.prods p).Finished (items (args p).COUNT)) ↔ s.shared.posProd = produced args := by
  have hle : ∀ p ∈ Finset.univ, (s.prods p).i ≤ items (args p).COUNT :=
    fun p _ => le_of_add_le_left (ht.prods p)
  have hpos : s.shared.posProd = ∑ p, (s.prods p).i := by
    rw [ht.posProd]
    exact Finset.sum_congr rfl fun p _ => by simp [ProdLoc.advanced, hpc p]
  rw [hpos, produced, Finset.sum_eq_sum_iff_of_le hle]
  constructor
  · intro h p _
    exact le_antisymm (hle p (Finset.mem_univ p)) (h p).2
  · intro h p
    exact ⟨hpc p, (h p (Finset.mem_univ p)).ge⟩

/-- With all children at their start, the consumers have all finished exactly
when all items are consumed. -/
lemma consums_finished_iff {tr : List ((π ⊕ κ) × Event)} {s : State π κ}
    (ht : Tallied args COUNT tr s.shared s.prods s.consums)
    (hpc : ∀ c, (s.consums c).pc = .starting) :
    (∀ c, (s.consums c).Finished (items (COUNT c))) ↔ s.shared.posConsum = consumed COUNT := by
  have hle : ∀ c ∈ Finset.univ, (s.consums c).i ≤ items (COUNT c) :=
    fun c _ => le_of_add_le_left (ht.consums c)
  have hpos : s.shared.posConsum = ∑ c, (s.consums c).i := by
    rw [ht.posConsum]
    exact Finset.sum_congr rfl fun c _ => by simp [ConsumLoc.advanced, hpc c]
  rw [hpos, consumed, Finset.sum_eq_sum_iff_of_le hle]
  constructor
  · intro h c _
    exact le_antisymm (hle c (Finset.mem_univ c)) (h c).2
  · intro h c
    exact ⟨hpc c, (h c (Finset.mem_univ c)).ge⟩

variable [DecidableEq π] [DecidableEq κ]

/-- Where nobody can move, nobody is inside, all slots are accounted for, and
each side has finished or waits for the other. -/
lemma stuck_balance {tr : List ((π ⊕ κ) × Event)} {s : State π κ}
    (hc : Counted s.shared s.prods s.consums)
    (ht : Tallied args COUNT tr s.shared s.prods s.consums)
    (hst : (program args COUNT).Stuck s) :
    s.shared.sem SE + s.shared.sem SM = N
      ∧ s.shared.posProd = s.shared.posConsum + s.shared.sem SM
      ∧ (s.shared.posProd = produced args ∨ s.shared.sem SE = 0)
      ∧ (s.shared.posConsum = consumed COUNT ∨ s.shared.sem SM = 0) := by
  obtain ⟨hP, hC⟩ := starting_of_stuck hst
  -- at its start nobody has done anything of its round
  have hin : population ProdLoc.inside s.prods = 0 :=
    population_eq_zero.mpr fun p => by simp [ProdLoc.inside, hP p]
  have hin' : population ConsumLoc.inside s.consums = 0 :=
    population_eq_zero.mpr fun c => by simp [ConsumLoc.inside, hC c]
  have hadvanced : population ProdLoc.advanced s.prods = 0 :=
    population_eq_zero.mpr fun p => by simp [ProdLoc.advanced, hP p]
  have hreading : population ConsumLoc.reading s.consums = 0 :=
    population_eq_zero.mpr fun c => by simp [ConsumLoc.reading, hC c]
  have hread : population ConsumLoc.hasRead s.consums = 0 :=
    population_eq_zero.mpr fun c => by simp [ConsumLoc.hasRead, hC c]
  have htaken := hc.taken
  have hslots := hc.slots
  have hfill := hc.filled
  rw [hin, hin'] at htaken hslots
  rw [hadvanced, hreading, hread] at hfill
  refine ⟨hslots, hfill, ?_, ?_⟩
  · by_contra hno
    rw [not_or, ← prods_finished_iff ht hP] at hno
    obtain ⟨p, hp⟩ := not_forall.mp hno.1
    have hlt : (s.prods p).i < items (args p).COUNT := not_le.mp fun hle => hp ⟨hP p, hle⟩
    exact hst (.inl p) (enabled_prod.mpr fun _ => ⟨hlt, by omega, by omega⟩)
  · by_contra hno
    rw [not_or, ← consums_finished_iff ht hC] at hno
    obtain ⟨c, hc'⟩ := not_forall.mp hno.1
    have hlt : (s.consums c).i < items (COUNT c) := not_le.mp fun hle => hc' ⟨hC c, hle⟩
    exact hst (.inr c) (enabled_consum.mpr fun _ => ⟨hlt, by omega, by omega⟩)

/-- **Where nobody can move**, as many items are produced and consumed as the
other side allows. -/
lemma stuck_positions {tr : List ((π ⊕ κ) × Event)} {s : State π κ}
    (hc : Counted s.shared s.prods s.consums)
    (ht : Tallied args COUNT tr s.shared s.prods s.consums)
    (hst : (program args COUNT).Stuck s) :
    s.shared.posProd = min (produced args) (consumed COUNT + N)
      ∧ s.shared.posConsum = min (produced args) (consumed COUNT) := by
  obtain ⟨hslots, hfill, hP, hC⟩ := stuck_balance hc ht hst
  have hple := ht.prods_le
  have hcle := ht.consums_le
  have hN : N = 9 := rfl
  omega

/-- A run that cannot go on has finished exactly when there are not more items to
consume than to produce, and not more than `N` left over. -/
lemma finished_iff_of_stuck {tr : List ((π ⊕ κ) × Event)} {s : State π κ}
    (hc : Counted s.shared s.prods s.consums)
    (ht : Tallied args COUNT tr s.shared s.prods s.consums)
    (hst : (program args COUNT).Stuck s) :
    s.Finished args COUNT
      ↔ consumed COUNT ≤ produced args ∧ produced args ≤ consumed COUNT + N := by
  obtain ⟨hP, hC⟩ := starting_of_stuck hst
  obtain ⟨hpp, hpc⟩ := stuck_positions hc ht hst
  rw [State.Finished, prods_finished_iff ht hP, consums_finished_iff ht hC, hpp, hpc,
    min_eq_left_iff, min_eq_right_iff]
  exact and_comm

/-- Every configuration has a run that cannot go on. -/
lemma exists_stuck_run (args : π → ProdArg) (COUNT : κ → ℤ) (buffer : ℕ → ℤ) :
    ∃ tr s, (program args COUNT).Run (initial args buffer) tr s
      ∧ (program args COUNT).Stuck s := by
  obtain ⟨tr, s, h, hst⟩ := Machine.Run.exists_stuck (M := program args COUNT)
    (fun _ _ h => (tallied_run h).2.length_le) (.nil (s := initial args buffer))
  exact ⟨tr, s, h, hst⟩

/-- **Completion**: no run is longer than the steps of all items, and the runs
that cannot go on have all children finished if and only if
`C ≤ P ≤ C + N`. -/
theorem completion (args : π → ProdArg) (COUNT : κ → ℤ) (buffer : ℕ → ℤ) :
    (∀ tr s, (program args COUNT).Run (initial args buffer) tr s →
        tr.length ≤ 5 * produced args + 4 * consumed COUNT)
      ∧ ((∀ tr s, (program args COUNT).Run (initial args buffer) tr s →
            (program args COUNT).Stuck s → s.Finished args COUNT)
          ↔ consumed COUNT ≤ produced args ∧ produced args ≤ consumed COUNT + N) := by
  refine ⟨fun tr s h => (tallied_run h).2.length_le, ?_, ?_⟩
  · intro hall
    obtain ⟨tr, s, h, hst⟩ := exists_stuck_run args COUNT buffer
    obtain ⟨hc, ht⟩ := tallied_run h
    exact (finished_iff_of_stuck hc ht hst).mp (hall tr s h hst)
  · intro hbal tr s h hst
    obtain ⟨hc, ht⟩ := tallied_run h
    exact (finished_iff_of_stuck hc ht hst).mpr hbal

end ProdConsum

end OperatingSys
