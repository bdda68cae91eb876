import OperatingSys.ProdConsum.Buffer

/-!
How far the children of `os_01/lab_05/01.c` have come.

A child does five steps for an item it produces and four for one it consumes;
`done` counts them. `Tallied` says that the children together have done the
steps of the trace, that none goes beyond its `COUNT`, and that the two
positions are the items produced and consumed. Two consequences do not look at
the single children: a run has at most `5 * P + 4 * C` steps
(`Tallied.length_le`), and the slots stored so far are no more than `P`, and no
more than `C + N` (`stored_le`), where `P` and `C` are all items to be produced
and to be consumed.
-/

namespace OperatingSys

namespace ProdConsum

/-! ### One child -/

/-- The items the loop of a child handles: `COUNT` of them, none if it is
negative. -/
def items (COUNT : ℤ) : ℕ := COUNT.toNat

lemma lt_items {COUNT : ℤ} {i : ℕ} : i < items COUNT ↔ (i : ℤ) < COUNT := by
  rw [items]
  omega

namespace ProdLoc

/-- The steps of the current item that are done. -/
def place (l : ProdLoc) : ℕ :=
  match l.pc with
  | .starting => 0
  | .storing => 1
  | .printing => 2
  | .advancing => 3
  | .stopping => 4

/-- The steps done. -/
def done (l : ProdLoc) : ℕ := 5 * l.i + l.place

/-- The child is not beyond its `COUNT`. -/
def Within (n : ℕ) (l : ProdLoc) : Prop := l.i + l.inside.toNat ≤ n

/-- The child has left its loop. -/
def Finished (n : ℕ) (l : ProdLoc) : Prop := l.pc = .starting ∧ n ≤ l.i

lemma place_le (l : ProdLoc) : l.place ≤ 4 * l.inside.toNat := by
  obtain ⟨i, x, pc⟩ := l
  cases pc <;> simp [place, inside]

/-- Within its `COUNT` a child does at most the steps of all its items. -/
lemma done_le {n : ℕ} {l : ProdLoc} (h : l.Within n) : l.done ≤ 5 * n := by
  have hp := l.place_le
  rw [Within] at h
  rw [done]
  omega

end ProdLoc

namespace ConsumLoc

/-- The steps of the current item that are done. -/
def place (l : ConsumLoc) : ℕ :=
  match l.pc with
  | .starting => 0
  | .reading => 1
  | .advancing => 2
  | .stopping => 3

/-- The steps done. -/
def done (l : ConsumLoc) : ℕ := 4 * l.i + l.place

/-- The child is not beyond its `COUNT`. -/
def Within (n : ℕ) (l : ConsumLoc) : Prop := l.i + l.inside.toNat ≤ n

/-- The child has left its loop. -/
def Finished (n : ℕ) (l : ConsumLoc) : Prop := l.pc = .starting ∧ n ≤ l.i

lemma place_le (l : ConsumLoc) : l.place ≤ 3 * l.inside.toNat := by
  obtain ⟨i, pc⟩ := l
  cases pc <;> simp [place, inside]

/-- Within its `COUNT` a child does at most the steps of all its items. -/
lemma done_le {n : ℕ} {l : ConsumLoc} (h : l.Within n) : l.done ≤ 4 * n := by
  have hp := l.place_le
  rw [Within] at h
  rw [done]
  omega

end ConsumLoc

/-- A producer's step is one more step done; it stays within its `COUNT` and
moves its position with the items it has advanced over. -/
lemma ProdStep.tally {arg : ProdArg} {sh sh' : Shared} {l l' : ProdLoc} {e : Event}
    (h : ProdStep arg sh l e sh' l') :
    l'.done = l.done + 1 ∧ (l.Within (items arg.COUNT) → l'.Within (items arg.COUNT))
      ∧ sh'.posProd + (l.i + l.advanced.toNat) = sh.posProd + (l'.i + l'.advanced.toNat)
      ∧ sh'.posConsum = sh.posConsum := by
  cases h with
  | starts hi hE hB => exact ⟨rfl, fun _ => lt_items.mpr hi, rfl, rfl⟩
  | stores => exact ⟨rfl, id, rfl, rfl⟩
  | prints => exact ⟨rfl, id, rfl, rfl⟩
  | advances =>
      refine ⟨rfl, id, ?_, rfl⟩
      simp only [ProdLoc.advanced, Bool.toNat_false, Bool.toNat_true]
      omega
  | stops => exact ⟨rfl, id, rfl, rfl⟩

/-- A consumer's step is one more step done; it stays within its `COUNT` and
moves its position with the items it has advanced over. -/
lemma ConsumStep.tally {COUNT : ℤ} {sh sh' : Shared} {l l' : ConsumLoc} {e : Event}
    (h : ConsumStep COUNT sh l e sh' l') :
    l'.done = l.done + 1 ∧ (l.Within (items COUNT) → l'.Within (items COUNT))
      ∧ sh'.posConsum + (l.i + l.advanced.toNat) = sh.posConsum + (l'.i + l'.advanced.toNat)
      ∧ sh'.posProd = sh.posProd := by
  cases h with
  | starts hi hM hB => exact ⟨rfl, fun _ => lt_items.mpr hi, rfl, rfl⟩
  | reads => exact ⟨rfl, id, rfl, rfl⟩
  | advances =>
      refine ⟨rfl, id, ?_, rfl⟩
      simp only [ConsumLoc.advanced, Bool.toNat_false, Bool.toNat_true]
      omega
  | stops => exact ⟨rfl, id, rfl, rfl⟩

/-! ### All children -/

variable {π κ : Type*} [Fintype π] [Fintype κ]

/-- The items all producers are to produce. -/
def produced (args : π → ProdArg) : ℕ := ∑ p, items (args p).COUNT

/-- The items all consumers are to consume. -/
def consumed (COUNT : κ → ℤ) : ℕ := ∑ c, items (COUNT c)

/-- **The tally**: the children have done the steps of the trace, are within
their `COUNT`s, and the positions are the items advanced over. -/
structure Tallied (args : π → ProdArg) (COUNT : κ → ℤ) (tr : List ((π ⊕ κ) × Event))
    (sh : Shared) (P : π → ProdLoc) (C : κ → ConsumLoc) : Prop where
  steps : tr.length = ∑ p, (P p).done + ∑ c, (C c).done
  prods : ∀ p, (P p).Within (items (args p).COUNT)
  consums : ∀ c, (C c).Within (items (COUNT c))
  posProd : sh.posProd = ∑ p, ((P p).i + (P p).advanced.toNat)
  posConsum : sh.posConsum = ∑ c, ((C c).i + (C c).advanced.toNat)

namespace Tallied

variable {args : π → ProdArg} {COUNT : κ → ℤ} {tr : List ((π ⊕ κ) × Event)} {sh : Shared}
  {P : π → ProdLoc} {C : κ → ConsumLoc}

/-- A producer's step keeps the tally. -/
lemma prod [DecidableEq π] (ht : Tallied args COUNT tr sh P C) {p : π} {e : Event}
    {sh' : Shared} {l : ProdLoc} (h : ProdStep (args p) sh (P p) e sh' l) :
    Tallied args COUNT (tr ++ [(.inl p, e)]) sh' (Function.update P p l) C := by
  obtain ⟨h1, h2, h3, h4, h5⟩ := ht
  obtain ⟨hdone, hwithin, hpos, hother⟩ := h.tally
  have hd := sum_update ProdLoc.done P p l
  have hp := sum_update (fun l => l.i + l.advanced.toNat) P p l
  constructor
  · rw [List.length_append, List.length_singleton, h1]
    omega
  · rw [Function.forall_update_iff P fun q l => l.Within (items (args q).COUNT)]
    exact ⟨hwithin (h2 p), fun q _ => h2 q⟩
  · exact h3
  · omega
  · rw [hother]
    exact h5

/-- A consumer's step keeps the tally. -/
lemma consum [DecidableEq κ] (ht : Tallied args COUNT tr sh P C) {c : κ} {e : Event}
    {sh' : Shared} {l : ConsumLoc} (h : ConsumStep (COUNT c) sh (C c) e sh' l) :
    Tallied args COUNT (tr ++ [(.inr c, e)]) sh' P (Function.update C c l) := by
  obtain ⟨h1, h2, h3, h4, h5⟩ := ht
  obtain ⟨hdone, hwithin, hpos, hother⟩ := h.tally
  have hd := sum_update ConsumLoc.done C c l
  have hp := sum_update (fun l => l.i + l.advanced.toNat) C c l
  constructor
  · rw [List.length_append, List.length_singleton, h1]
    omega
  · exact h2
  · rw [Function.forall_update_iff C fun d l => l.Within (items (COUNT d))]
    exact ⟨hwithin (h3 c), fun d _ => h3 d⟩
  · rw [hother]
    exact h4
  · omega

/-- A run has at most the steps of all items. -/
lemma length_le (ht : Tallied args COUNT tr sh P C) :
    tr.length ≤ 5 * produced args + 4 * consumed COUNT := by
  rw [ht.steps, produced, consumed, Finset.mul_sum, Finset.mul_sum]
  apply Nat.add_le_add
  · exact Finset.sum_le_sum fun p _ => ProdLoc.done_le (ht.prods p)
  · exact Finset.sum_le_sum fun c _ => ConsumLoc.done_le (ht.consums c)

/-- The items of the producers, the ones in the making included. -/
lemma prods_le (ht : Tallied args COUNT tr sh P C) :
    sh.posProd + population ProdLoc.storing P + population ProdLoc.stored P ≤ produced args := by
  calc sh.posProd + population ProdLoc.storing P + population ProdLoc.stored P
      = ∑ p, ((P p).i + (P p).inside.toNat) := by
        rw [ht.posProd, population_eq_sum, population_eq_sum, ← Finset.sum_add_distrib,
          ← Finset.sum_add_distrib]
        refine Finset.sum_congr rfl fun p _ => ?_
        have hp := (P p).inside_toNat
        omega
    _ ≤ produced args := Finset.sum_le_sum fun p _ => ht.prods p

/-- The items of the consumers, the ones being taken included. -/
lemma consums_le (ht : Tallied args COUNT tr sh P C) :
    sh.posConsum + population ConsumLoc.reading C + population ConsumLoc.hasRead C
      ≤ consumed COUNT := by
  calc sh.posConsum + population ConsumLoc.reading C + population ConsumLoc.hasRead C
      = ∑ c, ((C c).i + (C c).inside.toNat) := by
        rw [ht.posConsum, population_eq_sum, population_eq_sum, ← Finset.sum_add_distrib,
          ← Finset.sum_add_distrib]
        refine Finset.sum_congr rfl fun c _ => ?_
        have hc := (C c).inside_toNat
        omega
    _ ≤ consumed COUNT := Finset.sum_le_sum fun c _ => ht.consums c

/-- The slots stored so far are no more than the items to be produced, and no
more than `N` beyond the items to be consumed. -/
lemma stored_le (ht : Tallied args COUNT tr sh P C) (hc : Counted sh P C) :
    sh.posProd + population ProdLoc.stored P ≤ min (produced args) (consumed COUNT + N) := by
  have hP := ht.prods_le
  have hC := ht.consums_le
  have hfill := hc.filled
  have hslots := hc.slots
  have hin := population_prod_inside P
  rw [le_min_iff]
  omega

end Tallied

variable [DecidableEq π] [DecidableEq κ] {args : π → ProdArg} {COUNT : κ → ℤ}

/-- The counts and the tally are right after every run. -/
lemma tallied_run {buffer : ℕ → ℤ} {tr : List ((π ⊕ κ) × Event)} {s : State π κ}
    (h : (program args COUNT).Run (initial args buffer) tr s) :
    Counted s.shared s.prods s.consums ∧ Tallied args COUNT tr s.shared s.prods s.consums := by
  refine ⟨(recorded_run h).1, ?_⟩
  apply h.induct_trace (I := fun tr s => Tallied args COUNT tr s.shared s.prods s.consums)
  · constructor <;> simp [initial, ProdLoc.done, ProdLoc.place, ConsumLoc.done, ConsumLoc.place,
      ProdLoc.Within, ProdLoc.inside, ConsumLoc.Within, ConsumLoc.inside, ProdLoc.advanced,
      ConsumLoc.advanced]
  · intro tr s i e s' ht hstep
    cases i with
    | inl p =>
        obtain ⟨sh, l, hp, rfl⟩ := prod_step hstep
        exact ht.prod hp
    | inr c =>
        obtain ⟨sh, l, hc, rfl⟩ := consum_step hstep
        exact ht.consum hc

end ProdConsum

end OperatingSys
