import Mathlib.Tactic

/-!
Counting the processes of a family that are at a given place.

A family of processes is a function `L` from their names to their local
states; a step of one process is `Function.update L i l`. `population p L` is
the number of processes whose local state satisfies `p`, and
`population_update` says how one step moves it, in the additive form that
`omega` reads; `sum_update` is the same for any sum over the family. The remaining
lemmas turn a bound on a population into a statement about single processes.
-/

namespace OperatingSys

variable {ι ℓ : Type*} [Fintype ι]

/-- The number of processes of the family `L` whose local state satisfies
`p`. -/
def population (p : ℓ → Bool) (L : ι → ℓ) : ℕ :=
  (Finset.univ.filter fun i => p (L i) = true).card

lemma population_eq_sum (p : ℓ → Bool) (L : ι → ℓ) :
    population p L = ∑ i, (p (L i)).toNat := by
  rw [population, Finset.card_filter]
  refine Finset.sum_congr rfl fun i _ => ?_
  cases p (L i) <;> rfl

/-- One step of the process `i` takes its old summand away and adds its new
one. -/
lemma sum_update [DecidableEq ι] (f : ℓ → ℕ) (L : ι → ℓ) (i : ι) (l : ℓ) :
    ∑ j, f (Function.update L i l j) + f (L i) = ∑ j, f (L j) + f l := by
  have hrest : ∑ j ∈ Finset.univ.erase i, f (Function.update L i l j)
      = ∑ j ∈ Finset.univ.erase i, f (L j) :=
    Finset.sum_congr rfl fun j hj => by
      rw [Function.update_of_ne (Finset.ne_of_mem_erase hj)]
  rw [← Finset.add_sum_erase _ _ (Finset.mem_univ i),
    ← Finset.add_sum_erase (f := fun j => f (L j)) _ (Finset.mem_univ i), hrest,
    Function.update_self]
  omega

/-- One step of the process `i` takes its old place away from the population
and adds its new one. -/
lemma population_update [DecidableEq ι] (p : ℓ → Bool) (L : ι → ℓ) (i : ι) (l : ℓ) :
    population p (Function.update L i l) + (p (L i)).toNat
      = population p L + (p l).toNat := by
  rw [population_eq_sum, population_eq_sum]
  exact sum_update (fun l => (p l).toNat) L i l

/-- A larger set of places has a larger population. -/
lemma population_mono {p q : ℓ → Bool} (h : ∀ l, p l = true → q l = true) (L : ι → ℓ) :
    population p L ≤ population q L := by
  apply Finset.card_le_card
  intro i hi
  rw [Finset.mem_filter] at hi ⊢
  exact ⟨hi.1, h _ hi.2⟩

/-- A process at `p` is counted. -/
lemma population_pos {p : ℓ → Bool} {L : ι → ℓ} {i : ι} (h : p (L i) = true) :
    0 < population p L :=
  Finset.card_pos.mpr ⟨i, by simpa using h⟩

/-- An empty population has no process at `p`. -/
lemma population_eq_zero {p : ℓ → Bool} {L : ι → ℓ} :
    population p L = 0 ↔ ∀ i, p (L i) = false := by
  simp [population, Finset.filter_eq_empty_iff]

/-- A population of at most one has at most one process. -/
lemma eq_of_population_le_one {p : ℓ → Bool} {L : ι → ℓ} (h : population p L ≤ 1)
    {i j : ι} (hi : p (L i) = true) (hj : p (L j) = true) : i = j :=
  Finset.card_le_one.mp h i (by simpa using hi) j (by simpa using hj)

/-- A family that starts at one place. -/
lemma population_const (p : ℓ → Bool) {l : ℓ} (h : p l = false) :
    population p (fun _ : ι => l) = 0 :=
  population_eq_zero.mpr fun _ => h

/-- A population that is not empty has a process at `p`. -/
lemma exists_of_population_ne_zero {p : ℓ → Bool} {L : ι → ℓ} (h : population p L ≠ 0) :
    ∃ i, p (L i) = true := by
  by_contra hno
  push Not at hno
  exact h (population_eq_zero.mpr fun i => by simpa using hno i)

omit [Fintype ι] in
/-- A process that moves to `p` is at `p`. -/
lemma exists_update_self [DecidableEq ι] {p : ℓ → Bool} {l : ℓ} (L : ι → ℓ) (i : ι)
    (h : p l = true) : ∃ j, p (Function.update L i l j) = true :=
  ⟨i, by rw [Function.update_self]; exact h⟩

omit [Fintype ι] in
/-- A process that was not at `p` leaves those at `p` there. -/
lemma exists_update_of_false [DecidableEq ι] {p : ℓ → Bool} {L : ι → ℓ} {i : ι} (l : ℓ)
    (h : ∃ j, p (L j) = true) (hi : p (L i) = false) :
    ∃ j, p (Function.update L i l j) = true := by
  obtain ⟨j, hj⟩ := h
  refine ⟨j, ?_⟩
  rw [Function.update_of_ne]
  · exact hj
  · rintro rfl
    rw [hj] at hi
    cases hi

end OperatingSys
