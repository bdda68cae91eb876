import Mathlib.Tactic

/-!
Increments in two steps.

Several processes increment one register, each by loading it and storing the
loaded value plus one, so that increments get lost when two of them are between
the two steps at once. `Register` keeps the value, what the processes have
loaded, and the number of stores done.

* `Recorded`: what holds whatever the processes do. The value is at most the
  number of stores.
* `Exact`: nothing is lost. Kept by stores and by loads while nobody else has
  loaded (`Exact.load`, `Exact.store`).
* `Behind`: something is lost, or will be. It comes from a load while another
  process has loaded (`behind_of_load`) and never goes away (`Behind.load`,
  `Behind.store`).
-/

namespace OperatingSys

/-- A register incremented by the processes `ω`: its value, the values loaded and
not yet stored, and the number of stores done. -/
structure Register (ω : Type*) where
  value : ℕ
  held : ω → Option ℕ
  stores : ℕ

namespace Register

variable {ω : Type*}

/-- The process `w` loads the register. -/
def load [DecidableEq ω] (c : Register ω) (w : ω) : Register ω :=
  { c with held := Function.update c.held w (some c.value) }

/-- The process `w` stores the loaded value `v` plus one. -/
def store [DecidableEq ω] (c : Register ω) (w : ω) (v : ℕ) : Register ω :=
  ⟨v + 1, Function.update c.held w none, c.stores + 1⟩

lemma load_held_self [DecidableEq ω] (c : Register ω) (w : ω) :
    (c.load w).held w = some c.value :=
  Function.update_self w _ c.held

lemma load_held_of_ne [DecidableEq ω] (c : Register ω) {w w' : ω} (h : w' ≠ w) :
    (c.load w).held w' = c.held w' :=
  Function.update_of_ne h _ c.held

lemma store_held_self [DecidableEq ω] (c : Register ω) (w : ω) (v : ℕ) :
    (c.store w v).held w = none :=
  Function.update_self w _ c.held

lemma store_held_of_ne [DecidableEq ω] (c : Register ω) {w w' : ω} (h : w' ≠ w) (v : ℕ) :
    (c.store w v).held w' = c.held w' :=
  Function.update_of_ne h _ c.held

/-- **The record**: the value and every loaded value are at most the number of
stores, and a loaded value that is this number is the value still. -/
structure Recorded (c : Register ω) : Prop where
  le : c.value ≤ c.stores
  held : ∀ w, ∀ v ∈ c.held w, v ≤ c.stores ∧ (v = c.stores → c.value = c.stores)

/-- **Nothing is lost**: the value is the number of stores, and at most one
process has it loaded, as it is. -/
structure Exact (c : Register ω) : Prop where
  eq : c.value = c.stores
  held : ∀ w, ∀ v ∈ c.held w, v = c.value
  unique : ∀ w w', c.held w ≠ none → c.held w' ≠ none → w = w'

/-- **Something is lost**, or will be: the value is behind the stores, or a loaded
value is, or two processes have the value loaded. -/
def Behind (c : Register ω) : Prop :=
  c.value < c.stores ∨ (∃ w, ∃ v ∈ c.held w, v < c.stores)
    ∨ ∃ w w', w ≠ w' ∧ c.held w ≠ none ∧ c.held w' ≠ none

variable {c : Register ω}

lemma exact_zero : (⟨0, fun _ => none, 0⟩ : Register ω).Exact :=
  ⟨rfl, fun _ v hv => (Option.not_mem_none v hv).elim, fun _ _ hw => (hw rfl).elim⟩

lemma Exact.recorded (h : c.Exact) : c.Recorded := by
  refine ⟨h.eq.le, ?_⟩
  intro w v hv
  rw [h.held w v hv]
  exact ⟨h.eq.le, id⟩

/-- While something is lost and nobody has anything loaded, the value is behind. -/
lemma Behind.lt (h : c.Behind) (hnone : ∀ w, c.held w = none) : c.value < c.stores := by
  rcases h with hlt | ⟨w, v, hv, -⟩ | ⟨w, -, -, hw, -⟩
  · exact hlt
  · rw [hnone w] at hv
    exact (Option.not_mem_none v hv).elim
  · exact (hw (hnone w)).elim

variable [DecidableEq ω] {w : ω} {v : ℕ}

/-- A load keeps the record. -/
lemma Recorded.load (h : c.Recorded) (w : ω) : (c.load w).Recorded := by
  refine ⟨h.le, ?_⟩
  rw [Register.load, Function.forall_update_iff c.held
    fun _ x => ∀ v ∈ x, v ≤ c.stores ∧ (v = c.stores → c.value = c.stores)]
  refine ⟨?_, fun w' _ => h.held w'⟩
  intro v hv
  rw [Option.mem_def, Option.some.injEq] at hv
  rw [← hv]
  exact ⟨h.le, id⟩

/-- A store keeps the record: the values loaded by the others are behind now. -/
lemma Recorded.store (h : c.Recorded) (hv : v ∈ c.held w) : (c.store w v).Recorded := by
  have hle := (h.held w v hv).1
  refine ⟨Nat.succ_le_succ hle, ?_⟩
  rw [Register.store, Function.forall_update_iff c.held
    fun _ x => ∀ u ∈ x, u ≤ c.stores + 1 ∧ (u = c.stores + 1 → v + 1 = c.stores + 1)]
  refine ⟨fun u hu => (Option.not_mem_none u hu).elim, ?_⟩
  intro w' _ u hu
  have hule := (h.held w' u hu).1
  omega

/-- A load while nobody else has loaded loses nothing. -/
lemma Exact.load (h : c.Exact) (w : ω) (hnone : ∀ w, c.held w = none) :
    (c.load w).Exact := by
  refine ⟨h.eq, ?_, ?_⟩
  · rw [Register.load, Function.forall_update_iff c.held fun _ x => ∀ v ∈ x, v = c.value]
    refine ⟨fun v hv => (Option.some.inj hv).symm, fun w' _ => h.held w'⟩
  · have honly : ∀ w', (c.load w).held w' ≠ none → w' = w := by
      intro w' hw'
      by_contra hne
      rw [load_held_of_ne c hne] at hw'
      exact hw' (hnone w')
    intro w₁ w₂ h₁ h₂
    rw [honly w₁ h₁, honly w₂ h₂]

/-- A store of a value loaded alone loses nothing. -/
lemma Exact.store (h : c.Exact) (hv : v ∈ c.held w) : (c.store w v).Exact := by
  have hnone : ∀ w', (c.store w v).held w' = none := by
    intro w'
    by_cases hne : w' = w
    · rw [hne, store_held_self]
    · rw [store_held_of_ne c hne]
      by_contra hw'
      exact hne (h.unique w' w hw' (Option.ne_none_iff_exists'.mpr ⟨v, hv⟩))
  refine ⟨?_, ?_, ?_⟩
  · exact congrArg (· + 1) ((h.held w v hv).trans h.eq)
  · intro w' u hu
    rw [hnone w'] at hu
    exact (Option.not_mem_none u hu).elim
  · exact fun w' _ hw' => (hw' (hnone w')).elim

/-- A load while another process has loaded loses an increment. -/
lemma behind_of_load (hw : c.held w = none) {w' : ω} (hw' : c.held w' ≠ none) :
    (c.load w).Behind := by
  have hne : w' ≠ w := by
    rintro rfl
    exact hw' hw
  refine Or.inr (Or.inr ⟨w', w, hne, ?_, ?_⟩)
  · rw [load_held_of_ne c hne]
    exact hw'
  · rw [load_held_self]
    exact Option.some_ne_none _

/-- What is lost stays lost through a load. -/
lemma Behind.load (h : c.Behind) (hw : c.held w = none) : (c.load w).Behind := by
  have hkeep : ∀ w', c.held w' ≠ none → (c.load w).held w' = c.held w' := by
    intro w' hw'
    apply load_held_of_ne
    rintro rfl
    exact hw' hw
  rcases h with hlt | ⟨w', v, hv, hlt⟩ | ⟨w₁, w₂, hne, h₁, h₂⟩
  · exact Or.inl hlt
  · refine Or.inr (Or.inl ⟨w', v, ?_, hlt⟩)
    rw [hkeep w' (Option.ne_none_iff_exists'.mpr ⟨v, hv⟩)]
    exact hv
  · refine Or.inr (Or.inr ⟨w₁, w₂, hne, ?_, ?_⟩)
    · rw [hkeep w₁ h₁]
      exact h₁
    · rw [hkeep w₂ h₂]
      exact h₂

/-- What is lost stays lost through a store: either the stored value was behind,
or the one another process has loaded is now. -/
lemma Behind.store (h : c.Behind) (hr : c.Recorded) (hv : v ∈ c.held w) :
    (c.store w v).Behind := by
  have hle := (hr.held w v hv).1
  have hother : ∀ w', w' ≠ w → ∀ u ∈ c.held w', (c.store w v).Behind := by
    intro w' hne u hu
    refine Or.inr (Or.inl ⟨w', u, ?_, Nat.lt_succ_of_le (hr.held w' u hu).1⟩)
    rw [store_held_of_ne c hne]
    exact hu
  rcases h with hlt | ⟨w', u, hu, hlt⟩ | ⟨w₁, w₂, hne, h₁, h₂⟩
  · -- a value as large as the number of stores would be the register's
    have hvlt : v < c.stores := by
      refine lt_of_le_of_ne hle fun heq => ?_
      rw [(hr.held w v hv).2 heq] at hlt
      exact lt_irrefl _ hlt
    exact Or.inl (Nat.succ_lt_succ hvlt)
  · by_cases hne : w' = w
    · subst hne
      have huv : u = v := Option.mem_unique hu hv
      exact Or.inl (Nat.succ_lt_succ (huv ▸ hlt))
    · exact hother w' hne u hu
  · by_cases hw : w₁ = w
    · obtain ⟨u, hu⟩ := Option.ne_none_iff_exists'.mp h₂
      exact hother w₂ (fun h => hne (hw.trans h.symm)) u hu
    · obtain ⟨u, hu⟩ := Option.ne_none_iff_exists'.mp h₁
      exact hother w₁ hw u hu

end Register

end OperatingSys
