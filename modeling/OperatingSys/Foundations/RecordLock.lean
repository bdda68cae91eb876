import Mathlib.Tactic

/-!
POSIX record locks, for one file locked as a whole.

A write lock belongs to a process, not to a descriptor: `setlk` is `fcntl` with
`F_SETLK` and `F_WRLCK`, which fails while another process has the lock, and the
lock is dropped as soon as its process closes any descriptor of the file or
exits (`drop`). `RecordLock.Guards` says that of a family of processes exactly
the holder is in a section.
-/

namespace OperatingSys

/-- The write lock on one file: the process that has it. -/
structure RecordLock (ι : Type*) where
  holder : Option ι

namespace RecordLock

variable {ι : Type*} [DecidableEq ι]

/-- `fcntl(fd, F_SETLK, &f1)` with `F_WRLCK` by the process `i`; `none` while
another process has the lock. -/
def setlk (k : RecordLock ι) (i : ι) : Option (RecordLock ι) :=
  match k.holder with
  | none => some ⟨some i⟩
  | some j => if j = i then some k else none

/-- A close of a descriptor of the file by the process `i`, or its exit. -/
def drop (k : RecordLock ι) (i : ι) : RecordLock ι :=
  if k.holder = some i then ⟨none⟩ else k

/-- **A guarded section**: of a family `L` of processes exactly the holder of the
lock is at a place `p`. -/
def Guards {ℓ : Type*} (k : RecordLock ι) (p : ℓ → Bool) (L : ι → ℓ) : Prop :=
  ∀ i, p (L i) = true ↔ k.holder = some i

namespace Guards

variable {ℓ : Type*} {k k' : RecordLock ι} {p : ℓ → Bool} {L : ι → ℓ} {i j : ι} {l : ℓ}

omit [DecidableEq ι] in
lemma unique (h : k.Guards p L) (hi : p (L i) = true) (hj : p (L j) = true) : i = j :=
  Option.some.inj (((h i).mp hi).symm.trans ((h j).mp hj))

/-- A process moves without crossing the border of the section. -/
lemma keep (h : k.Guards p L) (hl : p l = p (L i)) : k.Guards p (Function.update L i l) := by
  rw [Guards, Function.forall_update_iff L fun j x => p x = true ↔ k.holder = some j]
  refine ⟨?_, fun j _ => h j⟩
  rw [hl]
  exact h i

/-- A process outside gets the lock and goes in; nobody was in. -/
lemma enter (h : k.Guards p L) (hk : k.setlk i = some k') (hout : p (L i) = false)
    (hl : p l = true) :
    k'.Guards p (Function.update L i l) ∧ ∀ j, p (L j) = false := by
  have hfree : k.holder = none := by
    rw [setlk] at hk
    split at hk
    · assumption
    · next j hj =>
        split_ifs at hk with hji
        rw [hji] at hj
        rw [(h i).mpr hj] at hout
        cases hout
  have hnone : ∀ j, p (L j) = false := by
    intro j
    by_contra hj
    have := (h j).mp (by simpa using hj)
    rw [hfree] at this
    cases this
  have hk' : k' = ⟨some i⟩ := by
    simpa [setlk, hfree] using hk.symm
  refine ⟨?_, hnone⟩
  rw [Guards, Function.forall_update_iff L fun j x => p x = true ↔ k'.holder = some j, hk']
  refine ⟨iff_of_true hl rfl, fun j hji => iff_of_false ?_ ?_⟩
  · rw [hnone j]
    exact Bool.false_ne_true
  · intro hj
    exact hji (Option.some.inj hj).symm

/-- A process drops the lock, if it has it, and is out. -/
lemma leave (h : k.Guards p L) (hl : p l = false) :
    (k.drop i).Guards p (Function.update L i l) := by
  rw [Guards, Function.forall_update_iff L fun j x => p x = true ↔ (k.drop i).holder = some j]
  by_cases hi : k.holder = some i
  · rw [drop, if_pos hi]
    refine ⟨by simp [hl], fun j hji => iff_of_false ?_ (by simp)⟩
    intro hj
    exact hji (h.unique hj ((h i).mpr hi))
  · rw [drop, if_neg hi]
    exact ⟨iff_of_false (by simp [hl]) hi, fun j _ => h j⟩

end Guards

end RecordLock

end OperatingSys
