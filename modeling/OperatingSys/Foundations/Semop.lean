import Mathlib.Tactic

/-!
System V semaphore vectors.

`semop` applies a vector of operations to a set of semaphores all or nothing:
the operations are tried in the order of the vector, each on the values its
predecessors left, and when one of them cannot proceed the whole vector is
given up and the caller sleeps (`none`). An operation `0` waits for zero, a
negative one needs the value to stay nonnegative, a positive one always
proceeds.

This is the meaning of a vector whose flags ask neither for `IPC_NOWAIT` nor
for `SEM_UNDO`; `Sembuf.Plain` says so of one operation, and a `SemVector`
carries it for all its operations.
-/

namespace OperatingSys

variable {κ : Type*}

/-- `struct sembuf`: the semaphore, the operation and the flags. -/
structure Sembuf (κ : Type*) where
  num : κ
  op : ℤ
  flg : ℕ

namespace Sembuf

/-- The flag that makes a blocked operation fail. -/
def IPC_NOWAIT : ℕ := 0o4000

/-- The flag that has an operation undone when the process exits. -/
def SEM_UNDO : ℕ := 0x1000

/-- The operation carries neither of the two flags that change its meaning. -/
def Plain (b : Sembuf κ) : Prop := b.flg &&& (IPC_NOWAIT ||| SEM_UNDO) = 0

instance (b : Sembuf κ) : Decidable b.Plain := inferInstanceAs (Decidable (_ = _))

variable [DecidableEq κ]

/-- One operation on the values `v`, `none` when it cannot proceed. -/
def apply (b : Sembuf κ) (v : κ → ℕ) : Option (κ → ℕ) :=
  if b.op = 0 ∧ v b.num ≠ 0 then none
  else if (v b.num : ℤ) + b.op < 0 then none
  else some (Function.update v b.num ((v b.num : ℤ) + b.op).toNat)

/-- Waiting for zero changes nothing. -/
@[simp] lemma apply_wait (k : κ) (f : ℕ) (v : κ → ℕ) :
    (⟨k, 0, f⟩ : Sembuf κ).apply v = if v k = 0 then some v else none := by
  by_cases h : v k = 0 <;> simp [apply, h]

/-- An increment always proceeds. -/
@[simp] lemma apply_incr (k : κ) (f : ℕ) (v : κ → ℕ) :
    (⟨k, 1, f⟩ : Sembuf κ).apply v = some (Function.update v k (v k + 1)) := by
  have h : ¬ (v k : ℤ) + 1 < 0 := by omega
  simp only [apply, one_ne_zero, false_and, ite_false, if_neg h]
  congr 2

/-- A decrement needs a positive value. -/
@[simp] lemma apply_decr (k : κ) (f : ℕ) (v : κ → ℕ) :
    (⟨k, -1, f⟩ : Sembuf κ).apply v
      = if 0 < v k then some (Function.update v k (v k - 1)) else none := by
  by_cases h : 0 < v k
  · have h1 : ¬ (v k : ℤ) + -1 < 0 := by omega
    have h2 : ((v k : ℤ) + -1).toNat = v k - 1 := by omega
    simp [apply, h, h1, h2]
  · have h1 : (v k : ℤ) + -1 < 0 := by omega
    simp [apply, h, h1]

end Sembuf

/-- A vector of operations none of which carries a flag that changes its
meaning. -/
structure SemVector (κ : Type*) where
  ops : List (Sembuf κ)
  plain : ∀ b ∈ ops, b.Plain

/-- `semop(semid, vec, nsops)`: the first `nsops` operations of the vector, all
or nothing. -/
def semop [DecidableEq κ] (vec : SemVector κ) (nsops : ℕ) (v : κ → ℕ) : Option (κ → ℕ) :=
  (vec.ops.take nsops).foldlM (fun v b => b.apply v) v

end OperatingSys
