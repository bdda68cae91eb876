import Mathlib.Tactic

/-!
Win32 objects a thread can wait for.

* `Mutex`: owned by a thread, which may acquire it again; `wait` and `release`
  are `WaitForSingleObject` and `ReleaseMutex`. `Mutex.Guards` says that of a
  family of threads exactly the owner is in a section, and is kept by threads
  that lock on their way in and unlock on their way out.
* `EventObject m`: an event created with `bManualReset = m`. A wait that gets
  through leaves a manual-reset event signalled and resets an auto-reset one.

A wait without time-out that cannot get through is `none`: the thread sleeps.
-/

namespace OperatingSys

/-- A mutex: the thread that owns it and how often that thread has acquired it,
`none` while it is signalled. -/
structure Mutex (ι : Type*) where
  owner : Option (ι × ℕ)

namespace Mutex

variable {ι : Type*} [DecidableEq ι]

/-- `CreateMutex(NULL, FALSE, NULL)`. -/
def free : Mutex ι := ⟨none⟩

/-- `WaitForSingleObject(mutex, INFINITE)` by the thread `i`. -/
def wait (m : Mutex ι) (i : ι) : Option (Mutex ι) :=
  match m.owner with
  | none => some ⟨some (i, 1)⟩
  | some (j, n) => if j = i then some ⟨some (i, n + 1)⟩ else none

/-- `ReleaseMutex(mutex)` by the thread `i`, which fails without effect if the
thread does not own the mutex. -/
def release (m : Mutex ι) (i : ι) : Mutex ι :=
  match m.owner with
  | none => m
  | some (j, n) => if j = i then if n ≤ 1 then ⟨none⟩ else ⟨some (i, n - 1)⟩ else m

/-- The thread `i` owns the mutex and has acquired it once. -/
def HeldBy (m : Mutex ι) (i : ι) : Prop := m.owner = some (i, 1)

lemma wait_free (i : ι) : (free : Mutex ι).wait i = some ⟨some (i, 1)⟩ := rfl

/-- A thread does not get through while another one owns the mutex. -/
lemma wait_of_heldBy {m : Mutex ι} {i j : ι} (h : m.HeldBy j) (hij : j ≠ i) :
    m.wait i = none := by
  simp [wait, show m.owner = some (j, 1) from h, hij]

/-- The owner's release frees the mutex. -/
lemma release_of_heldBy {m : Mutex ι} {i : ι} (h : m.HeldBy i) : m.release i = free := by
  simp [release, show m.owner = some (i, 1) from h, free]

omit [DecidableEq ι] in
lemma HeldBy.unique {m : Mutex ι} {i j : ι} (hi : m.HeldBy i) (hj : m.HeldBy j) : i = j := by
  have h := hi.symm.trans hj
  simpa using h

/-! ### A mutex and the threads it guards -/

variable {ℓ : Type*}

/-- **A guarded section**: of a family `L` of threads exactly the owner of the
mutex is at a place `p`, having acquired it once. -/
structure Guards (m : Mutex ι) (p : ℓ → Bool) (L : ι → ℓ) : Prop where
  owner : m = free ∨ ∃ i, m.HeldBy i
  held : ∀ i, p (L i) = true ↔ m.HeldBy i

namespace Guards

variable {m m' : Mutex ι} {p : ℓ → Bool} {L : ι → ℓ} {i j : ι} {l : ℓ}

omit [DecidableEq ι] in
lemma unique (h : m.Guards p L) (hi : p (L i) = true) (hj : p (L j) = true) : i = j :=
  ((h.held i).mp hi).unique ((h.held j).mp hj)

omit [DecidableEq ι] in
/-- A free mutex guards a family with nobody at `p`. -/
lemma of_free (h : ∀ i, p (L i) = false) : (free : Mutex ι).Guards p L := by
  refine ⟨Or.inl rfl, fun i => ?_⟩
  rw [h i]
  simp [HeldBy, free]

/-- A thread gets the mutex unless some thread is at `p`. -/
lemma wait_or (h : m.Guards p L) (i : ι) : (m.wait i).isSome ∨ ∃ j, p (L j) = true := by
  rcases h.owner with rfl | ⟨j, hj⟩
  · exact Or.inl rfl
  · exact Or.inr ⟨j, (h.held j).mpr hj⟩

/-- A thread moves without crossing the border of the section. -/
lemma keep (h : m.Guards p L) (hl : p l = p (L i)) : m.Guards p (Function.update L i l) := by
  refine ⟨h.owner, ?_⟩
  rw [Function.forall_update_iff L fun j x => p x = true ↔ m.HeldBy j]
  refine ⟨?_, fun j _ => h.held j⟩
  rw [hl]
  exact h.held i

/-- A thread outside gets the mutex and goes in. -/
lemma lock (h : m.Guards p L) (hw : m.wait i = some m') (hout : p (L i) = false)
    (hl : p l = true) : m'.Guards p (Function.update L i l) := by
  have hfree : m = free := by
    rcases h.owner with hfree | ⟨j, hj⟩
    · exact hfree
    · -- somebody else holds it, so the thread would not get through
      have hij : j ≠ i := by
        rintro rfl
        rw [(h.held j).mpr hj] at hout
        cases hout
      rw [wait_of_heldBy hj hij] at hw
      cases hw
  subst hfree
  rw [wait_free, Option.some.injEq] at hw
  subst hw
  refine ⟨Or.inr ⟨i, rfl⟩, ?_⟩
  rw [Function.forall_update_iff L fun j x => p x = true ↔ HeldBy ⟨some (i, 1)⟩ j]
  refine ⟨iff_of_true hl rfl, fun j hij => iff_of_false ?_ ?_⟩
  · rw [h.held j]
    exact fun hj => by cases hj
  · intro hj
    exact hij (HeldBy.unique hj rfl)

/-- The thread inside releases the mutex and goes out. -/
lemma unlock (h : m.Guards p L) (hin : p (L i) = true) (hl : p l = false) :
    (m.release i).Guards p (Function.update L i l) := by
  rw [release_of_heldBy ((h.held i).mp hin)]
  apply of_free
  rw [Function.forall_update_iff L fun _ x => p x = false]
  refine ⟨hl, fun j hij => ?_⟩
  by_contra hj
  exact hij (h.unique (by simpa using hj) hin)

end Guards

end Mutex

/-- An event with its kind, manual-reset or auto-reset, as a parameter. -/
structure EventObject (manualReset : Bool) where
  signalled : Bool

namespace EventObject

variable {m : Bool}

/-- `SetEvent`. -/
def set (_ : EventObject m) : EventObject m := ⟨true⟩

/-- `ResetEvent`. -/
def reset (_ : EventObject m) : EventObject m := ⟨false⟩

/-- `WaitForSingleObject(event, INFINITE)`. -/
def wait (e : EventObject m) : Option (EventObject m) :=
  if e.signalled then some (if m then e else e.reset) else none

@[simp] lemma set_signalled (e : EventObject m) : e.set.signalled = true := rfl

@[simp] lemma reset_signalled (e : EventObject m) : e.reset.signalled = false := rfl

/-- A wait for an auto-reset event resets it. -/
lemma wait_autoReset (e : EventObject false) :
    e.wait = if e.signalled then some e.reset else none := rfl

/-- A wait for a manual-reset event leaves it as it is. -/
lemma wait_manualReset (e : EventObject true) :
    e.wait = if e.signalled then some e else none := rfl

end EventObject

end OperatingSys
