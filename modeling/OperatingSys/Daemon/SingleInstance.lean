import OperatingSys.Foundations.Machine
import OperatingSys.Foundations.RecordLock

/-!
The single instance of the daemon of `os_02/lab_01/daemonise.c`.

Any number of processes run the start-up sequence of `main`: `daemonize`, then
`already_running` with the record lock on the lock file, then the signals, the
thread and the loop. `startup` is one call of it with the answer the kernel gives;
a process is the child that the `fork` of `daemonize` leaves, the parent exits.

The lock admits one process at a time from its `F_SETLK` to the `close(f_d)` with
which `already_running` ends. That close drops the lock, so the next process gets
it while the first one is alive: there is one instance as long as no process tries
the lock while another one is past its `close` (`single_of_undisturbed`), and in
all runs only if there is at most one process (`single_iff`).
-/

namespace OperatingSys

namespace Daemon

/-! ### The start-up sequence -/

/-- The places in the start-up sequence: the call a process is at. -/
inductive Pc where
  /-- `getrlimit` in `daemonize`. -/
  | limiting
  | forking
  /-- `sigaction`, ignoring `SIGHUP`, after `setsid`. -/
  | ignoringHup
  /-- `chdir("/")`. -/
  | changingDir
  /-- All descriptors closed, `/dev/null` opened and duplicated, and the check of
  the three descriptors. -/
  | attaching
  /-- `open(LOCKFILE, ...)` in `already_running`. -/
  | opening
  /-- `lockfile(f_d)`. -/
  | locking
  /-- `close(f_d)` after `EACCES` or `EAGAIN`; `already_running` returns `1`. -/
  | refusing
  /-- `exit(1)` in `main`. -/
  | leaving
  | truncating
  | writing
  /-- `close(f_d)` at the end; `already_running` returns `0`. -/
  | closing
  /-- `sigaction`, restoring `SIGHUP`, in `main`. -/
  | restoringHup
  /-- `pthread_sigmask`. -/
  | masking
  /-- `pthread_create`. -/
  | threading
  /-- In the loop of `main`, with `thr_fn` waiting for signals. -/
  | serving
  | exited
  deriving DecidableEq, Repr

/-- The kernel's answer to a call: it succeeds, or fails, or the process is killed.
`denied` is the failure of `F_SETLK` with `EACCES` or `EAGAIN`; in the loop a
failure is a `SIGTERM` or a failed `sigwait`. -/
inductive Answer where
  | ok | denied | fails | killed
  deriving DecidableEq, Repr

/-- What a step shows to the outside. -/
inductive Event where
  | moves | returns (r : ℕ) | exits
  deriving DecidableEq, Repr

variable {ι : Type*} [DecidableEq ι]

/-- A call after which the process goes on to `pc`, or exits if the call has
failed. -/
def orExit (k : RecordLock ι) (p : ι) (pc : Pc) : Answer → Option (Event × RecordLock ι × Pc)
  | .ok => some (.moves, k, pc)
  | .fails | .killed => some (.exits, k.drop p, .exited)
  | .denied => none

/-- A call whose result is `(e, k', pc)` whatever the answer, unless the process is
killed. -/
def anyway (k : RecordLock ι) (p : ι) (r : Event × RecordLock ι × Pc) :
    Answer → Option (Event × RecordLock ι × Pc)
  | .ok | .fails => some r
  | .killed => some (.exits, k.drop p, .exited)
  | .denied => none

/-- `lockfile(f_d)`: denied exactly when another process has the lock. -/
def lockfile (k : RecordLock ι) (p : ι) : Answer → Option (Event × RecordLock ι × Pc)
  | .ok => (k.setlk p).map fun k' => (.moves, k', .truncating)
  | .denied => if (k.setlk p).isSome then none else some (.moves, k, .refusing)
  | .fails | .killed => some (.exits, k.drop p, .exited)

/-- One call of the start-up sequence by the process `p`. -/
def startup (k : RecordLock ι) (p : ι) (a : Answer) :
    Pc → Option (Event × RecordLock ι × Pc)
  | .limiting => orExit k p .forking a
  | .forking => orExit k p .ignoringHup a
  | .ignoringHup => orExit k p .changingDir a
  | .changingDir => orExit k p .attaching a
  | .attaching => orExit k p .opening a
  | .opening => orExit k p .locking a
  | .locking => lockfile k p a
  | .refusing => anyway k p (.returns 1, k.drop p, .leaving) a
  | .leaving => anyway k p (.exits, k.drop p, .exited) a
  | .truncating => anyway k p (.moves, k, .writing) a
  | .writing => anyway k p (.moves, k, .closing) a
  | .closing => anyway k p (.returns 0, k.drop p, .restoringHup) a
  | .restoringHup => orExit k p .masking a
  | .masking => orExit k p .threading a
  | .threading => orExit k p .serving a
  | .serving => orExit k p .serving a
  | .exited => none

/-- The lock on the lock file and the places of the processes. -/
structure State (ι : Type*) where
  lock : RecordLock ι
  pcs : ι → Pc

omit [DecidableEq ι] in
/-- All processes at the start of `main`. -/
def initial : State ι := ⟨⟨none⟩, fun _ => .limiting⟩

/-- All processes together, one call of one of them at a time. -/
def program : Machine (State ι) (ι × Answer) Event where
  step s := fun (p, a) => (startup s.lock p a (s.pcs p)).map fun (e, k, pc) =>
    (e, ⟨k, Function.update s.pcs p pc⟩)

/-! ### Who has the lock and who runs -/

namespace Pc

/-- Between the `F_SETLK` that has got the lock and the `close(f_d)`. -/
def holding : Pc → Bool
  | .truncating | .writing | .closing => true
  | .limiting | .forking | .ignoringHup | .changingDir | .attaching | .opening | .locking
  | .refusing | .leaving | .restoringHup | .masking | .threading | .serving | .exited => false

/-- Alive, and `already_running` has returned `0`. -/
def running : Pc → Bool
  | .restoringHup | .masking | .threading | .serving => true
  | .limiting | .forking | .ignoringHup | .changingDir | .attaching | .opening | .locking
  | .refusing | .leaving | .truncating | .writing | .closing | .exited => false

end Pc

/-- **A single instance**: at most one live process has had `already_running`
return `0`. -/
def Single (s : State ι) : Prop :=
  ∀ p q, (s.pcs p).running = true → (s.pcs q).running = true → p = q

/-- A process that tries the lock does so while no live process has had
`already_running` return `0`. -/
def Undisturbed (s : State ι) (m : ι × Answer) : Prop :=
  s.pcs m.1 = .locking → ∀ q, (s.pcs q).running = false

/-! ### What a call does to the lock -/

section Calls

variable {k k' k₀ : RecordLock ι} {p : ι} {a : Answer} {pc pc' pc₀ : Pc} {e e₀ : Event}

lemma orExit_cases (h : orExit k p pc₀ a = some (e, k', pc')) :
    (k' = k ∧ pc' = pc₀) ∨ (k' = k.drop p ∧ pc' = .exited) := by
  cases a with
  | ok => cases h; exact Or.inl ⟨rfl, rfl⟩
  | denied => cases h
  | fails | killed => cases h; exact Or.inr ⟨rfl, rfl⟩

lemma anyway_cases (h : anyway k p (e₀, k₀, pc₀) a = some (e, k', pc')) :
    (k' = k₀ ∧ pc' = pc₀) ∨ (k' = k.drop p ∧ pc' = .exited) := by
  cases a with
  | ok | fails => cases h; exact Or.inl ⟨rfl, rfl⟩
  | denied => cases h
  | killed => cases h; exact Or.inr ⟨rfl, rfl⟩

lemma lockfile_cases (h : lockfile k p a = some (e, k', pc')) :
    (k.setlk p = some k' ∧ pc' = .truncating) ∨ (k' = k ∧ pc' = .refusing)
      ∨ (k' = k.drop p ∧ pc' = .exited) := by
  cases a with
  | ok =>
      obtain ⟨k₁, hk, he⟩ := Option.map_eq_some_iff.mp h
      cases he
      exact Or.inl ⟨hk, rfl⟩
  | denied =>
      rw [lockfile] at h
      split_ifs at h
      cases h
      exact Or.inr (Or.inl ⟨rfl, rfl⟩)
  | fails | killed => cases h; exact Or.inr (Or.inr ⟨rfl, rfl⟩)

/-- A call gets the lock; or it leaves the lock as it is, and the process with or
without it; or the process drops the lock and has it no more. A process runs only
after it has had the lock. -/
lemma startup_cases (h : startup k p a pc = some (e, k', pc')) :
    (pc = .locking ∧ k.setlk p = some k' ∧ pc' = .truncating)
      ∨ (k' = k ∧ pc'.holding = pc.holding ∧ (pc'.running = true → pc.running = true))
      ∨ (k' = k.drop p ∧ pc'.holding = false
        ∧ (pc'.running = true → pc.holding = true)) := by
  have hexit : k' = k.drop p ∧ pc' = .exited → k' = k.drop p ∧ pc'.holding = false
      ∧ (pc'.running = true → pc.holding = true) := by
    rintro ⟨hk, rfl⟩
    exact ⟨hk, rfl, fun hr => by cases hr⟩
  cases pc with
  | limiting | forking | ignoringHup | changingDir | attaching | opening | restoringHup
  | masking | threading | serving =>
      -- where the call fails the process exits
      rcases orExit_cases h with ⟨rfl, rfl⟩ | hx
      · exact Or.inr (Or.inl ⟨rfl, rfl, by simp [Pc.running]⟩)
      · exact Or.inr (Or.inr (hexit hx))
  | locking =>
      -- it has got the lock, or somebody else has it, or the process exits
      rcases lockfile_cases h with ⟨hk, rfl⟩ | ⟨rfl, rfl⟩ | hx
      · exact Or.inl ⟨rfl, hk, rfl⟩
      · exact Or.inr (Or.inl ⟨rfl, rfl, fun hr => by cases hr⟩)
      · exact Or.inr (Or.inr (hexit hx))
  | truncating | writing =>
      -- what these calls return does not matter
      rcases anyway_cases h with ⟨rfl, rfl⟩ | hx
      · exact Or.inr (Or.inl ⟨rfl, rfl, fun hr => by cases hr⟩)
      · exact Or.inr (Or.inr (hexit hx))
  | refusing | leaving | closing =>
      rcases anyway_cases h with ⟨rfl, rfl⟩ | hx
      · -- the lock goes with the descriptor
        exact Or.inr (Or.inr ⟨rfl, rfl, by simp [Pc.running, Pc.holding]⟩)
      · exact Or.inr (Or.inr (hexit hx))
  | exited => cases h

end Calls

/-! ### Runs without a disturbance -/

/-- **The account of the lock**: exactly its holder is between the `F_SETLK` and
the `close(f_d)`, and at most one process is there or runs. -/
structure Locked (k : RecordLock ι) (L : ι → Pc) : Prop where
  guards : k.Guards Pc.holding L
  unique : ∀ p q, (L p).holding || (L p).running → (L q).holding || (L q).running → p = q

/-- An undisturbed call keeps the account. -/
lemma Locked.step {k k' : RecordLock ι} {L : ι → Pc} (hs : Locked k L) {p : ι} {a : Answer}
    {pc : Pc} {e : Event} (h : startup k p a (L p) = some (e, k', pc))
    (hq : L p = .locking → ∀ q, (L q).running = false) :
    Locked k' (Function.update L p pc) := by
  -- a process that is in after the call was in before, unless it has got the lock
  have hkeep : ((pc.holding || pc.running) = true → ((L p).holding || (L p).running) = true) →
      ∀ q r, (Function.update L p pc q).holding || (Function.update L p pc q).running →
        (Function.update L p pc r).holding || (Function.update L p pc r).running → q = r := by
    intro hin
    have hold : ∀ q, (Function.update L p pc q).holding || (Function.update L p pc q).running →
        (L q).holding || (L q).running := by
      rw [Function.forall_update_iff L fun q x => (x.holding || x.running) = true →
        ((L q).holding || (L q).running) = true]
      exact ⟨hin, fun _ _ => id⟩
    exact fun q r hq hr => hs.unique q r (hold q hq) (hold r hr)
  rcases startup_cases h with ⟨hpc, hk, rfl⟩ | ⟨rfl, hhold, hrun⟩ | ⟨rfl, hhold, hrun⟩
  · obtain ⟨hg, hnone⟩ := hs.guards.enter hk (by rw [hpc]; rfl) (l := Pc.truncating) rfl
    refine ⟨hg, ?_⟩
    have honly : ∀ q, (Function.update L p .truncating q).holding
        || (Function.update L p .truncating q).running → q = p := by
      rw [Function.forall_update_iff L fun q x => (x.holding || x.running) = true → q = p]
      refine ⟨fun _ => rfl, fun q _ hin => ?_⟩
      rw [hnone q, hq hpc q] at hin
      cases hin
    exact fun q r hqin hrin => (honly q hqin).trans (honly r hrin).symm
  · refine ⟨hs.guards.keep hhold, hkeep ?_⟩
    rw [hhold, Bool.or_eq_true, Bool.or_eq_true]
    exact Or.imp_right hrun
  · refine ⟨hs.guards.leave hhold, hkeep ?_⟩
    rw [hhold, Bool.false_or, Bool.or_eq_true]
    exact fun hr => Or.inl (hrun hr)

/-- Along a schedule without a disturbance there is a single instance. -/
lemma single_of_undisturbed {is : List (ι × Answer)} {tr : List ((ι × Answer) × Event)}
    {s : State ι} (hq : program.Meets Undisturbed is initial)
    (h : program.exec is initial = some (tr, s)) : Single s := by
  have hs : Locked s.lock s.pcs := by
    apply hq.invariant (I := fun s : State ι => Locked s.lock s.pcs) ?_ ?_ h
    · exact ⟨fun p => by simp [initial, Pc.holding], fun p q hp => by cases hp⟩
    · rintro s ⟨p, a⟩ e s' hs hun hstep
      obtain ⟨⟨e', k, pc⟩, hcall, he⟩ := Option.map_eq_some_iff.mp hstep
      cases he
      exact hs.step hcall hun
  intro p q hp hq
  exact hs.unique p q (by rw [hp, Bool.or_true]) (by rw [hq, Bool.or_true])

/-! ### Two instances -/

/-- With the lock free a process comes through `already_running`, and the lock is
free again. -/
lemma exists_running {s : State ι} {p : ι} (hs : s.pcs p = .limiting)
    (hk : s.lock = ⟨none⟩) :
    program.Reachable s ⟨⟨none⟩, Function.update s.pcs p .restoringHup⟩ := by
  have h : Machine.alone (fun t => startup t.1 p .ok t.2) 10 (s.lock, s.pcs p)
      = some (⟨none⟩, .restoringHup) := by
    simp [hs, hk, Machine.alone, startup, orExit, lockfile, anyway, RecordLock.setlk,
      RecordLock.drop]
  have hr := Machine.reachable_alone (M := program) (i := (p, .ok))
    (g := fun t => ⟨t.1, Function.update s.pcs p t.2⟩) (fun t => by simp [program]) h
  simpa using hr

/-- Two processes, one after the other: both run. -/
lemma two_running {p q : ι} (hne : p ≠ q) : ∃ s : State ι, program.Reachable initial s
    ∧ (s.pcs p).running = true ∧ (s.pcs q).running = true := by
  have hp := exists_running (s := (initial : State ι)) (p := p) rfl rfl
  have hq := exists_running (s := ⟨⟨none⟩, Function.update (initial : State ι).pcs p
    .restoringHup⟩) (p := q) ((Function.update_of_ne hne.symm _ _).trans rfl) rfl
  refine ⟨_, hp.trans hq, ?_, ?_⟩
  · simp only [Function.update_of_ne hne, Function.update_self]
    rfl
  · simp only [Function.update_self]
    rfl

/-- **The single instance**: in every run in which no process tries the lock while
another one runs there is one, and in all runs only if there is at most one
process. -/
theorem single_iff :
    (∀ is tr (s : State ι), program.exec is initial = some (tr, s) →
        program.Meets Undisturbed is initial → Single s)
      ∧ ((∀ s : State ι, program.Reachable initial s → Single s) ↔ Subsingleton ι) := by
  refine ⟨fun is tr s h hq => single_of_undisturbed hq h, ?_, ?_⟩
  · intro hall
    refine ⟨fun p q => ?_⟩
    by_contra hne
    obtain ⟨s, h, hp, hq⟩ := two_running hne
    exact hne (hall s h p q hp hq)
  · intro _ s _ p q _ _
    exact Subsingleton.elim p q

/-- Two processes: the second one starts when `already_running` has returned `0` in
the first one, and it returns `0` in the second one too. -/
theorem second_instance : ¬ ∀ s : State (Fin 2), program.Reachable initial s → Single s := by
  intro hall
  obtain ⟨s, h, hp, hq⟩ := two_running (p := (0 : Fin 2)) (q := 1) (by decide)
  exact absurd (hall s h 0 1 hp hq) (by decide)

end Daemon

end OperatingSys
