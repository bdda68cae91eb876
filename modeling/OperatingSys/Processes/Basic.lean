import OperatingSys.Foundations.Machine
import OperatingSys.Foundations.Population

/-!
Parents and their children, for the programs of `os_01/lab_04/src`.

A parent is the list of the calls of `fork` and `wait` it makes, its loops unrolled. Where a
`fork` fails it returns `error`, and makes no more of them. A child ends at any time and with
any status, by its `exit` or by a signal. `wait` takes any child that has ended, and fails where
there is no child.

* `program`: the parent and its children, `Step` the list of their steps, of which there are at
  most two for each call (`length_le_of_run`).
* `results`: what the waits return. A status is always that of the child's end
  (`known_run`).
* `report`: what the second loops of `02.c` and `03.c` print about a wait.
-/

namespace OperatingSys

namespace Processes

/-- A call of the parent. -/
inductive Call (κ : Type*) where
  | fork (i : κ)
  | wait

inductive Child where
  | unborn
  | running
  | zombie (status : ℕ)
  | reaped
  deriving DecidableEq

/-- The process is there, running or not yet waited for. -/
def Child.present : Child → Bool
  | .running | .zombie _ => true
  | .unborn | .reaped => false

/-- The calls that the parent has still to make, the child at whose `fork` it has returned
`error`, and the children. -/
structure State (κ : Type*) where
  todo : List (Call κ)
  failed : Option κ
  children : κ → Child

/-- Who moves: the parent, with the answer to `fork` or the child that `wait` finds, or a child
that ends. -/
inductive Mover (κ : Type*) where
  | parent (ok : Bool)
  | reap (i : κ)
  | ends (i : κ) (status : ℕ)

inductive Event (κ : Type*) where
  | forked (i : κ)
  | failed (i : κ)
  | waited (i : κ) (status : ℕ)
  | noChild
  | ended (i : κ) (status : ℕ)

section Program

variable {κ : Type*} [DecidableEq κ] [Fintype κ]

/-- A step of the parent that needs no child to have ended. `wait` fails where there is no
child. -/
def parent (s : State κ) (ok : Bool) : Option (Event κ × State κ) :=
  match s.todo with
  | .fork i :: rest =>
      if s.children i = .unborn then
        if ok then
          some (.forked i,
            { s with todo := rest, children := Function.update s.children i .running })
        else some (.failed i, { s with todo := [], failed := some i })
      else none
  | .wait :: rest =>
      if ∀ i, (s.children i).present = false then some (.noChild, { s with todo := rest })
      else none
  | [] => none

/-- `wait` returns for a child that has ended. -/
def reap (s : State κ) (i : κ) : Option (Event κ × State κ) :=
  match s.todo, s.children i with
  | .wait :: rest, .zombie status =>
      some (.waited i status,
        { s with todo := rest, children := Function.update s.children i .reaped })
  | .wait :: _, .unborn | .wait :: _, .running | .wait :: _, .reaped => none
  | .fork _ :: _, _ | [], _ => none

/-- A child ends. -/
def ends (s : State κ) (i : κ) (status : ℕ) : Option (Event κ × State κ) :=
  if s.children i = .running then
    some (.ended i status, { s with children := Function.update s.children i (.zombie status) })
  else none

/-- The parent and its children. -/
def program : Machine (State κ) (Mover κ) (Event κ) where
  step s
    | .parent ok => parent s ok
    | .reap i => reap s i
    | .ends i status => ends s i status

/-- A parent with its calls, before the first. -/
def started (todo : List (Call κ)) : State κ := ⟨todo, none, fun _ => .unborn⟩

/-! ### One step -/

/-- What a step can be. -/
inductive Step (s : State κ) : Event κ → State κ → Prop
  | forked {i : κ} {rest : List (Call κ)} (h : s.todo = .fork i :: rest)
      (hi : s.children i = .unborn) :
      Step s (.forked i) ⟨rest, s.failed, Function.update s.children i .running⟩
  | failed {i : κ} {rest : List (Call κ)} (h : s.todo = .fork i :: rest)
      (hi : s.children i = .unborn) : Step s (.failed i) ⟨[], some i, s.children⟩
  | noChild {rest : List (Call κ)} (h : s.todo = .wait :: rest)
      (hall : ∀ i, (s.children i).present = false) :
      Step s .noChild ⟨rest, s.failed, s.children⟩
  | waited {i : κ} {status : ℕ} {rest : List (Call κ)} (h : s.todo = .wait :: rest)
      (hi : s.children i = .zombie status) :
      Step s (.waited i status) ⟨rest, s.failed, Function.update s.children i .reaped⟩
  | ended {i : κ} {status : ℕ} (hi : s.children i = .running) :
      Step s (.ended i status) ⟨s.todo, s.failed, Function.update s.children i (.zombie status)⟩

variable {s s' : State κ} {m : Mover κ} {e : Event κ} {tr : List (Mover κ × Event κ)}

lemma step_of_program (h : program.step s m = some (e, s')) : Step s e s' := by
  cases m with
  | parent ok =>
      change parent s ok = some (e, s') at h
      rw [parent] at h
      split at h
      · next i rest htodo =>
          split_ifs at h with hi hok
          · cases h
            exact .forked htodo hi
          · cases h
            exact .failed htodo hi
      · next rest htodo =>
          split_ifs at h with hall
          cases h
          exact .noChild htodo hall
      · cases h
  | reap i =>
      change reap s i = some (e, s') at h
      rw [reap] at h
      split at h
      · next rest status htodo hi =>
          cases h
          exact .waited htodo hi
      all_goals cases h
  | ends i status =>
      change ends s i status = some (e, s') at h
      rw [ends] at h
      split_ifs at h with hi
      cases h
      exact .ended hi

/-- The child runs. -/
def Child.runs : Child → Bool
  | .running => true
  | .unborn | .zombie _ | .reaped => false

/-- The steps that are left at most: a call may fork a child that ends. -/
def State.stepsLeft (s : State κ) : ℕ := 2 * s.todo.length + population Child.runs s.children

lemma stepsLeft_lt (h : program.step s m = some (e, s')) : s'.stepsLeft < s.stepsLeft := by
  have hupdate := population_update Child.runs s.children
  cases step_of_program h with
  | @forked i rest htodo hi =>
      have hruns := hupdate i .running
      rw [hi] at hruns
      simp only [Child.runs, Bool.toNat_false, Bool.toNat_true] at hruns
      simp only [State.stepsLeft, htodo, List.length_cons]
      omega
  | failed htodo hi =>
      simp only [State.stepsLeft, htodo, List.length_cons, List.length_nil]
      omega
  | noChild htodo hall =>
      simp only [State.stepsLeft, htodo, List.length_cons]
      omega
  | @waited i status rest htodo hi =>
      have hruns := hupdate i .reaped
      rw [hi] at hruns
      simp only [Child.runs, Bool.toNat_false] at hruns
      simp only [State.stepsLeft, htodo, List.length_cons]
      omega
  | @ended i status hi =>
      have hruns := hupdate i (.zombie status)
      rw [hi] at hruns
      simp only [Child.runs, Bool.toNat_false, Bool.toNat_true] at hruns
      simp only [State.stepsLeft]
      omega

lemma length_le_of_run {todo : List (Call κ)} (h : program.Run (started todo) tr s) :
    tr.length ≤ 2 * todo.length := by
  calc tr.length
      ≤ (started todo).stepsLeft := h.length_le fun _ _ _ _ => stepsLeft_lt
    _ = 2 * todo.length := by rw [State.stepsLeft, started, population_const Child.runs rfl]; rfl

/-! ### What the waits bring -/

/-- What a call of `wait` has returned, if the step was one. -/
def Event.result : Event κ → Option (Option (κ × ℕ))
  | .waited i status => some (some (i, status))
  | .noChild => some none
  | .forked _ | .failed _ | .ended _ _ => none

/-- The results of the waits, in their order. -/
def results (tr : List (Mover κ × Event κ)) : List (Option (κ × ℕ)) :=
  tr.filterMap fun q => q.2.result

omit [DecidableEq κ] [Fintype κ] in
lemma results_snoc (tr : List (Mover κ × Event κ)) (m : Mover κ) (e : Event κ) :
    results (tr ++ [(m, e)]) = results tr ++ e.result.toList :=
  filterMap_snoc _ tr (m, e)

/-- The child has ended with this status. -/
def EndedWith (tr : List (Mover κ × Event κ)) (i : κ) (status : ℕ) : Prop :=
  ∃ m, (m, Event.ended i status) ∈ tr

/-- What is known of a status: it is that of the child's end. -/
structure Known (tr : List (Mover κ × Event κ)) (s : State κ) : Prop where
  zombie : ∀ i status, s.children i = .zombie status → EndedWith tr i status
  result : ∀ i status, some (i, status) ∈ results tr → EndedWith tr i status

omit [Fintype κ] in
lemma zombie_of_update {f : κ → Child} {i j : κ} {c : Child} {status : ℕ}
    (h : Function.update f i c j = .zombie status) :
    (j = i ∧ c = .zombie status) ∨ f j = .zombie status := by
  by_cases hj : j = i
  · subst hj
    rw [Function.update_self] at h
    exact Or.inl ⟨rfl, h⟩
  · rw [Function.update_of_ne hj] at h
    exact Or.inr h

lemma known_run {todo : List (Call κ)} (h : program.Run (started todo) tr s) : Known tr s := by
  refine h.induct_trace (I := Known) ⟨fun i status hi => ?_, fun i status hi => ?_⟩ ?_
  · cases hi
  · cases hi
  intro tr s m e s' hI hs
  -- what is past stays so
  have hmono : ∀ i status, EndedWith tr i status → EndedWith (tr ++ [(m, e)]) i status :=
    fun i status ⟨m', hm⟩ => ⟨m', List.mem_append_left _ hm⟩
  refine ⟨fun j status hj => ?_, fun j status hj => ?_⟩
  · cases step_of_program hs with
    | forked htodo hi | waited htodo hi =>
        rcases zombie_of_update hj with ⟨-, hc⟩ | hj
        · cases hc
        · exact hmono j status (hI.zombie j status hj)
    | failed htodo hi | noChild htodo hi => exact hmono j status (hI.zombie j status hj)
    | ended hi =>
        rcases zombie_of_update hj with ⟨rfl, hc⟩ | hj
        · cases hc
          exact ⟨m, List.mem_append_right _ (List.mem_singleton.mpr rfl)⟩
        · exact hmono j status (hI.zombie j status hj)
  · -- the child that is found was a zombie
    rw [results_snoc, List.mem_append] at hj
    rcases hj with hj | hj
    · exact hmono j status (hI.result j status hj)
    · cases step_of_program hs with
      | forked | failed | ended | noChild => simp [Event.result] at hj
      | waited htodo hi =>
          rw [Event.result, Option.toList_some, List.mem_singleton] at hj
          cases hj
          exact hmono _ _ (hI.zombie _ _ hi)

/-- A child that is present can end or be waited for. -/
lemma exists_step_of_present {rest : List (Call κ)} {i : κ} (htodo : s.todo = .wait :: rest)
    (hi : (s.children i).present = true) : ¬ program.Stuck s := by
  rw [Machine.stuck_iff]
  intro hstuck
  have hends : ends s i 0 = none := hstuck (.ends i 0)
  have hreap : reap s i = none := hstuck (.reap i)
  rw [ends] at hends
  rw [reap, htodo] at hreap
  generalize s.children i = c at hi hends hreap
  cases c with
  | unborn | reaped => cases hi
  | running => cases hends
  | zombie status => cases hreap

lemma not_stuck_of_fork {rest : List (Call κ)} {i : κ} (htodo : s.todo = .fork i :: rest)
    (hi : s.children i = .unborn) : ¬ program.Stuck s := by
  rw [Machine.stuck_iff]
  intro hstuck
  have hparent : parent s true = none := hstuck (.parent true)
  rw [parent, htodo] at hparent
  dsimp only at hparent
  rw [if_pos hi, if_pos rfl] at hparent
  cases hparent

lemma not_stuck_of_noChild {rest : List (Call κ)} (htodo : s.todo = .wait :: rest)
    (hall : ∀ i, (s.children i).present = false) : ¬ program.Stuck s := by
  rw [Machine.stuck_iff]
  intro hstuck
  have hparent : parent s true = none := hstuck (.parent true)
  rw [parent, htodo] at hparent
  dsimp only at hparent
  rw [if_pos hall] at hparent
  cases hparent

/-- The children that the waits have brought. -/
def waitedFor (tr : List (Mover κ × Event κ)) : List (Option κ) :=
  (results tr).map (Option.map Prod.fst)

/-- What a step adds to them. -/
def Event.found : Event κ → List (Option κ)
  | .waited i _ => [some i]
  | .noChild => [none]
  | .forked _ | .failed _ | .ended _ _ => []

omit [DecidableEq κ] [Fintype κ] in
lemma waitedFor_snoc (tr : List (Mover κ × Event κ)) (m : Mover κ) (e : Event κ) :
    waitedFor (tr ++ [(m, e)]) = waitedFor tr ++ e.found := by
  rw [waitedFor, results_snoc, List.map_append]
  cases e <;> rfl

omit [Fintype κ] in
/-- A child's state after it has ended is present where it was. -/
lemma present_update_zombie {f : κ → Child} {i : κ} {status : ℕ} (hi : f i = .running) (j : κ) :
    (Function.update f i (.zombie status) j).present = (f j).present := by
  by_cases hj : j = i
  · subst hj
    rw [Function.update_self, hi]
    rfl
  · rw [Function.update_of_ne hj]

end Program

/-! ### What is printed about the waits -/

/-- `WIFEXITED`. -/
def wifexited (status : ℕ) : Bool := status &&& 0x7f = 0

/-- `WEXITSTATUS`. -/
def wexitstatus (status : ℕ) : ℕ := (status &&& 0xff00) >>> 8

/-- `WIFSIGNALED`. -/
def wifsignaled (status : ℕ) : Bool := status &&& 0x7f ≠ 0 ∧ status &&& 0x7f ≠ 0x7f

/-- `WTERMSIG`. -/
def wtermsig (status : ℕ) : ℕ := status &&& 0x7f

/-- `WIFSTOPPED`. -/
def wifstopped (status : ℕ) : Bool := status &&& 0xff = 0x7f

/-- `WSTOPSIG`. -/
def wstopsig (status : ℕ) : ℕ := wexitstatus status

/-- What a turn of the second loop prints: `child_pid` and `status`, which are `-1` and
whatever was there where `wait` fails, and the number and the code of the line behind. -/
structure Report (κ : Type*) where
  pid : Option κ
  status : Option ℕ
  line : Option (ℕ × ℕ)

/-- The turn `i` of the second loop, for what `wait` returns. The macros are given `ret_val`. -/
def report {κ : Type*} (i : ℕ) (r : Option (κ × ℕ)) : Report κ :=
  let retVal := 0
  { pid := r.map Prod.fst
    status := r.map Prod.snd
    line :=
      if wifexited retVal then some (i + 1, wexitstatus retVal)
      else if wifsignaled retVal then some (i + 1, wtermsig retVal)
      else if wifstopped retVal then some (i + 1, wstopsig retVal)
      else none }

/-- The second loop, for the results of its waits. -/
def reports {κ : Type*} (rs : List (Option (κ × ℕ))) : List (Report κ) := rs.mapIdx report

lemma map_pid_reports {κ : Type*} (rs : List (Option (κ × ℕ))) :
    (reports rs).map Report.pid = rs.map (Option.map Prod.fst) := by
  refine List.ext_getElem? fun k => ?_
  rw [reports, List.getElem?_map, List.getElem?_mapIdx, List.getElem?_map, Option.map_map]
  rfl

/-- A report is that of one of the waits, and its line always says the same. -/
lemma exists_of_reports {κ : Type*} {rs : List (Option (κ × ℕ))} {k : ℕ} {r : Report κ}
    (h : (reports rs)[k]? = some r) :
    ∃ w ∈ rs, r = ⟨w.map Prod.fst, w.map Prod.snd, some (k + 1, 0)⟩ := by
  rw [reports, List.getElem?_mapIdx, Option.map_eq_some_iff] at h
  obtain ⟨w, hw, rfl⟩ := h
  exact ⟨w, List.mem_of_getElem? hw, rfl⟩

/-! ### Lists of calls -/

lemma drop_finRange {n k : ℕ} (hk : k < n) :
    (List.finRange n).drop k = ⟨k, hk⟩ :: (List.finRange n).drop (k + 1) := by
  rw [List.drop_eq_getElem_cons (by rwa [List.length_finRange]), List.getElem_finRange]
  rfl

lemma drop_finRange_self (n : ℕ) : (List.finRange n).drop n = [] :=
  List.drop_of_length_le List.length_finRange.le

lemma replicate_eq_cons {α : Type*} {k : ℕ} {a b : α} {l : List α}
    (h : List.replicate k a = b :: l) : b = a ∧ 0 < k ∧ l = List.replicate (k - 1) a := by
  cases k with
  | zero => cases h
  | succ k =>
      rw [List.replicate_succ, List.cons.injEq] at h
      exact ⟨h.1.symm, Nat.succ_pos k, h.2.symm⟩

/-- Where only waits are left there is no `fork`. -/
lemma replicate_wait_ne_fork {κ : Type*} (k : ℕ) (i : κ) (rest : List (Call κ)) :
    List.replicate k .wait ≠ .fork i :: rest := by
  intro h
  cases (replicate_eq_cons h).1

end Processes

end OperatingSys
