import OperatingSys.Pipes.ReadMessage

/-!
Messages that wait for a signal, `os_01/lab_04/src/05.c`.

Every process has its own `mode`, which its handler of `SIGINT` sets, and a child starts with
that of the parent. A child writes its message if its `mode` is set when it looks. The parent
waits for all children, closes its write end and reads once into a `buffer` of zeros. Signals
come at any time and to any process: before the handler is installed one kills the parent. Where
a `fork` fails the parent returns, and a child that writes when nobody can read any more is
killed by `SIGPIPE`.

What the parent prints is then exactly the messages of the children that were signalled in
time, themselves or the parent before it forked them (`InTime`), each once and in the order in
which they wrote (`message_of_signalled`).
-/

namespace OperatingSys

namespace Pipes

namespace Signalled

/-- Where a child is. One that leaves has its read end, or has closed it. -/
inductive Child where
  | unborn
  | testing (mode : Bool)
  | closing
  | writing
  | leaving (reads : Bool)
  | zombie
  | reaped
  deriving DecidableEq

/-- The process runs, and has both ends of the pipe but for those it has closed itself. -/
def Child.runs : Child → Bool
  | .testing _ | .closing | .writing | .leaving _ => true
  | .unborn | .zombie | .reaped => false

/-- The process has its read end of the pipe. -/
def Child.reads : Child → Bool
  | .testing _ | .closing => true
  | .leaving reads => reads
  | .unborn | .writing | .zombie | .reaped => false

/-- `sigint_catcher` has run in the process. A `mode` that has been looked at does not matter any
more. -/
def Child.signal : Child → Child
  | .testing _ => .testing true
  | c => c

/-- Where the parent is: in front of `signal`, in its loops with their indices, or behind them.
`done` has the string that is printed. `failed` has returned `fork_error`, and `killed` is by a
signal that came too early. -/
inductive Pc where
  | starting
  | forking (k : ℕ)
  | waiting (k : ℕ)
  | closing
  | reading
  | done (text : Option (List UInt8))
  | failed (k : ℕ)
  | killed

/-- The parent is there, with its read end of the pipe. -/
def Pc.there : Pc → Bool
  | .starting | .forking _ | .waiting _ | .closing | .reading | .done _ => true
  | .failed _ | .killed => false

/-- The parent with its `mode`, the children and the pipe. -/
structure State (n : ℕ) where
  mode : Bool
  pc : Pc
  children : Fin n → Child
  pipe : List UInt8

/-- Who moves: the parent, with the answer to `fork` or the child that `wait` finds, a child, or
a signal for the parent or for a child. -/
inductive Mover (n : ℕ) where
  | parent (ok : Bool)
  | reap (i : Fin n)
  | child (i : Fin n)
  | sigint (who : Option (Fin n))

inductive Event (n : ℕ) where
  | forked (i : Fin n)
  | failed
  | killed
  | goes
  | waited (i : Fin n)
  | noChild
  | closed
  | received (data : List UInt8)
  | tested (i : Fin n)
  | shut (i : Fin n)
  | wrote (i : Fin n)
  | died (i : Fin n)
  | exited (i : Fin n)
  | signalled (who : Option (Fin n))
  deriving DecidableEq

section Program

variable {n : ℕ}

/-- `buffer` after the `read`, as a string. -/
def shown (data : List UInt8) : Option (List UInt8) :=
  cstr (data ++ List.replicate (BUF_SIZE - data.length) 0) 0

/-- A step of the parent, but for a `wait` that finds a child. -/
def parent (s : State n) (ok : Bool) : Option (Event n × State n) :=
  match s.pc with
  | .starting => some (.goes, { s with pc := .forking 0 })
  | .forking k =>
      if h : k < n then
        if ok then
          some (.forked ⟨k, h⟩, { s with
            children := Function.update s.children ⟨k, h⟩ (.testing s.mode)
            pc := .forking (k + 1) })
        else some (.failed, { s with pc := .failed k })
      else some (.goes, { s with pc := .waiting 0 })
  | .waiting k =>
      if k < n then
        if ∀ i, s.children i = .unborn ∨ s.children i = .reaped then
          some (.noChild, { s with pc := .waiting (k + 1) })
        else none
      else some (.goes, { s with pc := .closing })
  | .closing => some (.closed, { s with pc := .reading })
  | .reading =>
      if s.pipe = [] ∧ ∃ i, (s.children i).runs = true then none
      else
        some (.received (s.pipe.take BUF_SIZE), { s with
          pc := .done (shown (s.pipe.take BUF_SIZE))
          pipe := s.pipe.drop BUF_SIZE })
  | .done _ | .failed _ | .killed => none

/-- `wait` returns for a child that has ended. -/
def reap (s : State n) (i : Fin n) : Option (Event n × State n) :=
  match s.pc, s.children i with
  | .waiting k, .zombie =>
      if k < n then
        some (.waited i, { s with
          children := Function.update s.children i .reaped
          pc := .waiting (k + 1) })
      else none
  | _, _ => none

/-- Somebody can read what is written to the pipe. -/
def State.hasReader (s : State n) : Prop :=
  s.pc.there = true ∨ ∃ i, (s.children i).reads = true

instance (s : State n) : Decidable s.hasReader := inferInstanceAs (Decidable (_ ∨ _))

/-- A step of a child. -/
def child (msg : Fin n → List UInt8) (s : State n) (i : Fin n) : Option (Event n × State n) :=
  match s.children i with
  | .testing true => some (.tested i, { s with children := Function.update s.children i .closing })
  | .testing false =>
      some (.tested i, { s with children := Function.update s.children i (.leaving true) })
  | .closing => some (.shut i, { s with children := Function.update s.children i .writing })
  | .writing =>
      if s.hasReader then
        some (.wrote i, { s with
          children := Function.update s.children i (.leaving false)
          pipe := s.pipe ++ msg i })
      else some (.died i, { s with children := Function.update s.children i .zombie })
  | .leaving _ => some (.exited i, { s with children := Function.update s.children i .zombie })
  | .unborn | .zombie | .reaped => none

/-- `SIGINT` for the parent or for a child that runs. -/
def sigint (s : State n) : Option (Fin n) → Option (Event n × State n)
  | none =>
      match s.pc with
      | .starting => some (.killed, { s with pc := .killed })
      | .forking _ | .waiting _ | .closing | .reading | .done _ =>
          some (.signalled none, { s with mode := true })
      | .failed _ | .killed => none
  | some i =>
      if (s.children i).runs then
        some (.signalled (some i), { s with
          children := Function.update s.children i (s.children i).signal })
      else none

/-- All processes, for the messages `msg`. -/
def program (msg : Fin n → List UInt8) : Machine (State n) (Mover n) (Event n) where
  step s
    | .parent ok => parent s ok
    | .reap i => reap s i
    | .child i => child msg s i
    | .sigint who => sigint s who

/-- The parent begins. -/
def started : State n := ⟨false, .starting, fun _ => .unborn, []⟩

/-! ### One step -/

/-- What a step can be. -/
inductive Step (msg : Fin n → List UInt8) (s : State n) : Event n → State n → Prop
  | installed (hpc : s.pc = .starting) : Step msg s .goes { s with pc := .forking 0 }
  | forked {k : ℕ} (hpc : s.pc = .forking k) (hk : k < n) : Step msg s (.forked ⟨k, hk⟩) { s with
      children := Function.update s.children ⟨k, hk⟩ (.testing s.mode)
      pc := .forking (k + 1) }
  | failed {k : ℕ} (hpc : s.pc = .forking k) (hk : k < n) :
      Step msg s .failed { s with pc := .failed k }
  | toWaits {k : ℕ} (hpc : s.pc = .forking k) (hk : ¬ k < n) :
      Step msg s .goes { s with pc := .waiting 0 }
  | noChild {k : ℕ} (hpc : s.pc = .waiting k) (hk : k < n)
      (hall : ∀ i, s.children i = .unborn ∨ s.children i = .reaped) :
      Step msg s .noChild { s with pc := .waiting (k + 1) }
  | waited {k : ℕ} {i : Fin n} (hpc : s.pc = .waiting k) (hk : k < n)
      (hi : s.children i = .zombie) : Step msg s (.waited i) { s with
        children := Function.update s.children i .reaped
        pc := .waiting (k + 1) }
  | toClose {k : ℕ} (hpc : s.pc = .waiting k) (hk : ¬ k < n) :
      Step msg s .goes { s with pc := .closing }
  | closed (hpc : s.pc = .closing) : Step msg s .closed { s with pc := .reading }
  | received (hpc : s.pc = .reading) : Step msg s (.received (s.pipe.take BUF_SIZE)) { s with
      pc := .done (shown (s.pipe.take BUF_SIZE))
      pipe := s.pipe.drop BUF_SIZE }
  | tested {i : Fin n} {mode : Bool} (hi : s.children i = .testing mode) :
      Step msg s (.tested i) { s with
        children := Function.update s.children i (if mode then .closing else .leaving true) }
  | shut {i : Fin n} (hi : s.children i = .closing) : Step msg s (.shut i) { s with
      children := Function.update s.children i .writing }
  | wrote {i : Fin n} (hi : s.children i = .writing) : Step msg s (.wrote i) { s with
      children := Function.update s.children i (.leaving false)
      pipe := s.pipe ++ msg i }
  | died {i : Fin n} (hi : s.children i = .writing) (hread : ¬ s.hasReader) :
      Step msg s (.died i) { s with children := Function.update s.children i .zombie }
  | exited {i : Fin n} {reads : Bool} (hi : s.children i = .leaving reads) :
      Step msg s (.exited i) { s with children := Function.update s.children i .zombie }
  | killed (hpc : s.pc = .starting) : Step msg s .killed { s with pc := .killed }
  | parentSignalled (hpc : s.pc.there = true) :
      Step msg s (.signalled none) { s with mode := true }
  | childSignalled {i : Fin n} (hi : (s.children i).runs = true) :
      Step msg s (.signalled (some i)) { s with
        children := Function.update s.children i (s.children i).signal }

variable {msg : Fin n → List UInt8} {s s' : State n} {m : Mover n} {e : Event n}

lemma step_of_parent {ok : Bool} (h : parent s ok = some (e, s')) : Step msg s e s' := by
  rw [parent] at h
  split at h
  · next hpc =>
      cases h
      exact .installed hpc
  · next k hpc =>
      split_ifs at h with hk hok
      · cases h
        exact .forked hpc hk
      · cases h
        exact .failed hpc hk
      · cases h
        exact .toWaits hpc hk
  · next k hpc =>
      split_ifs at h with hk hall
      · cases h
        exact .noChild hpc hk hall
      · cases h
        exact .toClose hpc hk
  · next hpc =>
      cases h
      exact .closed hpc
  · next hpc =>
      split_ifs at h
      cases h
      exact .received hpc
  all_goals cases h

lemma step_of_reap {i : Fin n} (h : reap s i = some (e, s')) : Step msg s e s' := by
  rw [reap] at h
  split at h
  · next k hpc hi =>
      split_ifs at h with hk
      cases h
      exact .waited hpc hk hi
  · cases h

lemma step_of_child {i : Fin n} (h : child msg s i = some (e, s')) : Step msg s e s' := by
  rw [child] at h
  split at h
  · next hi =>
      cases h
      exact .tested hi
  · next hi =>
      cases h
      exact .tested hi
  · next hi =>
      cases h
      exact .shut hi
  · next hi =>
      split_ifs at h with hread
      · cases h
        exact .wrote hi
      · cases h
        exact .died hi hread
  · next hi =>
      cases h
      exact .exited hi
  all_goals cases h

lemma step_of_sigint {who : Option (Fin n)} (h : sigint s who = some (e, s')) :
    Step msg s e s' := by
  cases who with
  | none =>
      rw [sigint] at h
      split at h
      · next hpc =>
          cases h
          exact .killed hpc
      all_goals
        try cases h
      all_goals
        next hpc => exact .parentSignalled (by rw [hpc]; rfl)
  | some i =>
      rw [sigint] at h
      split_ifs at h with hi
      cases h
      exact .childSignalled hi

lemma step_of_program (h : (program msg).step s m = some (e, s')) : Step msg s e s' := by
  cases m with
  | parent ok => exact step_of_parent h
  | reap i => exact step_of_reap h
  | child i => exact step_of_child h
  | sigint who => exact step_of_sigint h

/-! ### Signals in time -/

/-- The child has been forked, and `SIGINT` has come to it, or to the parent before. -/
def Reached (i : Fin n) (es : List (Event n)) : Prop :=
  ∃ before after, es = before ++ .forked i :: after
    ∧ (.signalled none ∈ before ∨ .signalled (some i) ∈ after)

/-- The child's `mode` was set when it looked. -/
def InTime (i : Fin n) (es : List (Event n)) : Prop :=
  ∃ before after, es = before ++ .tested i :: after ∧ Reached i before

variable {es : List (Event n)} {i : Fin n}

lemma snoc_eq_cut_iff {α : Type*} {l before after : List α} {x p : α} :
    l ++ [x] = before ++ p :: after ↔ (after = [] ∧ l = before ∧ x = p)
      ∨ ∃ rest, after = rest ++ [x] ∧ l = before ++ p :: rest := by
  constructor
  · intro h
    induction after using List.reverseRecOn with
    | nil =>
        obtain ⟨rfl, hx⟩ := List.append_inj' h rfl
        exact Or.inl ⟨rfl, rfl, List.singleton_inj.mp hx⟩
    | append_singleton rest y _ =>
        rw [← List.cons_append, ← List.append_assoc] at h
        obtain ⟨rfl, hx⟩ := List.append_inj' h rfl
        rw [List.singleton_inj.mp hx]
        exact Or.inr ⟨rest, rfl, rfl⟩
  · rintro (⟨rfl, rfl, rfl⟩ | ⟨rest, rfl, rfl⟩)
    · rfl
    · rw [List.append_assoc, List.cons_append]

lemma reached_snoc : Reached i (es ++ [e]) ↔ Reached i es
    ∨ (e = .forked i ∧ .signalled none ∈ es) ∨ (e = .signalled (some i) ∧ .forked i ∈ es) := by
  constructor
  · rintro ⟨before, after, heq, hsig⟩
    rcases snoc_eq_cut_iff.mp heq with ⟨rfl, rfl, rfl⟩ | ⟨rest, rfl, rfl⟩
    · exact Or.inr (Or.inl ⟨rfl, hsig.resolve_right List.not_mem_nil⟩)
    · rw [List.mem_append, List.mem_singleton] at hsig
      rcases hsig with hsig | hsig | hsig
      · exact Or.inl ⟨before, rest, rfl, Or.inl hsig⟩
      · exact Or.inl ⟨before, rest, rfl, Or.inr hsig⟩
      · exact Or.inr (Or.inr ⟨hsig.symm, by simp⟩)
  · rintro (⟨before, after, rfl, hsig⟩ | ⟨rfl, hsig⟩ | ⟨rfl, hfork⟩)
    · exact ⟨before, after ++ [e], by simp, hsig.imp id (List.mem_append_left _)⟩
    · exact ⟨es, [], rfl, Or.inl hsig⟩
    · obtain ⟨before, after, rfl⟩ := List.append_of_mem hfork
      exact ⟨before, after ++ [.signalled (some i)], by simp, Or.inr (by simp)⟩

lemma inTime_snoc : InTime i (es ++ [e]) ↔ InTime i es ∨ (e = .tested i ∧ Reached i es) := by
  constructor
  · rintro ⟨before, after, heq, hreached⟩
    rcases snoc_eq_cut_iff.mp heq with ⟨rfl, rfl, rfl⟩ | ⟨rest, rfl, rfl⟩
    · exact Or.inr ⟨rfl, hreached⟩
    · exact Or.inl ⟨before, rest, rfl, hreached⟩
  · rintro (⟨before, after, rfl, hreached⟩ | ⟨rfl, hreached⟩)
    · exact ⟨before, after ++ [e], by simp, hreached⟩
    · exact ⟨es, [], rfl, hreached⟩

lemma InTime.tested (h : InTime i es) : .tested i ∈ es := by
  obtain ⟨before, after, rfl, -⟩ := h
  simp

/-! ### The invariant -/

/-- What the past says of a child. -/
def Kept (i : Fin n) (es : List (Event n)) : Child → Prop
  | .unborn => .forked i ∉ es ∧ .tested i ∉ es ∧ .wrote i ∉ es
  | .testing mode => .forked i ∈ es ∧ (mode = true ↔ Reached i es) ∧ .tested i ∉ es ∧ .wrote i ∉ es
  | .closing | .writing => InTime i es ∧ .wrote i ∉ es
  | .leaving _ | .zombie | .reaped => .wrote i ∈ es ↔ InTime i es

/-- The child that an event is about, as far as `Kept` says something of it. -/
def Event.subject : Event n → Option (Fin n)
  | .forked i | .tested i | .wrote i => some i
  | .signalled who => who
  | .failed | .killed | .goes | .waited _ | .noChild | .closed | .received _ | .shut _ | .died _
  | .exited _ => none

/-- An event that is not about the child changes nothing for it. -/
lemma Kept.snoc {c : Child} (h : Kept i es c) (hs : e.subject ≠ some i) :
    Kept i (es ++ [e]) c := by
  have hne : e ≠ .forked i ∧ e ≠ .tested i ∧ e ≠ .wrote i ∧ e ≠ .signalled (some i) := by
    refine ⟨?_, ?_, ?_, ?_⟩ <;> exact fun he => hs (by rw [he]; rfl)
  obtain ⟨hf, ht, hw, hsig⟩ := hne
  have hreached : Reached i (es ++ [e]) ↔ Reached i es := by
    rw [reached_snoc]
    simp [hf, hsig]
  have htime : InTime i (es ++ [e]) ↔ InTime i es := by
    rw [inTime_snoc]
    simp [ht]
  cases c <;> simp only [Kept, hreached, htime, List.mem_append, List.mem_singleton, hf.symm,
    ht.symm, hw.symm, or_false] at h ⊢ <;> exact h

/-- A step that changes one child and is about no other. -/
lemma kept_update {f : Fin n → Child} {c : Child} (hall : ∀ j, Kept j es (f j))
    (hi : Kept i (es ++ [e]) c) (hs : ∀ j, e.subject = some j → j = i) (j : Fin n) :
    Kept j (es ++ [e]) (Function.update f i c j) := by
  by_cases hj : j = i
  · subst hj
    rwa [Function.update_self]
  · rw [Function.update_of_ne hj]
    exact (hall j).snoc fun h => hj (hs j h)

lemma Kept.forked {mode : Bool} (h : Kept i es .unborn) (hm : mode = true ↔ .signalled none ∈ es) :
    Kept i (es ++ [.forked i]) (.testing mode) := by
  obtain ⟨hfork, htest, hwrote⟩ := h
  have hnot : ¬ Reached i es := by
    rintro ⟨before, after, rfl, -⟩
    simp at hfork
  refine ⟨by simp, ?_, by simpa using htest, by simpa using hwrote⟩
  rw [hm, reached_snoc]
  simp [hnot]

lemma Kept.tested {mode : Bool} (h : Kept i es (.testing mode)) :
    Kept i (es ++ [.tested i]) (if mode then .closing else .leaving true) := by
  obtain ⟨-, hmode, htest, hwrote⟩ := h
  have htime : InTime i (es ++ [.tested i]) ↔ mode = true := by
    rw [inTime_snoc, hmode]
    exact ⟨fun h => h.elim (fun ht => absurd ht.tested htest) And.right, fun h => Or.inr ⟨rfl, h⟩⟩
  cases mode with
  | true => exact ⟨htime.mpr rfl, by simpa using hwrote⟩
  | false =>
      refine iff_of_false (by simpa using hwrote) fun h => ?_
      cases htime.mp h

lemma Kept.wrote (h : Kept i es .writing) : Kept i (es ++ [.wrote i]) (.leaving false) :=
  iff_of_true (by simp) (inTime_snoc.mpr (Or.inl h.1))

lemma Kept.signalled {c : Child} (h : Kept i es c) (hc : c.runs = true) :
    Kept i (es ++ [.signalled (some i)]) c.signal := by
  have htime : InTime i (es ++ [.signalled (some i)]) ↔ InTime i es := by
    rw [inTime_snoc]
    simp
  cases c with
  | testing mode =>
      obtain ⟨hfork, -, htest, hwrote⟩ := h
      refine ⟨List.mem_append_left _ hfork, iff_of_true rfl ?_, by simpa using htest,
        by simpa using hwrote⟩
      exact reached_snoc.mpr (Or.inr (Or.inr ⟨rfl, hfork⟩))
  | closing | writing => exact ⟨htime.mpr h.1, by simpa using h.2⟩
  | leaving reads =>
      have hiff : .wrote i ∈ es ↔ InTime i es := h
      show _ ↔ _
      rw [htime, ← hiff]
      simp
  | unborn | zombie | reaped => cases hc

/-- The children that have written, in this order. -/
def writers (es : List (Event n)) : List (Fin n) :=
  es.filterMap fun
    | .wrote i => some i
    | _ => none

/-- What has come into the pipe. -/
def arrived (msg : Fin n → List UInt8) (es : List (Event n)) : List UInt8 :=
  (writers es).flatMap msg

lemma mem_writers : i ∈ writers es ↔ .wrote i ∈ es := by
  rw [writers, List.mem_filterMap]
  constructor
  · rintro ⟨e, he, hi⟩
    cases e <;> cases hi
    exact he
  · exact fun h => ⟨_, h, rfl⟩

/-- The child is still to be waited for. -/
def Child.owed (c : Child) : Bool := c ≠ .reaped

/-- What the place of the parent says of the others. -/
def Place (msg : Fin n → List UInt8) (es : List (Event n)) (s : State n) : Prop :=
  match s.pc with
  | .starting => (∀ i, s.children i = .unborn) ∧ population Child.owed s.children = n
      ∧ s.pipe = arrived msg es
  | .forking k => k ≤ n ∧ (∀ i, s.children i = .unborn ↔ k ≤ i)
      ∧ population Child.owed s.children = n ∧ s.pipe = arrived msg es
  | .waiting k => (∀ i, s.children i ≠ .unborn)
      ∧ population Child.owed s.children + k = n ∧ s.pipe = arrived msg es
  | .closing | .reading => population Child.owed s.children = 0 ∧ s.pipe = arrived msg es
  | .done text => population Child.owed s.children = 0
      ∧ text = shown ((arrived msg es).take BUF_SIZE)
  | .failed _ | .killed => False

/-- **The invariant of a run** with the events `es`, as long as the parent has not been killed and
no `fork` has failed. -/
structure Inv (msg : Fin n → List UInt8) (es : List (Event n)) (s : State n) : Prop where
  mode : s.mode = true ↔ .signalled none ∈ es
  kept : ∀ i, Kept i es (s.children i)
  nodup : (writers es).Nodup
  place : Place msg es s

/-- The parent is there, so somebody can read. -/
lemma Inv.hasReader (h : Inv msg es s) : s.hasReader := by
  have hplace := h.place
  rw [Place] at hplace
  refine Or.inl ?_
  cases hpc : s.pc with
  | failed k | killed =>
      rw [hpc] at hplace
      cases hplace
  | starting | forking k | waiting k | closing | reading | done text => rfl

lemma Step.mode_iff (h : Step msg s e s') :
    s'.mode = true ↔ s.mode = true ∨ e = .signalled none := by
  cases h <;> simp

/-- A step keeps what the past says of the children. -/
lemma Inv.kept_step (h : Inv msg es s) (hs : Step msg s e s') (i : Fin n) :
    Kept i (es ++ [e]) (s'.children i) := by
  cases hs with
  | @forked k hpc hk =>
      have hplace := h.place
      rw [Place, hpc] at hplace
      have hkept := h.kept ⟨k, hk⟩
      rw [(hplace.2.1 ⟨k, hk⟩).mpr le_rfl] at hkept
      exact kept_update h.kept (hkept.forked h.mode) (fun j hj => (Option.some.inj hj).symm) i
  | installed | failed | toWaits | noChild | toClose | closed | received | killed
  | parentSignalled => exact (h.kept i).snoc (by simp [Event.subject])
  | @waited k j hpc hk hj =>
      have hkept : Kept j es .zombie := hj ▸ h.kept j
      have hkept' : Kept j (es ++ [.waited j]) .reaped := hkept.snoc (by simp [Event.subject])
      exact kept_update h.kept hkept' (by simp [Event.subject]) i
  | @tested j mode hj =>
      have hkept : Kept j es (.testing mode) := hj ▸ h.kept j
      exact kept_update h.kept hkept.tested (fun l hl => (Option.some.inj hl).symm) i
  | @shut j hj =>
      have hkept : Kept j es .closing := hj ▸ h.kept j
      have hkept' : Kept j (es ++ [.shut j]) .writing :=
        Kept.snoc (c := .writing) hkept (by simp [Event.subject])
      exact kept_update h.kept hkept' (by simp [Event.subject]) i
  | @wrote j hj =>
      have hkept : Kept j es .writing := hj ▸ h.kept j
      exact kept_update h.kept hkept.wrote (fun l hl => (Option.some.inj hl).symm) i
  | died hj hread => exact absurd h.hasReader hread
  | @exited j reads hj =>
      have hkept : Kept j es (.leaving reads) := hj ▸ h.kept j
      have hkept' : Kept j (es ++ [.exited j]) .zombie := hkept.snoc (by simp [Event.subject])
      exact kept_update h.kept hkept' (by simp [Event.subject]) i
  | @childSignalled j hj =>
      exact kept_update h.kept ((h.kept j).signalled hj) (fun l hl => (Option.some.inj hl).symm) i

/-- What an event adds to the writers. -/
def Event.writer : Event n → List (Fin n)
  | .wrote i => [i]
  | _ => []

lemma writers_snoc (es : List (Event n)) (e : Event n) :
    writers (es ++ [e]) = writers es ++ e.writer := by
  rw [writers, List.filterMap_append]
  cases e <;> rfl

lemma Inv.nodup_step (h : Inv msg es s) (hs : Step msg s e s') : (writers (es ++ [e])).Nodup := by
  rw [writers_snoc]
  cases hs with
  | @wrote i hi =>
      have hkept : Kept i es .writing := hi ▸ h.kept i
      refine List.nodup_append.mpr ⟨h.nodup, List.nodup_singleton i, fun a ha b hb => ?_⟩
      rw [List.mem_singleton.mp hb]
      exact fun heq => hkept.2 (mem_writers.mp (heq ▸ ha))
  | _ => simpa [Event.writer] using h.nodup

lemma arrived_snoc (msg : Fin n → List UInt8) (es : List (Event n)) (e : Event n) :
    arrived msg (es ++ [e]) = arrived msg es ++ e.writer.flatMap msg := by
  rw [arrived, writers_snoc, List.flatMap_append, arrived]

/-- Where all have been waited for no child runs. -/
lemma not_runs_of_owed {f : Fin n → Child} (h : population Child.owed f = 0) (i : Fin n) :
    (f i).runs = false := by
  have hi := population_eq_zero.mp h i
  rw [Child.owed, decide_eq_false_iff_not, not_not] at hi
  rw [hi]
  rfl

lemma owed_of_runs {c : Child} (h : c.runs = true) : c.owed = true ∧ c ≠ .unborn := by
  cases c with
  | testing mode | closing | writing | leaving reads => exact ⟨rfl, nofun⟩
  | unborn | zombie | reaped => cases h

lemma runs_signal {c : Child} (h : c.runs = true) : c.signal.runs = true := by
  cases c with
  | testing mode | closing | writing | leaving reads => rfl
  | unborn | zombie | reaped => cases h

/-- A child that is there takes a step: the others are there or not as before. -/
lemma unborn_update {f : Fin n → Child} {c : Child} (hi : f i ≠ .unborn) (hc : c ≠ .unborn)
    (j : Fin n) : Function.update f i c j = .unborn ↔ f j = .unborn := by
  by_cases hj : j = i
  · subst hj
    rw [Function.update_self]
    exact iff_of_false hc hi
  · rw [Function.update_of_ne hj]

/-- A child that runs takes a step, and is still to be waited for. -/
lemma Place.child (h : Place msg es s) {c : Child} {pipe : List UInt8}
    (hi : (s.children i).runs = true) (hc : c.owed = true ∧ c ≠ .unborn)
    (hpipe : pipe = s.pipe ++ e.writer.flatMap msg) : Place msg (es ++ [e])
      { s with children := Function.update s.children i c, pipe := pipe } := by
  -- the child was still to be waited for, and is so now
  have howed : population Child.owed (Function.update s.children i c)
      = population Child.owed s.children := by
    have hupdate := population_update Child.owed s.children i c
    rw [hc.1, (owed_of_runs hi).1] at hupdate
    exact Nat.add_right_cancel hupdate
  have hunborn := unborn_update (owed_of_runs hi).2 hc.2
  rw [Place] at h ⊢
  dsimp only
  cases hpc : s.pc with
  | starting =>
      rw [hpc] at h
      exact absurd (h.1 i) (owed_of_runs hi).2
  | forking k =>
      rw [hpc] at h
      obtain ⟨hk, hnew, hall, harr⟩ := h
      refine ⟨hk, fun j => (hunborn j).trans (hnew j), howed.trans hall, ?_⟩
      rw [hpipe, harr, arrived_snoc]
  | waiting k =>
      rw [hpc] at h
      obtain ⟨hold, hall, harr⟩ := h
      refine ⟨fun j => mt (hunborn j).mp (hold j), by rw [howed, hall], ?_⟩
      rw [hpipe, harr, arrived_snoc]
  | closing | reading | done text =>
      -- all children have been waited for, so none of them runs
      rw [hpc] at h
      rw [not_runs_of_owed h.1 i] at hi
      cases hi
  | failed k | killed =>
      rw [hpc] at h
      exact h

lemma Inv.place_step (h : Inv msg es s) (hs : Step msg s e s') (hthere : s'.pc.there = true) :
    Place msg (es ++ [e]) s' := by
  have hplace := h.place
  have hkeep : e.writer = [] → arrived msg (es ++ [e]) = arrived msg es := fun he => by
    rw [arrived_snoc, he, List.flatMap_nil, List.append_nil]
  cases hs with
  | installed hpc =>
      rw [Place, hpc] at hplace
      obtain ⟨hnew, hall, harr⟩ := hplace
      exact ⟨Nat.zero_le n, fun i => iff_of_true (hnew i) (Nat.zero_le _), hall,
        by rw [hkeep rfl]; exact harr⟩
  | failed hpc hk | killed hpc => cases hthere
  | @forked k hpc hk =>
      rw [Place, hpc] at hplace
      obtain ⟨-, hnew, hall, harr⟩ := hplace
      refine ⟨hk, fun i => ?_, ?_, by rw [hkeep rfl]; exact harr⟩
      · by_cases hi : i = ⟨k, hk⟩
        · subst hi
          simp
        · have hne : (i : ℕ) ≠ k := fun heq => hi (Fin.ext heq)
          dsimp only
          rw [Function.update_of_ne hi, hnew i]
          omega
      · have hupdate := population_update Child.owed s.children ⟨k, hk⟩ (.testing s.mode)
        rw [(hnew ⟨k, hk⟩).mpr le_rfl, hall] at hupdate
        exact Nat.add_right_cancel hupdate
  | toWaits hpc hk =>
      rw [Place, hpc] at hplace
      obtain ⟨-, hnew, hall, harr⟩ := hplace
      refine ⟨fun i hi => hk (((hnew i).mp hi).trans_lt i.isLt), hall, ?_⟩
      rw [hkeep rfl]
      exact harr
  | noChild hpc hk hall =>
      rw [Place, hpc] at hplace
      obtain ⟨hold, howed, -⟩ := hplace
      -- nobody would be there any more, but a `wait` is left for somebody
      have hzero : population Child.owed s.children = 0 := population_eq_zero.mpr fun i => by
        rw [(hall i).resolve_left (hold i)]
        rfl
      omega
  | @waited k i hpc hk hi =>
      rw [Place, hpc] at hplace
      obtain ⟨hold, howed, harr⟩ := hplace
      have hupdate := population_update Child.owed s.children i .reaped
      rw [hi] at hupdate
      refine ⟨fun j => ?_, ?_, by rw [hkeep rfl]; exact harr⟩
      · by_cases hj : j = i
        · subst hj
          simp
        · dsimp only
          rw [Function.update_of_ne hj]
          exact hold j
      · -- one child fewer is to be waited for
        have hone : Child.owed .zombie = true := rfl
        have hnone : Child.owed .reaped = false := rfl
        rw [hone, hnone, Bool.toNat_true, Bool.toNat_false] at hupdate
        dsimp only
        omega
  | toClose hpc hk =>
      rw [Place, hpc] at hplace
      obtain ⟨-, howed, harr⟩ := hplace
      have hzero : population Child.owed s.children = 0 := by omega
      exact ⟨hzero, by rw [hkeep rfl]; exact harr⟩
  | closed hpc =>
      rw [Place, hpc] at hplace
      exact ⟨hplace.1, by rw [hkeep rfl]; exact hplace.2⟩
  | received hpc =>
      rw [Place, hpc] at hplace
      exact ⟨hplace.1, by rw [hkeep rfl, ← hplace.2]⟩
  | @tested i mode hi =>
      refine hplace.child (by rw [hi]; rfl) ?_ (List.append_nil _).symm
      cases mode <;> exact ⟨rfl, nofun⟩
  | shut hi => exact hplace.child (by rw [hi]; rfl) ⟨rfl, nofun⟩ (List.append_nil _).symm
  | wrote hi =>
      refine hplace.child (by rw [hi]; rfl) ⟨rfl, nofun⟩ ?_
      rw [Event.writer, List.flatMap_singleton]
  | died hi hread => exact absurd h.hasReader hread
  | exited hi => exact hplace.child (by rw [hi]; rfl) ⟨rfl, nofun⟩ (List.append_nil _).symm
  | parentSignalled =>
      rw [Place, hkeep rfl]
      exact hplace
  | @childSignalled i hi =>
      exact hplace.child hi (owed_of_runs (runs_signal hi)) (List.append_nil _).symm

lemma Inv.step (h : Inv msg es s) (hs : Step msg s e s') (hthere : s'.pc.there = true) :
    Inv msg (es ++ [e]) s' where
  mode := by
    rw [hs.mode_iff, h.mode, List.mem_append, List.mem_singleton, eq_comm (a := e)]
  kept := h.kept_step hs
  nodup := h.nodup_step hs
  place := h.place_step hs hthere

/-! ### A parent that has gone -/

/-- The parent has been killed before it forked, or has returned at the `fork` of the child `k`. -/
inductive Gone (s : State n) : Prop
  | killed (hpc : s.pc = .killed) (hnone : ∀ i, s.children i = .unborn)
  | failed (k : ℕ) (hpc : s.pc = .failed k) (hborn : ∀ i, s.children i = .unborn ↔ k ≤ i)

/-- Where the parent has gone only children move. -/
lemma Step.of_gone (hs : Step msg s e s') (hgone : s.pc.there = false) :
    s'.pc = s.pc ∧ ∃ i c, s.children i ≠ .unborn ∧ c ≠ .unborn
      ∧ s'.children = Function.update s.children i c := by
  cases hs with
  | installed hpc | forked hpc | failed hpc | toWaits hpc | noChild hpc | waited hpc | toClose hpc
  | closed hpc | received hpc | killed hpc | parentSignalled hpc =>
      rw [hpc] at hgone
      cases hgone
  | @tested i mode hi =>
      refine ⟨rfl, i, _, by rw [hi]; exact nofun, ?_, rfl⟩
      cases mode <;> exact nofun
  | @shut i hi | @wrote i hi | @died i hi | @exited i _ hi =>
      refine ⟨rfl, i, _, by rw [hi]; exact nofun, ?_, rfl⟩
      exact nofun
  | @childSignalled i hi =>
      exact ⟨rfl, i, _, (owed_of_runs hi).2, (owed_of_runs (runs_signal hi)).2, rfl⟩

lemma Gone.step (h : Gone s) (hs : Step msg s e s') : Gone s' := by
  cases h with
  | killed hpc hnone =>
      obtain ⟨-, i, c, hi, -⟩ := hs.of_gone (by rw [hpc]; rfl)
      exact absurd (hnone i) hi
  | failed k hpc hborn =>
      obtain ⟨hsame, i, c, hi, hc, hchildren⟩ := hs.of_gone (by rw [hpc]; rfl)
      refine .failed k (hsame.trans hpc) fun j => ?_
      rw [hchildren, unborn_update hi hc, hborn]

/-- The parent goes. -/
lemma Inv.gone (h : Inv msg es s) (hs : Step msg s e s') (hthere : s'.pc.there = false) :
    Gone s' := by
  have hplace := h.place
  rw [Place] at hplace
  cases hs with
  | @failed k hpc hk =>
      rw [hpc] at hplace
      exact .failed k rfl hplace.2.1
  | killed hpc =>
      rw [hpc] at hplace
      exact .killed rfl hplace.1
  | installed | forked | toWaits | noChild | waited | toClose | closed | received => cases hthere
  | parentSignalled hpc =>
      have hnot : s.pc.there = false := hthere
      rw [hpc] at hnot
      cases hnot
  | tested | shut | wrote | died | exited | childSignalled =>
      have hnot : s.pc.there = false := hthere
      cases hpc : s.pc with
      | failed k | killed =>
          rw [hpc] at hplace
          cases hplace
      | starting | forking k | waiting k | closing | reading | done text =>
          rw [hpc] at hnot
          cases hnot

variable {tr : List (Mover n × Event n)}

lemma inv_started (msg : Fin n → List UInt8) : Inv msg [] started where
  mode := by simp [started]
  kept i := ⟨List.not_mem_nil, List.not_mem_nil, List.not_mem_nil⟩
  nodup := List.nodup_nil
  place := by
    refine ⟨fun i => rfl, ?_, rfl⟩
    simp [population, started, Child.owed]

lemma inv_run (h : (program msg).Run started tr s) :
    (s.pc.there = true ∧ Inv msg (tr.map Prod.snd) s) ∨ (s.pc.there = false ∧ Gone s) := by
  refine h.induct_trace (I := fun tr (s : State n) =>
    (s.pc.there = true ∧ Inv msg (tr.map Prod.snd) s) ∨ (s.pc.there = false ∧ Gone s))
    (Or.inl ⟨rfl, inv_started msg⟩) ?_
  intro tr s m e s' hI hs
  have hstep := step_of_program hs
  rw [List.map_append]
  rcases hI with ⟨-, hinv⟩ | ⟨hgone, hrest⟩
  · cases hthere : s'.pc.there with
    | true => exact Or.inl ⟨rfl, hinv.step hstep hthere⟩
    | false => exact Or.inr ⟨rfl, hinv.gone hstep hthere⟩
  · rw [(hstep.of_gone hgone).1]
    exact Or.inr ⟨hgone, hrest.step hstep⟩

lemma inv_of_there (h : (program msg).Run started tr s) (hthere : s.pc.there = true) :
    Inv msg (tr.map Prod.snd) s := by
  rcases inv_run h with ⟨-, hinv⟩ | ⟨hgone, -⟩
  · exact hinv
  · rw [hthere] at hgone
    cases hgone

lemma gone_of_not_there (h : (program msg).Run started tr s) (hgone : s.pc.there = false) :
    Gone s := by
  rcases inv_run h with ⟨hthere, -⟩ | ⟨-, hrest⟩
  · rw [hgone] at hthere
    cases hthere
  · exact hrest

/-! ### The end of the program -/

/-- The steps that a child has before it, that of being waited for among them. -/
def Child.steps : Child → ℕ
  | .unborn => 6
  | .testing _ => 5
  | .closing => 4
  | .writing => 3
  | .leaving _ => 2
  | .zombie => 1
  | .reaped => 0

/-- The steps that the parent has before it. -/
def Pc.steps (n : ℕ) : Pc → ℕ
  | .starting => n + (n + 5)
  | .forking k => (n - k) + (n + 4)
  | .waiting k => (n - k) + 3
  | .closing => 2
  | .reading => 1
  | .done _ | .failed _ | .killed => 0

/-- The steps of all, signals not counted. -/
def State.steps (s : State n) : ℕ := s.pc.steps n + ∑ i, (s.children i).steps

/-- A change of one child that takes it nearer to its end. -/
lemma steps_update_lt {f : Fin n → Child} {c : Child} (hc : c.steps < (f i).steps) :
    ∑ j, (Function.update f i c j).steps < ∑ j, (f j).steps := by
  have hsum := sum_update Child.steps f i c
  omega

/-- A child that runs can take its next step. -/
lemma exists_child_step (msg : Fin n → List UInt8) {i : Fin n}
    (hi : (s.children i).runs = true) :
    ∃ e c pipe, child msg s i = some (e, { s with
      children := Function.update s.children i c, pipe := pipe })
        ∧ c.steps < (s.children i).steps := by
  rw [child]
  generalize s.children i = c at hi
  cases c with
  | testing mode =>
      cases mode with
      | true => exact ⟨.tested i, .closing, s.pipe, rfl, by decide⟩
      | false => exact ⟨.tested i, .leaving true, s.pipe, rfl, by decide⟩
  | closing => exact ⟨.shut i, .writing, s.pipe, rfl, by decide⟩
  | writing =>
      by_cases hread : s.hasReader
      · exact ⟨.wrote i, .leaving false, s.pipe ++ msg i, if_pos hread, by decide⟩
      · exact ⟨.died i, .zombie, s.pipe, if_neg hread, by decide⟩
  | leaving reads => exact ⟨.exited i, .zombie, s.pipe, rfl, Nat.lt_succ_self 1⟩
  | unborn | zombie | reaped => cases hi

/-- The parent does not wait for ever. -/
lemma exists_step_of_waiting {k : ℕ} (hpc : s.pc = .waiting k) (hk : k < n) {i : Fin n}
    (howed : (s.children i).owed = true) (hborn : s.children i ≠ .unborn) :
    ∃ m e s', (program msg).step s m = some (e, s') ∧ s'.steps < s.steps
      ∧ s'.pc.there = true := by
  by_cases hi : (s.children i).runs = true
  · obtain ⟨e, c, pipe, hstep, hc⟩ := exists_child_step msg hi
    exact ⟨.child i, e, _, hstep, Nat.add_lt_add_left (steps_update_lt hc) _, by rw [hpc]; rfl⟩
  · have hzombie : s.children i = .zombie := by
      generalize s.children i = c at howed hborn hi
      cases c with
      | unborn => exact absurd rfl hborn
      | zombie => rfl
      | testing mode | closing | writing | leaving reads => exact absurd rfl hi
      | reaped => cases howed
    have hless := steps_update_lt (f := s.children) (c := .reaped) (i := i)
      (by rw [hzombie]; exact Nat.lt_succ_self 0)
    have hstep : reap s i = some (.waited i, { s with
        children := Function.update s.children i .reaped, pc := .waiting (k + 1) }) := by
      rw [reap, hpc, hzombie]
      exact if_pos hk
    refine ⟨.reap i, _, _, hstep, ?_, rfl⟩
    simp only [State.steps, hpc, Pc.steps]
    omega

/-- Before the end somebody can come nearer to it, without a signal and with a `fork` that
succeeds. -/
lemma Inv.exists_step (h : Inv msg es s) (hdone : ∀ text, s.pc ≠ .done text) :
    ∃ m e s', (program msg).step s m = some (e, s') ∧ s'.steps < s.steps
      ∧ s'.pc.there = true := by
  have hplace := h.place
  rw [Place] at hplace
  -- the parent's step, and where it leads
  have hparent : ∀ e s', parent s true = some (e, s') → s'.steps < s.steps →
      s'.pc.there = true → ∃ m e s', (program msg).step s m = some (e, s')
        ∧ s'.steps < s.steps ∧ s'.pc.there = true :=
    fun e s' hs hlt hthere => ⟨.parent true, e, s', hs, hlt, hthere⟩
  cases hpc : s.pc with
  | starting =>
      refine hparent _ _ (by rw [parent, hpc]) ?_ rfl
      simp only [State.steps, hpc, Pc.steps]
      omega
  | forking k =>
      rw [hpc] at hplace
      by_cases hk : k < n
      · have hnew := (hplace.2.1 ⟨k, hk⟩).mpr le_rfl
        have hless := steps_update_lt (f := s.children) (c := .testing s.mode) (i := ⟨k, hk⟩)
          (by rw [hnew]; exact Nat.lt_succ_self 5)
        refine hparent _ _ (by rw [parent, hpc]; exact dif_pos hk) ?_ rfl
        simp only [State.steps, hpc, Pc.steps]
        omega
      · refine hparent _ _ (by rw [parent, hpc]; exact dif_neg hk) ?_ rfl
        simp only [State.steps, hpc, Pc.steps]
        omega
  | waiting k =>
      rw [hpc] at hplace
      obtain ⟨hold, howed, -⟩ := hplace
      by_cases hk : k < n
      · obtain ⟨i, hi⟩ :=
          exists_of_population_ne_zero (p := Child.owed) (L := s.children) (by omega)
        exact exists_step_of_waiting hpc hk hi (hold i)
      · refine hparent _ _ (by rw [parent, hpc]; exact if_neg hk) ?_ rfl
        simp only [State.steps, hpc, Pc.steps]
        omega
  | closing =>
      refine hparent _ _ (by rw [parent, hpc]) ?_ rfl
      simp only [State.steps, hpc, Pc.steps]
      omega
  | reading =>
      rw [hpc] at hplace
      have hruns : ¬ (s.pipe = [] ∧ ∃ i, (s.children i).runs = true) := by
        rintro ⟨-, i, hi⟩
        rw [not_runs_of_owed hplace.1 i] at hi
        cases hi
      refine hparent _ _ (by rw [parent, hpc]; exact if_neg hruns) ?_ rfl
      simp only [State.steps, hpc, Pc.steps]
      omega
  | done text => exact absurd hpc (hdone text)
  | failed k | killed =>
      rw [hpc] at hplace
      cases hplace

/-- Whatever has been done so far, a parent that is there comes to its end, without another signal
and if no `fork` fails. -/
lemma exists_done (h : (program msg).Run started tr s) (hthere : s.pc.there = true) :
    ∃ tr' t text, (program msg).Run started (tr ++ tr') t ∧ t.pc = .done text := by
  induction hd : s.steps using Nat.strong_induction_on generalizing tr s with
  | _ d ih =>
      by_cases hdone : ∃ text, s.pc = .done text
      · obtain ⟨text, htext⟩ := hdone
        exact ⟨[], s, text, by simpa using h, htext⟩
      · obtain ⟨m, e, s', hs, hlt, hthere'⟩ :=
          (inv_of_there h hthere).exists_step (not_exists.mp hdone)
        obtain ⟨tr', t, text, hrun, ht⟩ := ih s'.steps (hd ▸ hlt) (h.snoc hs) hthere' rfl
        exact ⟨(m, e) :: tr', t, text, by simpa using hrun, ht⟩

lemma shown_eq {data : List UInt8} (hclean : (0 : UInt8) ∉ data) (hlen : data.length < BUF_SIZE) :
    shown data = some data := by
  obtain ⟨d, hd⟩ : ∃ d, BUF_SIZE - data.length = d + 1 := ⟨BUF_SIZE - data.length - 1, by omega⟩
  rw [shown, hd, List.replicate_succ]
  exact cstr_front hclean _

/-- What writers who write once bring together is not longer than all messages. -/
lemma arrived_length_le (msg : Fin n → List UInt8) (hnodup : (writers es).Nodup) :
    (arrived msg es).length ≤ ∑ i, (msg i).length := by
  calc (arrived msg es).length
      = ((writers es).map fun i => (msg i).length).sum := by
        rw [arrived, List.length_flatMap]
    _ = ∑ i ∈ (writers es).toFinset, (msg i).length := (List.sum_toFinset _ hnodup).symm
    _ ≤ ∑ i, (msg i).length := Finset.sum_le_univ_sum_of_nonneg fun i => Nat.zero_le _

/-- **Messages that wait for a signal**: as long as no `fork` has failed and no signal has come
before the handler, the parent can always come to its end. What it prints then are the messages
of the children that were signalled in time, in the order in which they wrote and each once, if
the messages are clean and fit in `buffer` with a terminator. A parent that has been killed has
forked no child, and one at which a `fork` has failed only those before. -/
theorem message_of_signalled (hclean : ∀ i, (0 : UInt8) ∉ msg i)
    (hfits : ∑ i, (msg i).length < BUF_SIZE) (h : (program msg).Run started tr s) :
    ((∀ k, s.pc ≠ .failed k) → s.pc ≠ .killed →
        ∃ tr' t text, (program msg).Run started (tr ++ tr') t ∧ t.pc = .done text)
      ∧ (∀ text, s.pc = .done text → text = some ((writers (tr.map Prod.snd)).flatMap msg)
        ∧ (writers (tr.map Prod.snd)).Nodup
        ∧ ∀ i, i ∈ writers (tr.map Prod.snd) ↔ InTime i (tr.map Prod.snd))
      ∧ (∀ k, s.pc = .failed k → ∀ i, s.children i = .unborn ↔ k ≤ i)
      ∧ (s.pc = .killed → ∀ i, s.children i = .unborn) := by
  refine ⟨fun hfailed hkilled => exists_done h ?_, fun text htext => ?_, fun k hk => ?_,
    fun hk => ?_⟩
  · -- at all other places the parent is there
    cases hpc : s.pc with
    | failed k => exact absurd hpc (hfailed k)
    | killed => exact absurd hpc hkilled
    | starting | forking k | waiting k | closing | reading | done text => rfl
  · -- the parent has waited for all, so the pipe held all messages
    have hI := inv_of_there h (by rw [htext]; rfl)
    have hplace := hI.place
    rw [Place, htext] at hplace
    obtain ⟨howed, htext⟩ := hplace
    refine ⟨?_, hI.nodup, fun i => ?_⟩
    · have hlen : (arrived msg (tr.map Prod.snd)).length < BUF_SIZE :=
        (arrived_length_le msg hI.nodup).trans_lt hfits
      have hzero : (0 : UInt8) ∉ arrived msg (tr.map Prod.snd) := by
        rw [arrived, List.mem_flatMap]
        rintro ⟨i, -, hi⟩
        exact hclean i hi
      rw [htext, List.take_of_length_le hlen.le, shown_eq hzero hlen, arrived]
    · have hreaped := population_eq_zero.mp howed i
      rw [Child.owed, decide_eq_false_iff_not, not_not] at hreaped
      have hkept := hI.kept i
      rw [hreaped] at hkept
      exact mem_writers.trans hkept
  · cases gone_of_not_there h (by rw [hk]; rfl) with
    | killed hpc hnone =>
        rw [hk] at hpc
        cases hpc
    | failed k' hpc hborn =>
        rw [hk, Pc.failed.injEq] at hpc
        exact hpc ▸ hborn
  · cases gone_of_not_there h (by rw [hk]; rfl) with
    | killed hpc hnone => exact hnone
    | failed k' hpc hborn =>
        rw [hk] at hpc
        cases hpc

end Program

/-- The messages of the program; only the second child is signalled. -/
theorem message_of_signalled_second : ∃ (tr : List (Mover REP_N × Event REP_N)) (s : State REP_N),
    (program msg).Run started tr s
      ∧ s.pc = .done (some ((writers (tr.map Prod.snd)).flatMap msg)) := by
  have hrun : ((program msg).exec ([.parent true, .parent true, .parent true, .sigint (some 1),
      .child 1, .child 0, .child 1, .child 0, .child 1, .child 1, .parent true, .reap 1, .reap 0]
        ++ .replicate 3 (.parent true)) started).any
      (fun q => decide (q.2.pc.there = true ∧ q.2.pc.steps REP_N = 0)) = true := by
    decide +kernel
  obtain ⟨tr, s, h, hp⟩ := Machine.exists_run hrun
  obtain ⟨hthere, hsteps⟩ := of_decide_eq_true hp
  have hclean : ∀ i, (0 : UInt8) ∉ msg i := by decide +kernel
  have hfits : ∑ i, (msg i).length < BUF_SIZE := by decide +kernel
  refine ⟨tr, s, h, ?_⟩
  cases hpc : s.pc with
  | done text => rw [((message_of_signalled hclean hfits h).2.1 text hpc).1]
  | failed k | killed =>
      rw [hpc] at hthere
      cases hthere
  | starting | forking k | waiting k | closing | reading =>
      rw [hpc] at hsteps
      simp [Pc.steps] at hsteps

end Signalled

end Pipes

end OperatingSys
