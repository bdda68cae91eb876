import OperatingSys.Foundations.Interleaved
import OperatingSys.Foundations.Machine
import OperatingSys.Foundations.Population

/-!
The program `01.c` of `os_01/lab_04/src`, whose parent does not wait for its children.

What a process prints goes through its buffer of `stdout`: to a terminal it is written with the
end of its line, and to a file when the process ends. `fork` copies the buffer. So what stands
in it is written by the child once more.

* `program`: the parent and its children.
* `printed_of_run`: what each process has written when all have ended, and which parent a child
  has found.
-/

namespace OperatingSys

namespace Processes

namespace Orphans

/-! ### The program -/

/-- Where `stdout` leads. -/
inductive Stdout where
  | terminal | file
  deriving DecidableEq, Repr

/-- The numbers of the processes, of their group, and of the process that takes over the
children of one that has ended. -/
structure Ids (n : ℕ) where
  parent : ℕ
  group : ℕ
  child : Fin n → ℕ
  adopter : ℕ

/-- The lines printed. -/
inductive Line where
  | parent (pid group : ℕ)
  | child (pid ppid group : ℕ)
  | message
  | listed (i pid : ℕ)
  deriving DecidableEq, Repr

/-- Where the parent is. Its status is `ok` or `error`. -/
inductive Pc where
  | begins | forking (k : ℕ) | listing (k : ℕ) | leaving (ok : Bool) | ending (ok : Bool)
  | exited (ok : Bool)
  deriving DecidableEq, Repr

/-- Where a child is. -/
inductive ChildPc where
  | absent | sleeping | printing | leaving | ending | exited
  deriving DecidableEq, Repr

/-- A child with what its buffer holds. -/
structure Child where
  pc : ChildPc
  buffer : List Line

variable {n : ℕ}

structure State (n : ℕ) where
  pc : Pc
  buffer : List Line
  children : Fin n → Child

/-- Who moves: the parent, with the answer to `fork`, or a child. -/
inductive Mover (n : ℕ) where
  | parent (ok : Bool)
  | child (i : Fin n)

/-- What happens. The parent is `none`. -/
inductive Event (n : ℕ) where
  | forks (i : Fin n)
  | asks (i : Fin n) (ppid : ℕ)
  | writes (p : Option (Fin n)) (lines : List Line)
  | ended (p : Option (Fin n))
  | works
  deriving DecidableEq

/-- `printf` of a line: what is written, and what is left in the buffer. -/
def printf (out : Stdout) (buffer : List Line) (line : Line) : List Line × List Line :=
  match out with
  | .terminal => (buffer ++ [line], [])
  | .file => ([], buffer ++ [line])

/-- The parent prints a line and goes on. -/
def State.tells (out : Stdout) (s : State n) (line : Line) (pc : Pc) : Event n × State n :=
  (.writes none (printf out s.buffer line).1,
    { s with pc := pc, buffer := (printf out s.buffer line).2 })

/-- A step of the parent. -/
def parent (ids : Ids n) (out : Stdout) (s : State n) (ok : Bool) : Option (Event n × State n) :=
  match s.pc with
  | .begins => some (s.tells out (.parent ids.parent ids.group) (.forking 0))
  | .forking k =>
      if h : k < n then
        if ok then
          some (.forks ⟨k, h⟩, { s with
            pc := .forking (k + 1)
            children := Function.update s.children ⟨k, h⟩ ⟨.sleeping, s.buffer⟩ })
        else some (.works, { s with pc := .leaving false })
      else some (s.tells out .message (.listing 0))
  | .listing k =>
      if h : k < n then some (s.tells out (.listed k (ids.child ⟨k, h⟩)) (.listing (k + 1)))
      else some (.works, { s with pc := .leaving true })
  | .leaving ok => some (.writes none s.buffer, { s with pc := .ending ok, buffer := [] })
  | .ending ok => some (.ended none, { s with pc := .exited ok })
  | .exited _ => none

/-- The parent has ended. -/
def Pc.isOver : Pc → Bool
  | .exited _ => true
  | .begins | .forking _ | .listing _ | .leaving _ | .ending _ => false

/-- `getppid()` of a child. -/
def State.ppid (ids : Ids n) (s : State n) : ℕ :=
  if s.pc.isOver then ids.adopter else ids.parent

/-- A step of a child. -/
def child (ids : Ids n) (out : Stdout) (s : State n) (i : Fin n) : Option (Event n × State n) :=
  let v := s.children i
  let goes (pc : ChildPc) (buffer : List Line) : State n :=
    { s with children := Function.update s.children i ⟨pc, buffer⟩ }
  match v.pc with
  | .absent => none
  | .sleeping =>
      some (.asks i (s.ppid ids),
        goes .printing (v.buffer ++ [.child (ids.child i) (s.ppid ids) ids.group]))
  | .printing =>
      match out with
      | .terminal => some (.writes (some i) v.buffer, goes .leaving [])
      | .file => some (.works, goes .leaving v.buffer)
  | .leaving => some (.writes (some i) v.buffer, goes .ending [])
  | .ending => some (.ended (some i), goes .exited v.buffer)
  | .exited => none

/-- The parent and its children. -/
def program (ids : Ids n) (out : Stdout) : Machine (State n) (Mover n) (Event n) where
  step s
    | .parent ok => parent ids out s ok
    | .child i => child ids out s i

/-- Only the parent is there. -/
def started : State n where
  pc := .begins
  buffer := []
  children := fun _ => ⟨.absent, []⟩

/-- What a step can be. -/
inductive Step (ids : Ids n) (out : Stdout) (s : State n) : Event n → State n → Prop
  | begins (hpc : s.pc = .begins) :
      Step ids out s (s.tells out (.parent ids.parent ids.group) (.forking 0)).1
        (s.tells out (.parent ids.parent ids.group) (.forking 0)).2
  | forks {k : ℕ} (hpc : s.pc = .forking k) (hk : k < n) :
      Step ids out s (.forks ⟨k, hk⟩) ⟨.forking (k + 1), s.buffer,
        Function.update s.children ⟨k, hk⟩ ⟨.sleeping, s.buffer⟩⟩
  | refused {k : ℕ} (hpc : s.pc = .forking k) (hk : k < n) :
      Step ids out s .works ⟨.leaving false, s.buffer, s.children⟩
  | forked {k : ℕ} (hpc : s.pc = .forking k) (hk : ¬ k < n) :
      Step ids out s (s.tells out .message (.listing 0)).1 (s.tells out .message (.listing 0)).2
  | lists {k : ℕ} (hpc : s.pc = .listing k) (hk : k < n) :
      Step ids out s (s.tells out (.listed k (ids.child ⟨k, hk⟩)) (.listing (k + 1))).1
        (s.tells out (.listed k (ids.child ⟨k, hk⟩)) (.listing (k + 1))).2
  | listed {k : ℕ} (hpc : s.pc = .listing k) (hk : ¬ k < n) :
      Step ids out s .works ⟨.leaving true, s.buffer, s.children⟩
  | leaves {ok : Bool} (hpc : s.pc = .leaving ok) :
      Step ids out s (.writes none s.buffer) ⟨.ending ok, [], s.children⟩
  | ends {ok : Bool} (hpc : s.pc = .ending ok) :
      Step ids out s (.ended none) ⟨.exited ok, s.buffer, s.children⟩
  | asks {i : Fin n} (hpc : (s.children i).pc = .sleeping) :
      Step ids out s (.asks i (s.ppid ids)) ⟨s.pc, s.buffer, Function.update s.children i
        ⟨.printing, (s.children i).buffer ++ [.child (ids.child i) (s.ppid ids) ids.group]⟩⟩
  | prints {i : Fin n} (hpc : (s.children i).pc = .printing) (hout : out = .terminal) :
      Step ids out s (.writes (some i) (s.children i).buffer)
        ⟨s.pc, s.buffer, Function.update s.children i ⟨.leaving, []⟩⟩
  | keeps {i : Fin n} (hpc : (s.children i).pc = .printing) (hout : out = .file) :
      Step ids out s .works
        ⟨s.pc, s.buffer, Function.update s.children i ⟨.leaving, (s.children i).buffer⟩⟩
  | childLeaves {i : Fin n} (hpc : (s.children i).pc = .leaving) :
      Step ids out s (.writes (some i) (s.children i).buffer)
        ⟨s.pc, s.buffer, Function.update s.children i ⟨.ending, []⟩⟩
  | childEnds {i : Fin n} (hpc : (s.children i).pc = .ending) :
      Step ids out s (.ended (some i))
        ⟨s.pc, s.buffer, Function.update s.children i ⟨.exited, (s.children i).buffer⟩⟩

/-! ### What is written -/

/-- The lines written in a step, each with its process. -/
def Event.lines : Event n → List (Option (Fin n) × Line)
  | .writes p lines => lines.map (Prod.mk p)
  | .forks _ | .asks _ _ | .ended _ | .works => []

/-- All lines written. -/
def written (tr : List (Mover n × Event n)) : List (Option (Fin n) × Line) :=
  tr.flatMap fun q => q.2.lines

/-- The line that the children find in the buffer. -/
def copied (ids : Ids n) : Stdout → List Line
  | .terminal => []
  | .file => [.parent ids.parent ids.group]

/-- The lines of the parent up to the last one about a child. -/
def linesUpTo (ids : Ids n) (k : ℕ) : List Line :=
  .parent ids.parent ids.group :: .message
    :: ((List.finRange n).take k).map fun i => .listed i.val (ids.child i)

/-- The lines of the parent by its status. -/
def parentLines (ids : Ids n) : Bool → List Line
  | true => linesUpTo ids n
  | false => [.parent ids.parent ids.group]

/-- What the parent has printed. -/
def Pc.lines (ids : Ids n) : Pc → List Line
  | .begins => []
  | .forking _ => [.parent ids.parent ids.group]
  | .listing k => linesUpTo ids k
  | .leaving ok | .ending ok | .exited ok => parentLines ids ok

/-- The child `i` has asked for its parent, and found the adopter if the parent had ended. -/
def Asked (ids : Ids n) (i : Fin n) (ppid : ℕ) (tr : List (Mover n × Event n)) : Prop :=
  ∃ before m after, tr = before ++ (m, .asks i ppid) :: after
    ∧ ppid = if .ended none ∈ before.map Prod.snd then ids.adopter else ids.parent

variable {ids : Ids n} {out : Stdout} {s s' : State n} {m : Mover n} {e : Event n}
  {tr : List (Mover n × Event n)} {i : Fin n} {line : Line}

lemma step_of_parent {ok : Bool} (h : parent ids out s ok = some (e, s')) :
    Step ids out s e s' := by
  rw [parent] at h
  split at h
  · next hpc =>
      cases h
      exact .begins hpc
  · next k hpc =>
      split_ifs at h with hk hok
      · cases h
        exact .forks hpc hk
      · cases h
        exact .refused hpc hk
      · cases h
        exact .forked hpc hk
  · next k hpc =>
      split_ifs at h with hk
      · cases h
        exact .lists hpc hk
      · cases h
        exact .listed hpc hk
  · next ok hpc =>
      cases h
      exact .leaves hpc
  · next ok hpc =>
      cases h
      exact .ends hpc
  · cases h

lemma step_of_child (h : child ids out s i = some (e, s')) : Step ids out s e s' := by
  unfold child at h
  cases hpc : (s.children i).pc with
  | absent | exited =>
      simp only [hpc] at h
      cases h
  | sleeping =>
      simp only [hpc] at h
      cases h
      exact .asks hpc
  | printing =>
      simp only [hpc] at h
      cases out with
      | terminal =>
          cases h
          exact .prints hpc rfl
      | file =>
          cases h
          exact .keeps hpc rfl
  | leaving =>
      simp only [hpc] at h
      cases h
      exact .childLeaves hpc
  | ending =>
      simp only [hpc] at h
      cases h
      exact .childEnds hpc

lemma step_of_program (h : (program ids out).step s m = some (e, s')) : Step ids out s e s' := by
  cases m with
  | parent ok => exact step_of_parent h
  | child i => exact step_of_child h

lemma linesUpTo_succ {k : ℕ} (h : k < n) :
    linesUpTo ids (k + 1) = linesUpTo ids k ++ [.listed k (ids.child ⟨k, h⟩)] := by
  have htake : (List.finRange n).take (k + 1) = (List.finRange n).take k ++ [⟨k, h⟩] := by
    rw [List.take_succ_eq_append_getElem (by rwa [List.length_finRange]), List.getElem_finRange]
    rfl
  rw [linesUpTo, htake, List.map_append, linesUpTo]
  rfl

lemma written_snoc (tr : List (Mover n × Event n)) (m : Mover n) (e : Event n) :
    written (tr ++ [(m, e)]) = written tr ++ e.lines := by
  rw [written, List.flatMap_append, List.flatMap_singleton]
  rfl

/-- What has been written is in front of what `printf` leaves. -/
lemma printf_append (out : Stdout) (ws buffer : List Line) (line : Line) :
    (ws ++ (printf out buffer line).1) ++ (printf out buffer line).2
      = (ws ++ buffer) ++ [line] := by
  cases out <;> simp [printf]

lemma Asked.snoc {ppid : ℕ} (h : Asked ids i ppid tr) (q : Mover n × Event n) :
    Asked ids i ppid (tr ++ [q]) := by
  obtain ⟨before, m, after, rfl, hp⟩ := h
  exact ⟨before, m, after ++ [q], by rw [List.append_assoc, List.cons_append], hp⟩

/-! ### The parent -/

/-- Which children are there. -/
def Pc.Present (children : Fin n → Child) : Pc → Prop
  | .begins => ∀ i, (children i).pc = .absent
  | .forking k => ∀ i, (children i).pc = .absent ↔ k ≤ i.val
  | .listing _ | .leaving true | .ending true | .exited true => ∀ i, (children i).pc ≠ .absent
  | .leaving false | .ending false | .exited false => True

/-- What holds of the parent in every run. -/
structure ParentKept (ids : Ids n) (out : Stdout) (tr : List (Mover n × Event n)) (s : State n) :
    Prop where
  lines : part none (written tr) ++ s.buffer = s.pc.lines ids
  copied : ∀ k, s.pc = .forking k → s.buffer = copied ids out
  flushed : ∀ ok, s.pc = .ending ok ∨ s.pc = .exited ok → s.buffer = []
  ended : s.pc.isOver = true ↔ .ended none ∈ tr.map Prod.snd
  present : s.pc.Present s.children

/-- What holds of a child in every run. -/
def ChildKept (ids : Ids n) (out : Stdout) (i : Fin n) (tr : List (Mover n × Event n))
    (v : Child) : Prop :=
  match v.pc with
  | .absent => part (some i) (written tr) = []
  | .sleeping => part (some i) (written tr) ++ v.buffer = copied ids out
  | .printing | .leaving => ∃ ppid, Asked ids i ppid tr ∧ part (some i) (written tr) ++ v.buffer
      = copied ids out ++ [.child (ids.child i) ppid ids.group]
  | .ending | .exited => ∃ ppid, Asked ids i ppid tr ∧ part (some i) (written tr)
      = copied ids out ++ [.child (ids.child i) ppid ids.group]

/-- A step in which a child does not write. -/
lemma ChildKept.snoc {v : Child} (h : ChildKept ids out i tr v)
    (he : part (some i) e.lines = []) (m : Mover n) : ChildKept ids out i (tr ++ [(m, e)]) v := by
  have hsame : part (some i) (written (tr ++ [(m, e)])) = part (some i) (written tr) := by
    rw [written_snoc, part_append, he, List.append_nil]
  rw [ChildKept] at h ⊢
  rw [hsame]
  cases hpc : v.pc with
  | absent | sleeping =>
      rw [hpc] at h
      exact h
  | printing | leaving | ending | exited =>
      rw [hpc] at h
      obtain ⟨ppid, hask, heq⟩ := h
      exact ⟨ppid, hask.snoc _, heq⟩

lemma part_writes_of_ne {p p' : Option (Fin n)} (h : p' ≠ p) (ls : List Line) :
    part p (Event.writes p' ls).lines = [] := by
  rw [Event.lines, part_map_mk, if_neg h]

lemma part_writes (p : Option (Fin n)) (ls : List Line) :
    part p (Event.writes p ls).lines = ls := by
  rw [Event.lines, part_map_mk, if_pos rfl]

/-- What holds in every run. -/
structure Kept (ids : Ids n) (out : Stdout) (tr : List (Mover n × Event n)) (s : State n) :
    Prop where
  parent : ParentKept ids out tr s
  child : ∀ i, ChildKept ids out i tr (s.children i)

/-- The past of the parent's end, one step further. -/
lemma ended_snoc (he : e ≠ .ended none) :
    .ended none ∈ (tr ++ [(m, e)]).map Prod.snd ↔ .ended none ∈ tr.map Prod.snd := by
  rw [List.map_append, List.mem_append]
  refine or_iff_left fun hmem => he (List.mem_singleton.mp hmem).symm

/-- The parent prints a line. -/
lemma ParentKept.tells (h : ParentKept ids out tr s) {pc : Pc}
    (hlines : pc.lines ids = s.pc.lines ids ++ [line])
    (hcopied : ∀ k, pc = .forking k → s.pc = .begins ∧ line = .parent ids.parent ids.group)
    (hpc : ∀ ok, pc ≠ .ending ok ∧ pc ≠ .exited ok) (hover : s.pc.isOver = false)
    (hpresent : pc.Present s.children) :
    ParentKept ids out (tr ++ [(m, (s.tells out line pc).1)]) (s.tells out line pc).2 where
  lines := by
    rw [written_snoc, part_append, State.tells, part_writes]
    dsimp only
    rw [printf_append, h.lines, hlines]
  copied := by
    intro k hk
    obtain ⟨hbegins, rfl⟩ := hcopied k hk
    -- nothing has been printed before
    have hnil : s.buffer = [] := by
      have hlines := h.lines
      rw [hbegins] at hlines
      exact (List.append_eq_nil_iff.mp hlines).2
    change (printf out s.buffer _).2 = _
    rw [hnil]
    cases out <;> rfl
  flushed := fun ok hok => by
    rcases hok with hok | hok
    · exact absurd hok (hpc ok).1
    · exact absurd hok (hpc ok).2
  ended := by
    -- the parent has not ended yet
    have hpast : ¬ .ended none ∈ tr.map Prod.snd := fun hmem => by
      rw [h.ended.mpr hmem] at hover
      cases hover
    rw [ended_snoc (by rw [State.tells]; exact nofun)]
    refine iff_of_false ?_ hpast
    change ¬ pc.isOver = true
    cases pc with
    | exited ok => exact absurd rfl (hpc ok).2
    | begins | forking | listing | leaving | ending => exact Bool.false_ne_true
  present := hpresent

/-- A step of the parent that prints nothing and is not its end. -/
lemma ParentKept.quiet (h : ParentKept ids out tr s) {pc : Pc} {buffer : List Line}
    {children : Fin n → Child} (he : e ≠ .ended none)
    (hlines : part none e.lines ++ buffer = s.buffer) (hpc : pc.lines ids = s.pc.lines ids)
    (hcopied : ∀ k, pc = .forking k → buffer = Orphans.copied ids out)
    (hflushed : ∀ ok, pc = .ending ok ∨ pc = .exited ok → buffer = [])
    (hover : pc.isOver = s.pc.isOver) (hpresent : pc.Present children) :
    ParentKept ids out (tr ++ [(m, e)]) ⟨pc, buffer, children⟩ where
  lines := by
    rw [written_snoc, part_append, List.append_assoc, hlines, h.lines]
    exact hpc.symm
  copied := hcopied
  flushed := hflushed
  ended := by
    rw [ended_snoc he]
    change pc.isOver = true ↔ _
    rw [hover]
    exact h.ended
  present := hpresent

/-- The parent writes, and no child does. -/
lemma Kept.tells (h : Kept ids out tr s) {pc : Pc}
    (hparent : ParentKept ids out (tr ++ [(m, (s.tells out line pc).1)]) (s.tells out line pc).2) :
    Kept ids out (tr ++ [(m, (s.tells out line pc).1)]) (s.tells out line pc).2 :=
  ⟨hparent, fun i => (h.child i).snoc (part_writes_of_ne (Option.some_ne_none i).symm _) m⟩

/-- The child `k` is the next one there. -/
lemma Pc.Present.forks {children : Fin n → Child} {k : ℕ} (h : (Pc.forking k).Present children)
    (hk : k < n) (buffer : List Line) :
    (Pc.forking (k + 1)).Present
      (Function.update children ⟨k, hk⟩ ⟨.sleeping, buffer⟩) := by
  intro i
  by_cases hi : i = ⟨k, hk⟩
  · rw [hi, Function.update_self]
    exact iff_of_false nofun (Nat.not_succ_le_self k)
  · rw [Function.update_of_ne hi, h i]
    have hne : i.val ≠ k := fun hval => hi (Fin.ext hval)
    omega

/-- **The parent forks**: the child takes over what is in its buffer. -/
lemma Kept.forks (h : Kept ids out tr s) {k : ℕ} (hpc : s.pc = .forking k) (hk : k < n) :
    Kept ids out (tr ++ [(m, .forks ⟨k, hk⟩)]) ⟨.forking (k + 1), s.buffer,
      Function.update s.children ⟨k, hk⟩ ⟨.sleeping, s.buffer⟩⟩ := by
  have hpresent := h.parent.present
  rw [hpc] at hpresent
  have hbuffer := h.parent.copied k hpc
  refine ⟨h.parent.quiet nofun rfl (by rw [hpc]; rfl) (fun _ _ => hbuffer) ?_
    (by rw [hpc]; rfl) (hpresent.forks hk s.buffer), fun i => ?_⟩
  · rintro ok (hcase | hcase) <;> cases hcase
  · by_cases hi : i = ⟨k, hk⟩
    · subst hi
      have hchild := h.child ⟨k, hk⟩
      have habsent : (s.children ⟨k, hk⟩).pc = .absent := (hpresent ⟨k, hk⟩).mpr le_rfl
      rw [ChildKept, habsent] at hchild
      dsimp only
      rw [Function.update_self, ChildKept, written_snoc, part_append]
      change _ ++ [] ++ s.buffer = _
      rw [List.append_nil, show part (some ⟨k, hk⟩) (written tr) = [] from hchild,
        List.nil_append, hbuffer]
    · dsimp only
      rw [Function.update_of_ne hi]
      exact (h.child i).snoc rfl m

/-- The parent ends, with an empty buffer. -/
lemma Kept.ends (h : Kept ids out tr s) {ok : Bool} (hpc : s.pc = .ending ok) :
    Kept ids out (tr ++ [(m, .ended none)]) { s with pc := .exited ok } := by
  have hpresent := h.parent.present
  have hlines := h.parent.lines
  rw [hpc] at hpresent hlines
  refine ⟨⟨?_, nofun, fun _ _ => h.parent.flushed ok (Or.inl hpc), ?_, ?_⟩,
    fun i => (h.child i).snoc rfl m⟩
  · rw [written_snoc, part_append]
    exact (congrArg (· ++ s.buffer) (List.append_nil _)).trans hlines
  · refine iff_of_true rfl ?_
    rw [List.map_append]
    exact List.mem_append_right _ List.mem_cons_self
  · cases ok <;> exact hpresent

/-- The parent leaves, with or without all its children. -/
lemma Kept.turns (h : Kept ids out tr s) {ok : Bool} (hover : s.pc.isOver = false)
    (hlines : parentLines ids ok = s.pc.lines ids) (hpresent : (Pc.leaving ok).Present s.children) :
    Kept ids out (tr ++ [(m, .works)]) ⟨.leaving ok, s.buffer, s.children⟩ := by
  refine ⟨h.parent.quiet nofun rfl hlines nofun ?_ hover.symm hpresent,
    fun i => (h.child i).snoc rfl m⟩
  rintro ok (hcase | hcase) <;> cases hcase

/-- The parent writes what its buffer holds. -/
lemma Kept.leaves (h : Kept ids out tr s) {ok : Bool} (hpc : s.pc = .leaving ok) :
    Kept ids out (tr ++ [(m, .writes none s.buffer)]) ⟨.ending ok, [], s.children⟩ := by
  have hpresent := h.parent.present
  rw [hpc] at hpresent
  refine ⟨h.parent.quiet nofun ?_ (by rw [hpc]; rfl) nofun (fun _ _ => rfl) (by rw [hpc]; rfl) ?_,
    fun i => (h.child i).snoc (part_writes_of_ne (Option.some_ne_none i).symm _) m⟩
  · rw [part_writes, List.append_nil]
  · cases ok <;> exact hpresent

/-! ### The children -/

/-- A child that is there goes on. -/
lemma Pc.Present.update {children : Fin n → Child} {v : Child} {pc : Pc}
    (h : pc.Present children) (hold : (children i).pc ≠ .absent) (hv : v.pc ≠ .absent) :
    pc.Present (Function.update children i v) := by
  have hsame : ∀ j, (Function.update children i v j).pc = .absent ↔ (children j).pc = .absent := by
    intro j
    by_cases hj : j = i
    · rw [hj, Function.update_self]
      exact iff_of_false hv hold
    · rw [Function.update_of_ne hj]
  cases pc with
  | begins => exact fun j => (hsame j).mpr (h j)
  | forking k => exact fun j => (hsame j).trans (h j)
  | listing k => exact fun j hj => h j ((hsame j).mp hj)
  | leaving ok | ending ok | exited ok =>
      cases ok with
      | false => exact trivial
      | true => exact fun j hj => h j ((hsame j).mp hj)

/-- A step of a child, for the parent and the other children. -/
lemma Kept.goes (h : Kept ids out tr s) {v : Child} (he : e ≠ .ended none)
    (hlines : ∀ p, p ≠ some i → part p e.lines = []) (hold : (s.children i).pc ≠ .absent)
    (hv : v.pc ≠ .absent) (hchild : ChildKept ids out i (tr ++ [(m, e)]) v) :
    Kept ids out (tr ++ [(m, e)]) { s with children := Function.update s.children i v } := by
  refine ⟨h.parent.quiet he ?_ rfl h.parent.copied h.parent.flushed rfl
    (h.parent.present.update hold hv), fun j => ?_⟩
  · rw [hlines none (Option.some_ne_none i).symm, List.nil_append]
  · dsimp only
    by_cases hj : j = i
    · rw [hj, Function.update_self]
      exact hchild
    · rw [Function.update_of_ne hj]
      exact (h.child j).snoc (hlines (some j) fun heq => hj (Option.some.inj heq)) m

/-- A child asks for its parent. -/
lemma Kept.asked (h : Kept ids out tr s) :
    Asked ids i (s.ppid ids) (tr ++ [(m, .asks i (s.ppid ids))]) := by
  refine ⟨tr, m, [], rfl, ?_⟩
  rw [State.ppid]
  exact if_congr h.parent.ended rfl rfl

/-- A step keeps it. -/
lemma Kept.step (h : Kept ids out tr s) (hs : Step ids out s e s') :
    Kept ids out (tr ++ [(m, e)]) s' := by
  have hpresent := h.parent.present
  have hwrites : ∀ i ls (p : Option (Fin n)), p ≠ some i →
      part p (Event.writes (some i) ls).lines = [] :=
    fun i ls p hp => part_writes_of_ne (Ne.symm hp) ls
  cases hs with
  | begins hpc =>
      rw [hpc] at hpresent
      exact h.tells (h.parent.tells (by rw [hpc]; rfl) (fun k _ => ⟨hpc, rfl⟩)
        (fun ok => ⟨nofun, nofun⟩) (by rw [hpc]; rfl)
        fun i => iff_of_true (hpresent i) (Nat.zero_le _))
  | forks hpc hk => exact h.forks hpc hk
  | refused hpc hk => exact h.turns (by rw [hpc]; rfl) (by rw [hpc]; rfl) trivial
  | @forked k hpc hk =>
      rw [hpc] at hpresent
      exact h.tells (h.parent.tells (by rw [hpc]; rfl) nofun (fun ok => ⟨nofun, nofun⟩)
        (by rw [hpc]; rfl) fun i hi => hk (((hpresent i).mp hi).trans_lt i.isLt))
  | lists hpc hk =>
      rw [hpc] at hpresent
      exact h.tells (h.parent.tells (by rw [hpc]; exact linesUpTo_succ hk) nofun
        (fun ok => ⟨nofun, nofun⟩) (by rw [hpc]; rfl) hpresent)
  | @listed k hpc hk =>
      rw [hpc] at hpresent
      have hall : linesUpTo ids n = linesUpTo ids k := by
        rw [linesUpTo, linesUpTo, List.take_of_length_le List.length_finRange.le,
          List.take_of_length_le (List.length_finRange.trans_le (not_lt.mp hk))]
      exact h.turns (by rw [hpc]; rfl) (by rw [hpc]; exact hall) hpresent
  | leaves hpc => exact h.leaves hpc
  | ends hpc => exact h.ends hpc
  | @asks i hpc =>
      have hown := h.child i
      simp only [ChildKept, hpc] at hown
      refine h.goes (by simp) (fun _ _ => rfl) (by simp [hpc]) (by simp) ⟨_, h.asked, ?_⟩
      rw [written_snoc, part_append, ← List.append_assoc]
      change _ ++ [] ++ _ ++ _ = _
      rw [List.append_nil, hown]
  | @prints i hpc hout =>
      have hown := h.child i
      simp only [ChildKept, hpc] at hown
      obtain ⟨ppid, hask, hlines⟩ := hown
      refine h.goes (by simp) (hwrites i _) (by simp [hpc]) (by simp) ⟨ppid, hask.snoc _, ?_⟩
      rw [written_snoc, part_append, part_writes, List.append_nil, hlines]
  | @keeps i hpc hout =>
      have hown := h.child i
      simp only [ChildKept, hpc] at hown
      obtain ⟨ppid, hask, hlines⟩ := hown
      refine h.goes (by simp) (fun _ _ => rfl) (by simp [hpc]) (by simp) ⟨ppid, hask.snoc _, ?_⟩
      rw [written_snoc, part_append]
      exact (congrArg (· ++ (s.children i).buffer) (List.append_nil _)).trans hlines
  | @childLeaves i hpc =>
      have hown := h.child i
      simp only [ChildKept, hpc] at hown
      obtain ⟨ppid, hask, hlines⟩ := hown
      refine h.goes (by simp) (hwrites i _) (by simp [hpc]) (by simp) ⟨ppid, hask.snoc _, ?_⟩
      rw [written_snoc, part_append, part_writes, hlines]
  | @childEnds i hpc =>
      have hown := h.child i
      simp only [ChildKept, hpc] at hown
      obtain ⟨ppid, hask, hlines⟩ := hown
      refine h.goes (by simp) (fun _ _ => rfl) (by simp [hpc]) (by simp) ⟨ppid, hask.snoc _, ?_⟩
      rw [written_snoc, part_append]
      exact (List.append_nil _).trans hlines

lemma kept_of_run (h : (program ids out).Run started tr s) : Kept ids out tr s := by
  refine h.induct_trace (I := fun tr s => Kept ids out tr s) ?_ fun tr s m e s' hI hs => ?_
  · refine ⟨⟨rfl, nofun, fun _ _ => rfl, iff_of_false nofun nofun, fun _ => rfl⟩, fun _ => rfl⟩
  · exact hI.step (step_of_program hs)

/-! ### Which children are there -/

/-- A child that is absent has not been forked, and stays so unless the step forks it. -/
lemma absent_step (hs : Step ids out s e s') (i : Fin n) :
    (s'.children i).pc = .absent ↔ (s.children i).pc = .absent ∧ e ≠ .forks i := by
  -- a child that moves has been forked before
  have hgoes : ∀ {j : Fin n} {v : Child}, (s.children j).pc ≠ .absent → v.pc ≠ .absent →
      ((Function.update s.children j v i).pc = .absent ↔ (s.children i).pc = .absent) := by
    intro j v hold hnew
    by_cases hi : i = j
    · rw [hi, Function.update_self]
      exact iff_of_false hnew (hi ▸ hold)
    · rw [Function.update_of_ne hi]
  cases hs with
  | begins | refused | forked | lists | listed | leaves | ends => exact (and_iff_left nofun).symm
  | @forks k hpc hk =>
      dsimp only
      by_cases hi : i = ⟨k, hk⟩
      · rw [hi, Function.update_self]
        exact iff_of_false nofun fun h => h.2 rfl
      · rw [Function.update_of_ne hi]
        exact (and_iff_left fun h => hi (Event.forks.inj h).symm).symm
  | asks hpc | prints hpc | keeps hpc | childLeaves hpc | childEnds hpc =>
      exact (hgoes (by simp [hpc]) (by simp)).trans (and_iff_left nofun).symm

/-- The children that are absent are those that have not been forked. -/
lemma absent_iff (h : (program ids out).Run started tr s) (i : Fin n) :
    (s.children i).pc = .absent ↔ .forks i ∉ tr.map Prod.snd := by
  refine h.induct_trace (I := fun tr s => (s.children i).pc = .absent ↔ .forks i ∉ tr.map Prod.snd)
    (iff_of_true rfl List.not_mem_nil) fun tr s m e s' hI hs => ?_
  rw [absent_step (step_of_program hs) i, hI, List.map_append, List.mem_append, not_or]
  refine and_congr_right' (not_congr ?_)
  exact ⟨fun h => List.mem_singleton.mpr h.symm, fun h => (List.mem_singleton.mp h).symm⟩

/-! ### The end -/

/-- The steps of the parent that are left at most, with those of the children it has to fork. -/
def Pc.steps (n : ℕ) : Pc → ℕ
  | .begins => 6 * n + 5
  | .forking k => 5 * (n - k) + n + 4
  | .listing k => (n - k) + 3
  | .leaving _ => 2
  | .ending _ => 1
  | .exited _ => 0

/-- The steps of a child that are left. -/
def Child.steps (v : Child) : ℕ :=
  match v.pc with
  | .sleeping => 4
  | .printing => 3
  | .leaving => 2
  | .ending => 1
  | .absent | .exited => 0

def State.stepsLeft (s : State n) : ℕ := s.pc.steps n + ∑ i, (s.children i).steps

lemma stepsLeft_lt (hs : Step ids out s e s') : s'.stepsLeft < s.stepsLeft := by
  have hgoes : ∀ {i : Fin n} {v : Child}, v.steps < (s.children i).steps →
      s.pc.steps n + ∑ j, (Function.update s.children i v j).steps < s.stepsLeft := by
    intro i v hv
    have hsum := sum_update Child.steps s.children i v
    rw [State.stepsLeft]
    omega
  cases hs with
  | begins hpc | refused hpc hk | forked hpc hk | lists hpc hk | listed hpc hk | leaves hpc
  | ends hpc =>
      simp only [State.stepsLeft, State.tells, hpc, Pc.steps]
      omega
  | @forks k hpc hk =>
      -- the new child brings its own steps
      have hsum := sum_update Child.steps s.children ⟨k, hk⟩ ⟨.sleeping, s.buffer⟩
      have hnew : Child.steps ⟨.sleeping, s.buffer⟩ = 4 := rfl
      simp only [State.stepsLeft, hpc, Pc.steps]
      omega
  | asks hpc | prints hpc | keeps hpc | childLeaves hpc | childEnds hpc =>
      refine hgoes ?_
      simp only [Child.steps, hpc]
      omega

/-- Nobody can go on only when all have ended. -/
lemma exited_of_stuck (h : (program ids out).Stuck s) : (∃ ok, s.pc = .exited ok)
    ∧ ∀ i, (s.children i).pc = .absent ∨ (s.children i).pc = .exited := by
  rw [Machine.stuck_iff] at h
  constructor
  · have hparent : Orphans.parent ids out s true = none := h (.parent true)
    rw [Orphans.parent] at hparent
    cases hpc : s.pc with
    | exited ok => exact ⟨ok, rfl⟩
    | begins | leaving | ending =>
        simp only [hpc] at hparent
        cases hparent
    | forking | listing =>
        simp only [hpc] at hparent
        split_ifs at hparent
  · intro i
    have hchild : Orphans.child ids out s i = none := h (.child i)
    unfold Orphans.child at hchild
    cases hpc : (s.children i).pc with
    | absent => exact Or.inl rfl
    | exited => exact Or.inr rfl
    | sleeping | leaving | ending =>
        simp only [hpc] at hchild
        cases hchild
    | printing =>
        simp only [hpc] at hchild
        cases out <;> cases hchild

/-- **What is written**: however the processes are scheduled and whether or not a `fork` fails,
they all come to an end, and then the parent and each child that has been forked have written
their lines once. Into a file every child writes the first line of the parent as well. A child
tells its parent as long as that one has not ended, and else the process that has taken it
over. -/
theorem printed_of_run (h : (program ids out).Run started tr s) :
    tr.length ≤ 6 * n + 5
      ∧ ((program ids out).Stuck s → ∃ ok, s.pc = .exited ok
        ∧ part none (written tr) = parentLines ids ok
        ∧ ∀ i, ok = false ∧ .forks i ∉ tr.map Prod.snd ∧ part (some i) (written tr) = []
          ∨ ∃ ppid, Asked ids i ppid tr ∧ part (some i) (written tr)
            = copied ids out ++ [.child (ids.child i) ppid ids.group]) := by
  refine ⟨?_, fun hstuck => ?_⟩
  · calc tr.length
        ≤ (started : State n).stepsLeft := h.length_le fun _ _ _ _ hs =>
          stepsLeft_lt (step_of_program hs)
      _ = 6 * n + 5 := by simp [State.stepsLeft, started, Pc.steps, Child.steps]
  · have hk := kept_of_run h
    obtain ⟨⟨ok, hpc⟩, hchildren⟩ := exited_of_stuck hstuck
    have hlines := hk.parent.lines
    rw [hk.parent.flushed ok (Or.inr hpc), List.append_nil, hpc] at hlines
    refine ⟨ok, hpc, hlines, fun i => ?_⟩
    have hchild := hk.child i
    rw [ChildKept] at hchild
    rcases hchildren i with habsent | hexited
    · refine Or.inl ⟨?_, (absent_iff h i).mp habsent, by rw [habsent] at hchild; exact hchild⟩
      -- a parent that has listed its children has forked all of them
      cases ok with
      | false => rfl
      | true =>
          have hpresent := hk.parent.present
          rw [hpc] at hpresent
          exact absurd habsent (hpresent i)
    · rw [hexited] at hchild
      exact Or.inr hchild

/-- Two numbered children of a process `10`. -/
def numbered : Ids 2 := ⟨10, 10, fun i => 11 + i.val, 1⟩

/-- The parent ends before its second child asks, and all write into a file. -/
theorem printed_of_run_file : ∃ tr s, (program numbered .file).Run started tr s
    ∧ part none (written tr) = [.parent 10 10, .message, .listed 0 11, .listed 1 12]
    ∧ ∀ i, ∃ ppid, Asked numbered i ppid tr
      ∧ part (some i) (written tr) = [.parent 10 10, .child (11 + i.val) ppid 10] := by
  obtain ⟨tr, s, h, hp⟩ := Machine.exists_run (show (((program numbered .file).exec
    (.replicate 3 (.parent true) ++ .replicate 4 (.child 0) ++ .replicate 6 (.parent true)
      ++ .replicate 4 (.child 1)) started).any fun r => r.2.pc = .exited true
        && (r.2.children 0).pc = .exited && (r.2.children 1).pc = .exited) = true by
          decide +kernel)
  simp only [Bool.and_eq_true, decide_eq_true_eq] at hp
  obtain ⟨⟨hpc, hzero⟩, hone⟩ := hp
  have hchildren : ∀ i, (s.children i).pc = .exited := fun i => by
    fin_cases i
    · exact hzero
    · exact hone
  -- nobody can move any more
  have hstuck : (program numbered .file).Stuck s := by
    rw [Machine.stuck_iff]
    rintro (ok | i)
    · simp only [program, Orphans.parent, hpc]
    · simp only [program, Orphans.child, hchildren i]
  obtain ⟨-, hend⟩ := printed_of_run h
  obtain ⟨ok, hok, hparent, hall⟩ := hend hstuck
  rw [hpc, Pc.exited.injEq] at hok
  subst hok
  refine ⟨tr, s, h, hparent, fun i => ?_⟩
  rcases hall i with ⟨hfalse, -, -⟩ | hchild
  · cases hfalse
  · exact hchild

end Orphans

end Processes

end OperatingSys
