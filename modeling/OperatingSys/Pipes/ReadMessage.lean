import OperatingSys.Foundations.CString
import OperatingSys.Foundations.Machine
import OperatingSys.Foundations.Population

/-!
The message from the pipe, `os_01/lab_04/src/04.c`.

Each child writes its message and exits; the parent closes its own end and reads byte by
byte until no writer is left. The forks are left out: a child that is not there yet is one
that has not moved, and after a `fork` that has failed the parent does not come to
`read_message`. `read` fails nowhere, and a write goes to the pipe in one piece.

The index is advanced for every `read`, also for the one that finds the end of the
messages. So `read_message` puts its terminator one place behind that end, and what was
there before stays between the two (`message_kept_iff`).
-/

namespace OperatingSys

namespace Pipes

def BUF_SIZE : ℕ := 256

/-- `buffer`, whatever it holds. -/
structure Buffer where
  bytes : List UInt8
  size : bytes.length = BUF_SIZE

/-- A store, if it is inside. -/
def Buffer.store (b : Buffer) (i : ℕ) (x : UInt8) : Option Buffer :=
  if i < BUF_SIZE then some ⟨b.bytes.set i x, by rw [List.length_set, b.size]⟩ else none

/-- A child, with the write end of the pipe until it has exited. -/
inductive Child where
  | writing (msg : List UInt8)
  | leaving
  | exited
  deriving DecidableEq

/-- Where the parent is in `read_message`, or `strayed` after a store outside `buff`. -/
inductive Pc where
  | closing
  | reading
  | ending
  | done
  | strayed
  deriving DecidableEq

structure Parent where
  buff : Buffer
  index : ℕ
  pc : Pc

/-- The bytes in the pipe, the children and the parent. -/
structure State (κ : Type*) where
  pipe : List UInt8
  children : κ → Child
  parent : Parent

inductive Proc (κ : Type*) where
  | parent
  | child (i : κ)

inductive Event where
  | write (msg : List UInt8)
  | exit
  | close
  | read (b : UInt8)
  | eof
  | terminate
  | stray

/-- A child, on the pipe and its own state. -/
def child (pipe : List UInt8) : Child → Option (Event × List UInt8 × Child)
  | .writing msg => some (.write msg, pipe ++ msg, .leaving)
  | .leaving => some (.exit, pipe, .exited)
  | .exited => none

/-- `read_message`, on the pipe and the parent. `read` waits while the pipe is empty and has
writers. -/
def readMessage (writers : Bool) (pipe : List UInt8) (p : Parent) :
    Option (Event × List UInt8 × Parent) :=
  match p.pc with
  | .closing => some (.close, pipe, { p with pc := .reading })
  | .reading =>
      match pipe with
      | b :: pipe =>
          match p.buff.store p.index b with
          | some buff => some (.read b, pipe, ⟨buff, p.index + 1, .reading⟩)
          | none => some (.stray, pipe, { p with pc := .strayed })
      | [] => if writers then none else some (.eof, [], ⟨p.buff, p.index + 1, .ending⟩)
  | .ending =>
      match p.buff.store p.index 0 with
      | some buff => some (.terminate, pipe, ⟨buff, p.index, .done⟩)
      | none => some (.stray, pipe, { p with pc := .strayed })
  | .done | .strayed => none

section Program

variable {κ : Type*} [Fintype κ] [DecidableEq κ]

/-- The parent and its children. -/
def program : Machine (State κ) (Proc κ) Event where
  step s
    | .parent =>
        (readMessage (decide (∃ i, s.children i ≠ .exited)) s.pipe s.parent).map
          fun (e, pipe, p) => (e, { s with pipe := pipe, parent := p })
    | .child i =>
        (child s.pipe (s.children i)).map fun (e, pipe, c) =>
          (e, { s with pipe := pipe, children := Function.update s.children i c })

/-- The children have been forked, and the parent calls `read_message`. -/
def forked (msg : κ → List UInt8) (buffer : Buffer) : State κ :=
  ⟨[], fun i => .writing (msg i), ⟨buffer, 0, .closing⟩⟩

/-! ### One step -/

/-- The steps of `read_message`. -/
inductive ParentStep (writers : Bool) : List UInt8 → Parent → Event → List UInt8 → Parent → Prop
  | close {pipe : List UInt8} {buff : Buffer} {index : ℕ} :
      ParentStep writers pipe ⟨buff, index, .closing⟩ .close pipe ⟨buff, index, .reading⟩
  | read {pipe : List UInt8} {buff buff' : Buffer} {index : ℕ} {b : UInt8}
      (h : buff.store index b = some buff') :
      ParentStep writers (b :: pipe) ⟨buff, index, .reading⟩ (.read b) pipe
        ⟨buff', index + 1, .reading⟩
  | readStray {pipe : List UInt8} {buff : Buffer} {index : ℕ} {b : UInt8}
      (h : buff.store index b = none) :
      ParentStep writers (b :: pipe) ⟨buff, index, .reading⟩ .stray pipe ⟨buff, index, .strayed⟩
  | eof {buff : Buffer} {index : ℕ} (h : writers = false) :
      ParentStep writers [] ⟨buff, index, .reading⟩ .eof [] ⟨buff, index + 1, .ending⟩
  | terminate {pipe : List UInt8} {buff buff' : Buffer} {index : ℕ}
      (h : buff.store index 0 = some buff') :
      ParentStep writers pipe ⟨buff, index, .ending⟩ .terminate pipe ⟨buff', index, .done⟩
  | endStray {pipe : List UInt8} {buff : Buffer} {index : ℕ} (h : buff.store index 0 = none) :
      ParentStep writers pipe ⟨buff, index, .ending⟩ .stray pipe ⟨buff, index, .strayed⟩

lemma parentStep_of_readMessage {writers : Bool} {pipe pipe' : List UInt8} {p p' : Parent}
    {e : Event} (h : readMessage writers pipe p = some (e, pipe', p')) :
    ParentStep writers pipe p e pipe' p' := by
  obtain ⟨buff, index, pc⟩ := p
  cases pc with
  | closing =>
      cases h
      exact .close
  | reading =>
      cases pipe with
      | cons b pipe =>
          simp only [readMessage] at h
          -- the byte is stored, or `buff` is full
          cases hstore : buff.store index b with
          | some buff' =>
              rw [hstore] at h
              cases h
              exact .read hstore
          | none =>
              rw [hstore] at h
              cases h
              exact .readStray hstore
      | nil =>
          simp only [readMessage] at h
          split_ifs at h with hw
          cases h
          exact .eof (by simpa using hw)
  | ending =>
      simp only [readMessage] at h
      cases hstore : buff.store index 0 with
      | some buff' =>
          rw [hstore] at h
          cases h
          exact .terminate hstore
      | none =>
          rw [hstore] at h
          cases h
          exact .endStray hstore
  | done | strayed => cases h

variable {s s' : State κ} {i : κ} {e : Event}

lemma parent_step (h : program.step s .parent = some (e, s')) :
    ParentStep (decide (∃ i, s.children i ≠ .exited)) s.pipe s.parent e s'.pipe s'.parent
      ∧ s'.children = s.children := by
  obtain ⟨⟨e', pipe, p⟩, hstep, heq⟩ := Option.map_eq_some_iff.mp h
  cases heq
  exact ⟨parentStep_of_readMessage hstep, rfl⟩

/-- What a step writes to the pipe. -/
def Event.written : Event → List UInt8
  | .write msg => msg
  | .exit | .close | .read _ | .eof | .terminate | .stray => []

/-- The steps of a child and those that go with what it has in the pipe. -/
def Child.steps : Child → ℕ
  | .writing msg => msg.length + 2
  | .leaving => 1
  | .exited => 0

lemma child_cases {pipe pipe' : List UInt8} {c c' : Child}
    (h : child pipe c = some (e, pipe', c')) : c ≠ .exited ∧ pipe' = pipe ++ e.written
      ∧ pipe'.length + c'.steps < pipe.length + c.steps := by
  cases c with
  | writing msg =>
      cases h
      refine ⟨nofun, rfl, ?_⟩
      rw [List.length_append, Child.steps, Child.steps]
      omega
  | leaving =>
      cases h
      exact ⟨nofun, (List.append_nil _).symm, Nat.lt_succ_self _⟩
  | exited => cases h

lemma child_step (h : program.step s (.child i) = some (e, s')) : ∃ c,
    child s.pipe (s.children i) = some (e, s'.pipe, c)
      ∧ s'.children = Function.update s.children i c ∧ s'.parent = s.parent := by
  obtain ⟨⟨e', pipe, c⟩, hstep, heq⟩ := Option.map_eq_some_iff.mp h
  cases heq
  exact ⟨c, hstep, rfl, rfl⟩

lemma ParentStep.written {writers : Bool} {pipe pipe' : List UInt8} {p p' : Parent}
    (h : ParentStep writers pipe p e pipe' p') : e.written = [] := by
  cases h <;> rfl

/-! ### What has arrived and where it is -/

/-- The bytes written to the pipe, in this order. -/
def arrived (tr : List (Proc κ × Event)) : List UInt8 := tr.flatMap fun q => q.2.written

omit [Fintype κ] [DecidableEq κ] in
lemma arrived_snoc (tr : List (Proc κ × Event)) (i : Proc κ) (e : Event) :
    arrived (tr ++ [(i, e)]) = arrived tr ++ e.written := by
  rw [arrived, List.flatMap_append, List.flatMap_singleton]
  rfl

namespace Buffer

variable {b b' : Buffer} {j : ℕ} {x : UInt8}

lemma store_cases (h : b.store j x = some b') : j < BUF_SIZE ∧ b'.bytes = b.bytes.set j x := by
  rw [store] at h
  split_ifs at h with hj
  cases h
  exact ⟨hj, rfl⟩

lemma le_of_store (h : b.store j x = none) : BUF_SIZE ≤ j := by
  rw [store] at h
  split_ifs at h with hj
  exact Nat.le_of_not_lt hj

end Buffer

/-- While the parent reads, the bytes before its index are in `buff` and the others in the
pipe. -/
structure Reading (buffer : Buffer) (A pipe : List UInt8) (p : Parent) : Prop where
  index_le : p.index ≤ A.length
  inside : p.index ≤ BUF_SIZE
  pipe : pipe = A.drop p.index
  buff : p.buff.bytes = A.take p.index ++ buffer.bytes.drop p.index

/-- **The invariant of a run** in which `A` has arrived. -/
def Stage (buffer : Buffer) (A : List UInt8) (s : State κ) : Prop :=
  match s.parent.pc with
  | .closing | .reading => Reading buffer A s.pipe s.parent
  | .ending => (∀ i, s.children i = .exited) ∧ A.length ≤ BUF_SIZE
      ∧ s.parent.index = A.length + 1 ∧ s.parent.buff.bytes = A ++ buffer.bytes.drop A.length
  | .done => (∀ i, s.children i = .exited) ∧ A.length + 1 < BUF_SIZE
      ∧ s.parent.buff.bytes = (A ++ buffer.bytes.drop A.length).set (A.length + 1) 0
  | .strayed => BUF_SIZE < A.length + 2

namespace Reading

variable {buffer : Buffer} {A pipe : List UInt8} {p : Parent}

lemma append (h : Reading buffer A pipe p) (B : List UInt8) :
    Reading buffer (A ++ B) (pipe ++ B) p where
  index_le := by
    rw [List.length_append]
    exact h.index_le.trans (Nat.le_add_right _ _)
  inside := h.inside
  pipe := by rw [h.pipe, List.drop_append_of_le_length h.index_le]
  buff := by rw [h.buff, List.take_append_of_le_length h.index_le]

/-- A byte is read. -/
lemma read {buff buff' : Buffer} {j : ℕ} {b : UInt8}
    (h : Reading buffer A (b :: pipe) ⟨buff, j, .reading⟩) (hstore : buff.store j b = some buff') :
    Reading buffer A pipe ⟨buff', j + 1, .reading⟩ := by
  obtain ⟨hj, hbytes⟩ := Buffer.store_cases hstore
  obtain ⟨hle, hin, hpipe, hbuff⟩ := h
  dsimp only at hle hin hpipe hbuff
  have hlt : j < A.length := by
    by_contra hge
    rw [List.drop_of_length_le (Nat.le_of_not_lt hge)] at hpipe
    cases hpipe
  have hsize : j < buffer.bytes.length := by
    rw [buffer.size]
    exact hj
  have htake : (A.take j).length = j := by
    rw [List.length_take, min_eq_left hle]
  rw [List.drop_eq_getElem_cons hlt, List.cons.injEq] at hpipe
  refine ⟨hlt, hj, hpipe.2, ?_⟩
  show buff'.bytes = _
  rw [hbytes, hbuff, List.set_append_right _ _ htake.le, htake, Nat.sub_self,
    List.drop_eq_getElem_cons hsize, List.set_cons_zero, List.take_succ_eq_append_getElem hlt,
    List.append_assoc, hpipe.1, List.singleton_append]

/-- At the end of the file all that has arrived is in `buff`. -/
lemma eof (h : Reading buffer A [] p) : A.length ≤ BUF_SIZE ∧ p.index = A.length
    ∧ p.buff.bytes = A ++ buffer.bytes.drop A.length := by
  have hindex : p.index = A.length :=
    le_antisymm h.index_le (List.drop_eq_nil_iff.mp h.pipe.symm)
  have hbuff := h.buff
  rw [hindex, List.take_length] at hbuff
  exact ⟨hindex ▸ h.inside, hindex, hbuff⟩

end Reading

variable {buffer : Buffer} {A : List UInt8}

/-- A step of a child. -/
lemma Stage.child (h : Stage buffer A s) (hs : program.step s (.child i) = some (e, s')) :
    Stage buffer (A ++ e.written) s' := by
  obtain ⟨c, hstep, hchildren, hparent⟩ := child_step hs
  obtain ⟨hbusy, hpipe, -⟩ := child_cases hstep
  rw [Stage] at h ⊢
  rw [hparent, hpipe]
  generalize hpc : s.parent.pc = pc at h ⊢
  cases pc with
  | closing | reading => exact Reading.append h e.written
  | ending | done => exact absurd (h.1 i) hbusy
  | strayed =>
      dsimp only at h ⊢
      rw [List.length_append]
      omega

/-- A step of the parent. -/
lemma Stage.parent (h : Stage buffer A s) (hs : program.step s .parent = some (e, s')) :
    Stage buffer A s' := by
  obtain ⟨hstep, hchildren⟩ := parent_step hs
  rw [Stage] at h ⊢
  rw [hchildren]
  generalize hp : s.parent = p at h hstep
  generalize hp' : s'.parent = p' at hstep ⊢
  generalize hq : s.pipe = pipe at h hstep
  generalize hq' : s'.pipe = pipe' at hstep ⊢
  cases hstep with
  | close => exact ⟨h.index_le, h.inside, h.pipe, h.buff⟩
  | read hstore => exact Reading.read h hstore
  | readStray hstore =>
      -- all of `buff` is full, and bytes are left
      have hle := h.index_le
      have hge := Buffer.le_of_store hstore
      dsimp only at hle ⊢
      omega
  | eof hw =>
      have hall : ∀ i, s.children i = .exited := by simpa using hw
      obtain ⟨hlen, hindex, hbuff⟩ := Reading.eof h
      exact ⟨hall, hlen, congrArg (· + 1) hindex, hbuff⟩
  | terminate hstore =>
      obtain ⟨hall, hlen, hindex, hbuff⟩ := h
      obtain ⟨hin, hbytes⟩ := Buffer.store_cases hstore
      dsimp only at hindex hbuff
      rw [hbuff, hindex] at hbytes
      exact ⟨hall, hindex ▸ hin, hbytes⟩
  | endStray hstore =>
      obtain ⟨-, -, hindex, -⟩ := h
      have hge := Buffer.le_of_store hstore
      dsimp only at hindex ⊢
      omega

omit [Fintype κ] [DecidableEq κ] in
lemma stage_forked (msg : κ → List UInt8) (buffer : Buffer) :
    Stage buffer [] (forked msg buffer) := ⟨le_rfl, Nat.zero_le _, rfl, rfl⟩

lemma stage_run {msg : κ → List UInt8} {tr : List (Proc κ × Event)}
    (h : program.Run (forked msg buffer) tr s) : Stage buffer (arrived tr) s := by
  refine h.induct_trace (I := fun tr s => Stage buffer (arrived tr) s)
    (stage_forked msg buffer) ?_
  intro tr t i e u hI hs
  rw [arrived_snoc]
  cases i with
  | child i => exact hI.child hs
  | parent =>
      rw [(parent_step hs).1.written, List.append_nil]
      exact hI.parent hs

/-! ### The end of the message -/

/-- The parent goes no further: `read_message` has returned, or has stored outside `buff`. -/
def Pc.stopped : Pc → Bool
  | .done | .strayed => true
  | .closing | .reading | .ending => false

/-- The string that is left in `buff`: the place behind the message keeps its byte. -/
lemma cstr_done (hclean : (0 : UInt8) ∉ A) (hlen : A.length + 1 < BUF_SIZE) :
    cstr ((A ++ buffer.bytes.drop A.length).set (A.length + 1) 0) 0 = some A
      ↔ buffer.bytes[A.length]? = some 0 := by
  have hsize := buffer.size
  have hlt : A.length < buffer.bytes.length := by omega
  have hlt' : A.length + 1 < buffer.bytes.length := by omega
  rw [List.set_append_right _ _ (Nat.le_add_right _ 1), Nat.add_sub_cancel_left,
    List.drop_eq_getElem_cons hlt, List.drop_eq_getElem_cons hlt', List.set_cons_succ,
    List.set_cons_zero, List.getElem?_eq_getElem hlt, Option.some.injEq]
  generalize buffer.bytes[A.length] = y
  by_cases hy : y = 0
  · subst hy
    exact iff_of_true (cstr_front hclean _) rfl
  · -- the string goes on for one byte more
    refine iff_of_false (fun h => ?_) hy
    have hclean' : (0 : UInt8) ∉ A ++ [y] := by
      rw [List.mem_append, List.mem_singleton, not_or]
      exact ⟨hclean, Ne.symm hy⟩
    rw [List.append_cons, cstr_front hclean', Option.some.injEq, List.append_right_eq_self] at h
    cases h

omit [Fintype κ] [DecidableEq κ] in
/-- A run that goes no further, with the string that is left. -/
lemma Stage.kept_iff (h : Stage buffer A s) (hstopped : s.parent.pc.stopped = true)
    (hclean : (0 : UInt8) ∉ A) (hlen : A.length ≤ BUF_SIZE - 2) :
    (s.parent.pc = .done ∧ cstr s.parent.buff.bytes 0 = some A)
      ↔ buffer.bytes[A.length]? = some 0 := by
  rw [Stage] at h
  generalize hpc : s.parent.pc = pc at h hstopped
  cases pc with
  | closing | reading | ending => cases hstopped
  | done =>
      obtain ⟨-, hin, hbuff⟩ := h
      rw [hbuff, cstr_done hclean hin]
      exact and_iff_right rfl
  | strayed =>
      have hsize : BUF_SIZE = 256 := rfl
      dsimp only at h
      omega

/-- The steps of the parent beside those that take a byte. -/
def Pc.steps : Pc → ℕ
  | .closing => 3
  | .reading => 2
  | .ending => 1
  | .done | .strayed => 0

lemma ParentStep.steps_lt {writers : Bool} {pipe pipe' : List UInt8} {p p' : Parent}
    (h : ParentStep writers pipe p e pipe' p') :
    pipe'.length + p'.pc.steps < pipe.length + p.pc.steps := by
  cases h <;> simp only [Pc.steps, List.length_cons] <;> omega

/-- Where nobody can move the children have exited. -/
lemma exited_of_stuck (h : program.Stuck s) (i : κ) : s.children i = .exited := by
  have hchild := Machine.stuck_iff.mp h (.child i)
  simp only [program, Option.map_eq_none_iff] at hchild
  generalize s.children i = c at hchild
  cases c with
  | writing msg | leaving => cases hchild
  | exited => rfl

/-- The steps that all have before them at most. -/
def State.stepsLeft (s : State κ) : ℕ :=
  ∑ j, (s.children j).steps + (s.pipe.length + s.parent.pc.steps)

lemma stepsLeft_lt {i : Proc κ} (h : program.step s i = some (e, s')) :
    s'.stepsLeft < s.stepsLeft := by
  rw [State.stepsLeft, State.stepsLeft]
  cases i with
  | parent =>
      obtain ⟨hstep, hchildren⟩ := parent_step h
      have hless := hstep.steps_lt
      rw [hchildren]
      omega
  | child i =>
      obtain ⟨c, hstep, hchildren, hparent⟩ := child_step h
      obtain ⟨-, -, hless⟩ := child_cases hstep
      have hsum := sum_update Child.steps s.children i c
      rw [hchildren, hparent]
      omega

/-! ### The end of the file -/

/-- Where the end of the file has come. A store outside is behind it, or has left bytes
unread. -/
def Ended (tr : List (Proc κ × Event)) (s : State κ) : Prop :=
  match s.parent.pc with
  | .closing | .reading => .eof ∉ tr.map Prod.snd
  | .ending | .done => .eof ∈ tr.map Prod.snd
  | .strayed => (.eof ∈ tr.map Prod.snd ∧ (∀ i, s.children i = .exited)
        ∧ (arrived tr).length ≤ BUF_SIZE)
      ∨ (.eof ∉ tr.map Prod.snd ∧ BUF_SIZE < (arrived tr).length)

omit [Fintype κ] [DecidableEq κ] in
lemma eof_snoc {tr : List (Proc κ × Event)} {m : Proc κ} :
    .eof ∈ (tr ++ [(m, e)]).map Prod.snd ↔ .eof ∈ tr.map Prod.snd ∨ e = .eof := by
  rw [List.map_append, List.mem_append, List.map_singleton, List.mem_singleton, eq_comm (b := e)]

lemma Ended.child {tr : List (Proc κ × Event)} (h : Ended tr s)
    (hs : program.step s (.child i) = some (e, s')) : Ended (tr ++ [(.child i, e)]) s' := by
  obtain ⟨c, hstep, hchildren, hparent⟩ := child_step hs
  have heof : .eof ∈ (tr ++ [(Proc.child i, e)]).map Prod.snd ↔ Event.eof ∈ tr.map Prod.snd := by
    rw [eof_snoc]
    refine or_iff_left ?_
    rintro rfl
    generalize s.children i = c' at hstep
    cases c' <;> cases hstep
  rw [Ended] at h ⊢
  rw [hparent, heof, arrived_snoc, List.length_append]
  cases hpc : s.parent.pc with
  | closing | reading | ending | done =>
      rw [hpc] at h
      exact h
  | strayed =>
      rw [hpc] at h
      rcases h with ⟨-, hall, -⟩ | ⟨hnot, hlen⟩
      · exact absurd (hall i) (child_cases hstep).1
      · exact Or.inr ⟨hnot, hlen.trans_le (Nat.le_add_right _ _)⟩

lemma Ended.parent {tr : List (Proc κ × Event)} (h : Ended tr s)
    (hstage : Stage buffer (arrived tr) s) (hs : program.step s .parent = some (e, s')) :
    Ended (tr ++ [(.parent, e)]) s' := by
  obtain ⟨hstep, hchildren⟩ := parent_step hs
  rw [Stage] at hstage
  rw [Ended] at h ⊢
  rw [eof_snoc, arrived_snoc, hstep.written, List.append_nil, hchildren]
  generalize hp : s.parent = p at h hstage hstep
  generalize hp' : s'.parent = p' at hstep ⊢
  generalize hq : s.pipe = pipe at hstage hstep
  generalize hq' : s'.pipe = pipe' at hstep ⊢
  cases hstep with
  | close | read => exact fun hmem => hmem.elim h nofun
  | readStray hstore =>
      -- the byte at the index is still in the pipe
      have hlt : (arrived tr).length ≠ _ := fun hlen => by
        have hnil := hstage.pipe
        rw [List.drop_of_length_le hlen.le] at hnil
        cases hnil
      have hge := Buffer.le_of_store hstore
      have hle := hstage.index_le
      dsimp only at hlt hle
      exact Or.inr ⟨fun hmem => hmem.elim h nofun, by omega⟩
  | eof hw => exact Or.inr rfl
  | terminate hstore => exact Or.inl h
  | endStray hstore => exact Or.inl ⟨Or.inl h, hstage.1, hstage.2.1⟩

/-- **The message from the pipe**: of what has arrived, if it is clean and leaves room for two
bytes more, the string in `buff` is left exactly when `buffer` held a terminator at the place
behind it. No store goes outside. -/
theorem message_kept_iff (msg : κ → List UInt8) (buffer : Buffer) {tr : List (Proc κ × Event)}
    {s : State κ} (h : program.Run (forked msg buffer) tr s) (hstopped : s.parent.pc.stopped = true)
    (hclean : (0 : UInt8) ∉ arrived tr) (hlen : (arrived tr).length ≤ BUF_SIZE - 2) :
    (s.parent.pc = .done ∧ cstr s.parent.buff.bytes 0 = some (arrived tr))
      ↔ buffer.bytes[(arrived tr).length]? = some 0 :=
  (stage_run h).kept_iff hstopped hclean hlen

end Program

/-! ### The messages of the program -/

/-- `REP_N`. -/
abbrev REP_N : ℕ := 2

/-- `msg`, as bytes. -/
def msg : Fin REP_N → List UInt8 := fun i =>
  (if i.val = 0 then "1st msg\n" else "2nd msg long\n").toList.map fun c => UInt8.ofNat c.toNat

/-- `buffer` with one value everywhere. -/
def filled (x : UInt8) : Buffer := ⟨List.replicate BUF_SIZE x, List.length_replicate⟩

/-- The second child writes first, and both exit before the parent reads. -/
def schedule : List (Proc (Fin REP_N)) :=
  [.child 1, .child 0, .child 1, .child 0] ++ List.replicate 24 .parent

/-- Both messages arrive, `21` bytes. -/
lemma exists_run_schedule {x : UInt8} (hx : x = 0 ∨ x = 65) : ∃ tr s,
    program.Run (forked msg (filled x)) tr s ∧ s.parent.pc.stopped = true
      ∧ (0 : UInt8) ∉ arrived tr ∧ (arrived tr).length = 21 := by
  have hrun : (program.exec schedule (forked msg (filled x))).any (fun q =>
      decide (q.2.parent.pc.stopped = true ∧ (0 : UInt8) ∉ arrived q.1
        ∧ (arrived q.1).length = 21)) = true := by
    rcases hx with rfl | rfl <;> decide +kernel
  obtain ⟨tr, s, h, hp⟩ := Machine.exists_run hrun
  exact ⟨tr, s, h, of_decide_eq_true hp⟩

/-- The messages of the program, in a `buffer` of zeros. -/
theorem message_kept_iff_zeros : ∃ (tr : List (Proc (Fin REP_N) × Event)) (s : State (Fin REP_N)),
    program.Run (forked msg (filled 0)) tr s
      ∧ s.parent.pc = .done ∧ cstr s.parent.buff.bytes 0 = some (arrived tr) := by
  obtain ⟨tr, s, h, hstopped, hclean, hlen⟩ := exists_run_schedule (Or.inl rfl)
  refine ⟨tr, s, h,
    (message_kept_iff msg (filled 0) h hstopped hclean (by rw [hlen]; decide)).mpr ?_⟩
  rw [hlen, filled, List.getElem?_replicate_of_lt (by decide)]

/-- The same in a `buffer` of letters: one of them is left behind the messages. -/
theorem letter_behind_message : ¬ ∀ (buffer : Buffer) (tr : List (Proc (Fin REP_N) × Event))
    (s : State (Fin REP_N)), program.Run (forked msg buffer) tr s → s.parent.pc.stopped = true →
      (0 : UInt8) ∉ arrived tr → (arrived tr).length ≤ BUF_SIZE - 2 →
        s.parent.pc = .done ∧ cstr s.parent.buff.bytes 0 = some (arrived tr) := by
  intro hall
  obtain ⟨tr, s, h, hstopped, hclean, hlen⟩ := exists_run_schedule (Or.inr rfl)
  have hroom : (arrived tr).length ≤ BUF_SIZE - 2 := by
    rw [hlen]
    decide
  have hzero := ((stage_run h).kept_iff hstopped hclean hroom).mp
    (hall (filled 65) tr s h hstopped hclean hroom)
  rw [hlen, filled, List.getElem?_replicate_of_lt (by decide)] at hzero
  cases hzero

end Pipes

end OperatingSys
