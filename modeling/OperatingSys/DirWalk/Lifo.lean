import OperatingSys.DirWalk.Stack
import OperatingSys.Foundations.Machine

/-!
The linked stack under a client that uses it as it is meant to be used.

The client holds nodes, those that it made or was given by `pop`, and may push or free only
these; it pops only while the stack is not free. `onStack` is what it has pushed and not
popped yet, and `Lifo` says that the chain, `pop` and `is_free` agree with it.

The link of a node is the one it was left with: `init_node` clears it, `push` sets it where
there is a node to link to, and `pop` keeps it. So a node pushed onto an empty stack is the
whole chain only if it holds no link (`lifo_iff`).
-/

namespace OperatingSys

namespace DirWalk

/-- The operations on the stack. -/
inductive StackOp where
  | initNode (x : Item)
  | push (new : ℕ)
  | pop (mode : Bool)
  | freeNode (node : ℕ)

/-- The stack and the nodes that its client holds. -/
structure Client where
  stk : StackT
  held : List ℕ

/-- What a client may do: it pushes and frees what it holds, and pops from a stack that is
not free. -/
def Allowed (s : Client) : StackOp → Prop
  | .initNode _ => True
  | .push p | .freeNode p => p ∈ s.held
  | .pop _ => isFree s.stk = false

instance (s : Client) : DecidablePred (Allowed s)
  | .initNode _ => inferInstanceAs (Decidable True)
  | .push p | .freeNode p => inferInstanceAs (Decidable (p ∈ s.held))
  | .pop _ => inferInstanceAs (Decidable (isFree s.stk = false))

/-- An operation, with the pointer that it returns. -/
def operate (A : Malloc) (s : Client) : StackOp → Option (Option ℕ × Client)
  | .initNode x =>
      let (node, stk) := initNode A s.stk x.data x.level x.inode
      some (some node, ⟨stk, node :: s.held⟩)
  | .push p => (push s.stk p).map fun stk => (none, ⟨stk, s.held.filter (· ≠ p)⟩)
  | .pop mode => (pop s.stk mode).map fun (ptr, stk) => (ptr, ⟨stk, ptr.toList ++ s.held⟩)
  | .freeNode p => (freeNode s.stk p).map fun stk => (none, ⟨stk, s.held.filter (· ≠ p)⟩)

/-- The client and its stack. -/
def client (A : Malloc) : Machine Client StackOp (Option ℕ) where
  step s op := if Allowed s op then operate A s op else none

/-! ### The list of the pushed nodes -/

/-- What an operation does to the list of the pushed nodes. -/
def StackOp.onList (l : List ℕ) : StackOp → List ℕ
  | .push p => p :: l
  | .pop _ => l.tail
  | .initNode _ | .freeNode _ => l

/-- The pushed and not yet popped nodes, the last one first. -/
def onStack (tr : List (StackOp × Option ℕ)) : List ℕ := tr.foldl (fun l q => q.1.onList l) []

lemma onStack_snoc (tr : List (StackOp × Option ℕ)) (op : StackOp) (r : Option ℕ) :
    onStack (tr ++ [(op, r)]) = op.onList (onStack tr) := by
  rw [onStack, List.foldl_concat]
  rfl

/-- **Last in, first out**: the nodes from the top on are the pushed and not yet popped ones,
every `pop` that keeps its node has returned the last of them, and the stack is free when
there are none. -/
structure Lifo (tr : List (StackOp × Option ℕ)) (s : Client) : Prop where
  nodes : ∃ C, Linked s.stk.heap s.stk.top C ∧ C.map Prod.fst = onStack tr
  popped : ∀ pre r, pre ++ [(.pop true, r)] <+: tr → r = (onStack pre).head?
  free : isFree s.stk = true ↔ onStack tr = []

/-- A node that is pushed onto an empty stack holds no link. -/
def Unlinked (s : Client) : StackOp → Prop
  | .push p => p ∈ s.held → isFree s.stk = true →
      ∀ node, s.stk.heap.lookup p = some node → node.next = none
  | .initNode _ | .pop _ | .freeNode _ => True

/-- The chain is the list of the pushed nodes, and what the client holds is beside it. -/
def Rows (tr : List (StackOp × Option ℕ)) (s : Client) : Prop :=
  ∃ C, Chained s.stk C s.held ∧ C.map Prod.fst = onStack tr

variable {A : Malloc} {tr : List (StackOp × Option ℕ)} {s s' : Client} {op : StackOp}
  {r : Option ℕ}

lemma Rows.free (h : Rows tr s) : isFree s.stk = true ↔ onStack tr = [] := by
  obtain ⟨C, hc, hC⟩ := h
  rw [hc.isFree_iff, ← hC, List.map_eq_nil_iff]

/-- What an operation does to the chain is what it does to the list. -/
lemma rows_snoc {C : List (ℕ × Item)} (hc : Chained s.stk C s.held)
    (hC : C.map Prod.fst = op.onList (onStack tr)) : Rows (tr ++ [(op, r)]) s :=
  ⟨C, hc, hC.trans (onStack_snoc tr op r).symm⟩

/-- A node that the client holds is pushed. -/
lemma Rows.push (h : Rows tr s) {p : ℕ} (hp : p ∈ s.held) (hu : Unlinked s (.push p)) :
    ∃ s', operate A s (.push p) = some (none, s') ∧ Rows (tr ++ [(.push p, none)]) s' := by
  obtain ⟨C, hc, hC⟩ := h
  obtain ⟨node, hread⟩ := hc.exists_node hp
  have hlink : s.stk.top = none → node.next = none := fun htop =>
    hu hp (by rw [isFree, htop]; rfl) node hread
  obtain ⟨stk, hpush, hc'⟩ := hc.push hp hread hlink
  refine ⟨⟨stk, s.held.filter (· ≠ p)⟩, ?_, rows_snoc hc' ?_⟩
  · rw [DirWalk.operate, hpush, Option.map_some]
  · rw [List.map_cons, hC, StackOp.onList]

/-- The last of the pushed nodes is popped. -/
lemma Rows.pop (h : Rows tr s) (hbusy : isFree s.stk = false) (mode : Bool) : ∃ r s',
    operate A s (.pop mode) = some (r, s') ∧ Rows (tr ++ [(.pop mode, r)]) s'
      ∧ (mode = true → r = (onStack tr).head?) := by
  obtain ⟨C, hc, hC⟩ := h
  obtain ⟨⟨p, x⟩, C, rfl⟩ : ∃ q C', C = q :: C' := by
    refine List.exists_cons_of_ne_nil fun hnil => ?_
    rw [hc.isFree_iff.mpr hnil] at hbusy
    cases hbusy
  have htail : C.map Prod.fst = (StackOp.pop mode).onList (onStack tr) := by
    rw [← hC, List.map_cons, StackOp.onList, List.tail_cons]
  have hhead : (onStack tr).head? = some p := by
    rw [← hC, List.map_cons, List.head?_cons]
  cases mode with
  | true =>
      obtain ⟨node, stk, hpop, -, -, -, hc'⟩ := hc.pop_keep
      refine ⟨some p, ⟨stk, p :: s.held⟩, ?_, rows_snoc hc' htail, fun _ => hhead.symm⟩
      rw [DirWalk.operate, hpop, Option.map_some]
      rfl
  | false =>
      obtain ⟨stk, hpop, hc'⟩ := hc.pop_free
      refine ⟨none, ⟨stk, s.held⟩, ?_, rows_snoc hc' htail, fun h => Bool.noConfusion h⟩
      rw [DirWalk.operate, hpop, Option.map_some]
      rfl

/-- A node that the client holds is freed. -/
lemma Rows.freeNode (h : Rows tr s) {p : ℕ} (hp : p ∈ s.held) :
    ∃ s', operate A s (.freeNode p) = some (none, s') ∧ Rows (tr ++ [(.freeNode p, none)]) s' := by
  obtain ⟨C, hc, hC⟩ := h
  obtain ⟨stk, hfree, hc'⟩ := hc.freeNode hp
  refine ⟨⟨stk, s.held.filter (· ≠ p)⟩, ?_, rows_snoc hc' hC⟩
  rw [DirWalk.operate, hfree, Option.map_some]

/-- **An operation** goes through, and the chain stays the list. -/
lemma Rows.operate (h : Rows tr s) (ha : Allowed s op) (hu : Unlinked s op) :
    ∃ r s', operate A s op = some (r, s') ∧ Rows (tr ++ [(op, r)]) s'
      ∧ (op = .pop true → r = (onStack tr).head?) := by
  cases op with
  | initNode x =>
      obtain ⟨C, hc, hC⟩ := h
      exact ⟨_, _, rfl, rows_snoc (hc.initNode A x) hC, by simp⟩
  | push p =>
      obtain ⟨s', hs, hrows⟩ := h.push (A := A) ha hu
      exact ⟨none, s', hs, hrows, by simp⟩
  | pop mode =>
      obtain ⟨r, s', hs, hrows, hlast⟩ := h.pop (A := A) ha mode
      exact ⟨r, s', hs, hrows, fun he => hlast (StackOp.pop.inj he)⟩
  | freeNode p =>
      obtain ⟨s', hs, hrows⟩ := h.freeNode (A := A) ha
      exact ⟨none, s', hs, hrows, by simp⟩

lemma step_of_allowed (ha : Allowed s op) : (client A).step s op = operate A s op := if_pos ha

lemma allowed_of_step (h : (client A).step s op = some (r, s')) : Allowed s op := by
  by_contra hn
  rw [show (client A).step s op = none from if_neg hn] at h
  cases h

/-- One more operation, last in and first out. -/
lemma Lifo.snoc (h : Lifo tr s) (hrows : Rows (tr ++ [(op, r)]) s')
    (hlast : op = .pop true → r = (onStack tr).head?) : Lifo (tr ++ [(op, r)]) s' where
  nodes := hrows.imp fun _ hC => ⟨hC.1.linked, hC.2⟩
  popped pre r' hpre := by
    rcases List.prefix_concat_iff.mp hpre with heq | hpre
    · obtain ⟨rfl, hq⟩ := List.append_inj' heq rfl
      cases hq
      exact hlast rfl
    · exact h.popped pre r' hpre
  free := hrows.free

/-- A link that a node is pushed with onto an empty stack is followed from there on. -/
lemma Lifo.not_snoc (h : Lifo tr s) (hu : ¬ Unlinked s op) :
    ∃ r s', (client A).step s op = some (r, s') ∧ ¬ Lifo (tr ++ [(op, r)]) s' := by
  cases op with
  | initNode x => exact absurd trivial hu
  | pop mode => exact absurd trivial hu
  | freeNode p => exact absurd trivial hu
  | push p =>
      simp only [Unlinked, not_forall] at hu
      obtain ⟨hp, hfree, node, hread, hlink⟩ := hu
      have htop : s.stk.top = none := Option.isNone_iff_eq_none.mp hfree
      have hempty : onStack tr = [] := h.free.mp hfree
      refine ⟨none, ⟨⟨s.stk.heap, some p⟩, s.held.filter (· ≠ p)⟩, ?_, fun hl => ?_⟩
      · rw [step_of_allowed (show Allowed s (.push p) from hp), operate, push, htop]
        rfl
      · -- a chain of this one node ends at it
        obtain ⟨C, hC, hnodes⟩ := hl.nodes
        rw [onStack_snoc, hempty] at hnodes
        cases hC with
        | cons hread' _ hrest =>
            rw [hread] at hread'
            cases hread'
            rw [List.map_cons, StackOp.onList, List.cons.injEq, List.map_eq_nil_iff] at hnodes
            rw [hnodes.2] at hrest
            cases hrest
            exact hlink rfl

lemma rows_nil (heap : Heap) : Rows [] ⟨⟨heap, none⟩, []⟩ :=
  ⟨[], ⟨.nil, fun _ hp => absurd hp List.not_mem_nil⟩, rfl⟩

lemma lifo_nil (heap : Heap) : Lifo [] ⟨⟨heap, none⟩, []⟩ where
  nodes := ⟨[], .nil, rfl⟩
  popped pre r hpre := by simp at hpre
  free := (rows_nil heap).free

/-- A client that keeps to what is allowed and pushes no link onto an empty stack is never
stopped. -/
theorem exec_of_allowed (A : Malloc) (heap : Heap) {ops : List StackOp}
    (h : (client A).Meets (fun s op => Allowed s op ∧ Unlinked s op) ops ⟨⟨heap, none⟩, []⟩) :
    ∃ tr s, (client A).exec ops ⟨⟨heap, none⟩, []⟩ = some (tr, s) ∧ Lifo tr s ∧ Rows tr s := by
  refine Machine.exec_of_meets (I := fun tr s => Lifo tr s ∧ Rows tr s)
    ⟨lifo_nil heap, rows_nil heap⟩ ?_ h
  rintro tr s op ⟨hl, hrows⟩ ⟨ha, hu⟩
  obtain ⟨r, s', hp, hrows', hlast⟩ := hrows.operate (A := A) ha hu
  exact ⟨r, s', (step_of_allowed ha).trans hp, hl.snoc hrows' hlast, hrows'⟩

/-- **The linked stack is last in, first out** throughout a use of it exactly when no node
is pushed onto the empty stack with a link in it. -/
theorem lifo_iff (A : Malloc) (heap : Heap) (ops : List StackOp) :
    (client A).Throughout Lifo ops ⟨⟨heap, none⟩, []⟩
      ↔ (client A).Meets Unlinked ops ⟨⟨heap, none⟩, []⟩ := by
  refine Machine.throughout_iff_meets (I := Rows) ⟨lifo_nil heap, rows_nil heap⟩ ?_ ?_
  · intro tr s op r s' hl hrows hu hs
    have ha := allowed_of_step hs
    obtain ⟨r', t, hp, hrows', hlast⟩ := hrows.operate (A := A) ha hu
    rw [step_of_allowed ha, hp] at hs
    cases hs
    exact ⟨hl.snoc hrows' hlast, hrows'⟩
  · exact fun tr s op hl _ hu => hl.not_snoc hu

/-- Two nodes are pushed and popped, and the one that was above is pushed again. -/
def relinked : List StackOp :=
  [.initNode ⟨[97], 0, 1⟩, .push 1, .initNode ⟨[98], 0, 2⟩, .push 2, .pop true, .pop true]

/-- The node that was below comes back with the one that is pushed again. -/
theorem relinked_not_lifo : ¬ ∀ A heap ops,
    (client A).Throughout Lifo ops ⟨⟨heap, none⟩, []⟩ := by
  intro h
  have hall := h .bump ∅ (relinked ++ [.push 2])
  have hexec : ∃ tr s, (client .bump).exec relinked ⟨⟨∅, none⟩, []⟩ = some (tr, s)
      ∧ ¬ Unlinked s (.push 2) := by
    refine ⟨_, _, rfl, fun hu => ?_⟩
    cases hu (by decide) rfl _ rfl
  obtain ⟨tr, s, he, hu⟩ := hexec
  obtain ⟨r, s', hs, hnot⟩ := (hall relinked (List.prefix_append _ _) tr s he).not_snoc hu
  exact hnot (hall _ List.prefix_rfl _ _ (Machine.exec_snoc he hs))

end DirWalk

end OperatingSys
