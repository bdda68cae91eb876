import Mathlib.Data.List.AList
import OperatingSys.DirWalk.Tree

/-!
The linked stack of `lab_own/stack_t.c`.

Nodes are in a heap, a finite map of addresses, and the stack is the address of its
top node. A pointer is an address or `none` for `NULL`; an operation that follows a
pointer to no node is `none`. Allocations succeed, at any address not in use, and
the string that `strdup` copies is part of the node.

`Chained` says that the stack, from the top down, is a list of nodes with their items, and
that some nodes are kept aside: new ones, and those that were popped and not yet freed. Its
lemmas are the operations in these terms. `Holds` speaks of the items alone.
-/

namespace OperatingSys

namespace DirWalk

/-- What a node carries. -/
structure Item where
  data : Path
  level : ℕ
  inode : ℕ

/-- `node_t`. -/
structure Node extends Item where
  next : Option ℕ

abbrev Heap := AList fun _ : ℕ => Node

/-- **`malloc`** for a node: some address that is not in use. -/
structure Malloc where
  pick : Heap → ℕ
  fresh : ∀ h, pick h ∉ h

/-- The addresses from the highest one in use on. -/
def Malloc.bump : Malloc where
  pick h := h.keys.foldr max 0 + 1
  fresh h hmem := by
    have hle : ∀ (l : List ℕ) (p : ℕ), p ∈ l → p ≤ l.foldr max 0 := by
      intro l
      induction l with
      | nil => intro p hp; cases hp
      | cons x l ih =>
          intro p hp
          rcases List.mem_cons.mp hp with rfl | hp
          · exact le_max_left _ _
          · exact (ih p hp).trans (le_max_right _ _)
    have := hle h.keys _ (AList.mem_keys.mpr hmem)
    omega

/-- `stack_t`, with the heap its nodes are in. -/
structure StackT where
  heap : Heap
  top : Option ℕ

/-- `init_stack`: the top is what the allocated memory held. -/
def initStack (heap : Heap) (junk : Option ℕ) : StackT := ⟨heap, junk⟩

/-- `init_node`: the node and the heap with it. -/
def initNode (A : Malloc) (stk : StackT) (txt : Path) (level inode : ℕ) : ℕ × StackT :=
  (A.pick stk.heap,
    { stk with heap := stk.heap.insert (A.pick stk.heap) ⟨⟨txt, level, inode⟩, none⟩ })

/-- `push`. The link of the new node is set only if there is a node to link to. -/
def push (stk : StackT) (new : ℕ) : Option StackT :=
  match stk.top with
  | none => some { stk with top := some new }
  | some t => (stk.heap.lookup new).map fun node =>
      ⟨stk.heap.insert new { node with next := some t }, some new⟩

/-- `free_node`. -/
def freeNode (stk : StackT) (node : ℕ) : Option StackT :=
  (stk.heap.lookup node).map fun _ => { stk with heap := stk.heap.erase node }

/-- `pop`: the node that was on top, unless it is freed. -/
def pop (stk : StackT) (mode : Bool) : Option (Option ℕ × StackT) :=
  stk.top.bind fun temp => (stk.heap.lookup temp).bind fun node =>
    if mode = false then (freeNode { stk with top := node.next } temp).map fun stk => (none, stk)
    else some (some temp, { stk with top := node.next })

/-- `is_free`. -/
def isFree (stk : StackT) : Bool := stk.top.isNone

/-- `free_stack`, without the `free` of the stack itself, which is not used
afterwards. -/
def freeStack : ℕ → StackT → Option StackT
  | 0, stk => if isFree stk then some stk else none
  | n + 1, stk =>
      if isFree stk then some stk else (pop stk false).bind fun r => freeStack n r.2

/-- A stack that is free is not freed further. -/
lemma freeStack_of_isFree {stk : StackT} (n : ℕ) (h : isFree stk = true) :
    freeStack n stk = some stk := by
  cases n <;> rw [freeStack, if_pos h]

/-- What a `pop` that keeps its node does. -/
lemma pop_keep_cases {stk stk' : StackT} {ptr : Option ℕ} (h : pop stk true = some (ptr, stk')) :
    ∃ p node, stk.top = some p ∧ stk.heap.lookup p = some node ∧ ptr = some p
      ∧ stk' = ⟨stk.heap, node.next⟩ := by
  obtain ⟨p, htop, h⟩ := Option.bind_eq_some_iff.mp h
  obtain ⟨node, hread, h⟩ := Option.bind_eq_some_iff.mp h
  rw [if_neg (by decide)] at h
  cases h
  exact ⟨p, node, htop, hread, rfl, rfl⟩

section Nodes

variable {Q : Node → Prop} {heap : Heap}

/-- What holds of every node holds still when one is written of which it holds. -/
lemma forall_node_insert (h : ∀ p node, heap.lookup p = some node → Q node) {p : ℕ} {node : Node}
    (hnode : Q node) : ∀ p' node', (heap.insert p node).lookup p' = some node' → Q node' := by
  intro p' node' hread
  by_cases hp : p' = p
  · subst hp
    rw [AList.lookup_insert, Option.some.injEq] at hread
    rwa [← hread]
  · rw [AList.lookup_insert_ne hp] at hread
    exact h p' node' hread

lemma forall_node_erase (h : ∀ p node, heap.lookup p = some node → Q node) (p : ℕ) :
    ∀ p' node', (heap.erase p).lookup p' = some node' → Q node' := by
  intro p' node' hread
  by_cases hp : p' = p
  · subst hp
    rw [AList.lookup_erase] at hread
    cases hread
  · rw [AList.lookup_erase_ne hp] at hread
    exact h p' node' hread

end Nodes

/-! ### The stack as a list -/

/-- The nodes from an address on are those at the given addresses, with the given
items. -/
inductive Linked (h : Heap) : Option ℕ → List (ℕ × Item) → Prop
  | nil : Linked h none []
  | cons {p : ℕ} {x : Item} {next : Option ℕ} {C : List (ℕ × Item)}
      (hread : h.lookup p = some ⟨x, next⟩) (hnew : p ∉ C.map Prod.fst)
      (hrest : Linked h next C) : Linked h (some p) ((p, x) :: C)

lemma Linked.mem_heap {h : Heap} {top : Option ℕ} {C : List (ℕ × Item)} (hl : Linked h top C)
    {p : ℕ} (hp : p ∈ C.map Prod.fst) : p ∈ h := by
  induction hl with
  | nil => cases hp
  | cons hread hnew hrest ih =>
      rcases List.mem_cons.mp hp with rfl | hp
      · exact AList.lookup_isSome.mp (by rw [hread]; rfl)
      · exact ih hp

/-- A chain does not depend on what lies elsewhere. -/
lemma Linked.congr {h h' : Heap} {top : Option ℕ} {C : List (ℕ × Item)} (hl : Linked h top C)
    (heq : ∀ p ∈ C.map Prod.fst, h'.lookup p = h.lookup p) : Linked h' top C := by
  induction hl with
  | nil => exact .nil
  | cons hread hnew hrest ih =>
      refine .cons ?_ hnew (ih fun q hq => heq q (List.mem_cons_of_mem _ hq))
      rw [heq _ List.mem_cons_self, hread]

/-- **The nodes of the stack**, from the top down, with their items; the nodes `aside` are in
the heap and not on the stack. -/
structure Chained (stk : StackT) (C : List (ℕ × Item)) (aside : List ℕ) : Prop where
  linked : Linked stk.heap stk.top C
  aside : ∀ p ∈ aside, p ∈ stk.heap ∧ p ∉ C.map Prod.fst

namespace Chained

variable {stk : StackT} {C : List (ℕ × Item)} {aside aside' : List ℕ} {p : ℕ} {x : Item}

lemma mono (h : Chained stk C aside) (hsub : ∀ q ∈ aside', q ∈ aside) : Chained stk C aside' :=
  ⟨h.linked, fun q hq => h.aside q (hsub q hq)⟩

lemma isFree_iff (h : Chained stk C aside) : isFree stk = true ↔ C = [] := by
  have hl := h.linked
  rw [isFree]
  generalize stk.top = top at hl
  cases hl with
  | nil => simp
  | cons hread hnew hrest => simp

/-- A node aside is in the heap. -/
lemma exists_node (h : Chained stk C aside) (hp : p ∈ aside) :
    ∃ node, stk.heap.lookup p = some node :=
  Option.isSome_iff_exists.mp (AList.lookup_isSome.mpr (h.aside p hp).1)

/-- What is written elsewhere leaves the chain and the nodes aside. -/
lemma write (h : Chained stk C aside) (heap : Heap) (hp : p ∉ C.map Prod.fst)
    (hsame : ∀ q ≠ p, heap.lookup q = stk.heap.lookup q) :
    Linked heap stk.top C ∧ ∀ q ∈ aside, q ≠ p → q ∈ heap ∧ q ∉ C.map Prod.fst := by
  refine ⟨h.linked.congr fun q hq => hsame q fun he => hp (he ▸ hq), fun q hq hne => ?_⟩
  rw [← AList.lookup_isSome, hsame q hne, AList.lookup_isSome]
  exact h.aside q hq

/-- A node is made. -/
lemma initNode (h : Chained stk C aside) (A : Malloc) (x : Item) :
    Chained (initNode A stk x.data x.level x.inode).2 C (A.pick stk.heap :: aside) := by
  have hfresh := A.fresh stk.heap
  have hnew : A.pick stk.heap ∉ C.map Prod.fst := fun hp => hfresh (h.linked.mem_heap hp)
  obtain ⟨hl, haside⟩ := h.write (stk.heap.insert (A.pick stk.heap) ⟨x, none⟩) hnew
    fun q hq => AList.lookup_insert_ne hq
  refine ⟨hl, List.forall_mem_cons.mpr ⟨⟨AList.mem_insert _ |>.mpr (Or.inl rfl), hnew⟩, ?_⟩⟩
  exact fun q hq => haside q hq fun he => hfresh (he ▸ (h.aside q hq).1)

/-- **A node aside is pushed.** Onto an empty stack this asks for a node without a link. -/
lemma push (h : Chained stk C aside) {link : Option ℕ} (hp : p ∈ aside)
    (hread : stk.heap.lookup p = some ⟨x, link⟩) (hlink : stk.top = none → link = none) :
    ∃ stk', push stk p = some stk' ∧ Chained stk' ((p, x) :: C) (aside.filter (· ≠ p)) := by
  have hnew := (h.aside p hp).2
  have hrest : ∀ heap : Heap, (∀ q ∈ aside, q ≠ p → q ∈ heap ∧ q ∉ C.map Prod.fst) →
      ∀ q ∈ aside.filter (· ≠ p), q ∈ heap ∧ q ∉ ((p, x) :: C).map Prod.fst := by
    intro heap haside q hq
    obtain ⟨hq, hne⟩ := List.mem_filter.mp hq
    have hne : q ≠ p := of_decide_eq_true hne
    rw [List.map_cons, List.mem_cons, not_or]
    exact ⟨(haside q hq hne).1, hne, (haside q hq hne).2⟩
  cases htop : stk.top with
  | none =>
      obtain rfl := hlink htop
      have hl := h.linked
      rw [htop] at hl
      refine ⟨{ stk with top := some p }, by rw [DirWalk.push, htop], .cons hread hnew hl, ?_⟩
      exact hrest _ fun q hq _ => h.aside q hq
  | some t =>
      obtain ⟨hl, haside⟩ := h.write (stk.heap.insert p ⟨x, some t⟩) hnew
        fun q hq => AList.lookup_insert_ne hq
      rw [htop] at hl
      refine ⟨⟨stk.heap.insert p ⟨x, some t⟩, some p⟩, ?_, ?_, hrest _ haside⟩
      · rw [DirWalk.push, htop]
        simp only [hread, Option.map_some]
      · exact .cons (AList.lookup_insert _) hnew hl

/-- A node is made and pushed. -/
lemma push_initNode (h : Chained stk C aside) (A : Malloc) (x : Item) : ∃ stk',
    DirWalk.push (DirWalk.initNode A stk x.data x.level x.inode).2
        (DirWalk.initNode A stk x.data x.level x.inode).1 = some stk'
      ∧ Chained stk' ((A.pick stk.heap, x) :: C) aside := by
  obtain ⟨stk', hpush, hc⟩ := (h.initNode A x).push (x := x) List.mem_cons_self
    (AList.lookup_insert _) fun _ => rfl
  refine ⟨stk', hpush, hc.mono fun q hq => ?_⟩
  refine List.mem_filter.mpr ⟨List.mem_cons_of_mem _ hq, decide_eq_true ?_⟩
  rintro rfl
  exact A.fresh stk.heap (h.aside _ hq).1

/-- The top node is popped and kept. -/
lemma pop_keep (h : Chained stk ((p, x) :: C) aside) : ∃ node stk',
    pop stk true = some (some p, stk') ∧ stk'.heap = stk.heap ∧ stk.heap.lookup p = some node
      ∧ node.toItem = x ∧ Chained stk' C (p :: aside) := by
  have hl := h.linked
  generalize htop : stk.top = top at hl
  cases hl with
  | @cons _ _ next _ hread hnew hrest =>
      refine ⟨⟨x, next⟩, ⟨stk.heap, next⟩, ?_, rfl, hread, rfl, hrest, ?_⟩
      · rw [pop, htop]
        simp [hread]
      · refine List.forall_mem_cons.mpr ⟨⟨?_, hnew⟩, fun q hq => ?_⟩
        · exact AList.lookup_isSome.mp (by rw [hread]; rfl)
        · obtain ⟨hheap, hoff⟩ := h.aside q hq
          exact ⟨hheap, fun hm => hoff (List.mem_cons_of_mem _ hm)⟩

/-- A node aside is freed. -/
lemma freeNode (h : Chained stk C aside) (hp : p ∈ aside) :
    ∃ stk', freeNode stk p = some stk' ∧ Chained stk' C (aside.filter (· ≠ p)) := by
  obtain ⟨node, hread⟩ := h.exists_node hp
  obtain ⟨hl, haside⟩ := h.write (stk.heap.erase p) (h.aside p hp).2
    fun q hq => AList.lookup_erase_ne hq
  refine ⟨{ stk with heap := stk.heap.erase p }, ?_, hl, fun q hq => ?_⟩
  · rw [DirWalk.freeNode, hread, Option.map_some]
  · obtain ⟨hq, hne⟩ := List.mem_filter.mp hq
    exact haside q hq (of_decide_eq_true hne)

/-- The top node is popped and freed. -/
lemma pop_free (h : Chained stk ((p, x) :: C) aside) :
    ∃ stk', pop stk false = some (none, stk') ∧ Chained stk' C aside := by
  have hoff : p ∉ aside := fun hp => (h.aside p hp).2 List.mem_cons_self
  obtain ⟨node, stk₁, hpop, -, hread, -, h₁⟩ := h.pop_keep
  obtain ⟨stk', hfree, h'⟩ := h₁.freeNode List.mem_cons_self
  refine ⟨stk', ?_, h'.mono fun q hq => ?_⟩
  · rw [pop, Option.bind_eq_some_iff] at hpop ⊢
    obtain ⟨t, htop, hpop⟩ := hpop
    obtain ⟨node', hread', hpop⟩ := Option.bind_eq_some_iff.mp hpop
    rw [if_neg (by decide)] at hpop
    cases hpop
    refine ⟨p, htop, Option.bind_eq_some_iff.mpr ⟨node', hread', ?_⟩⟩
    rw [if_pos rfl, hfree, Option.map_some]
  · refine List.mem_filter.mpr ⟨List.mem_cons_of_mem _ hq, decide_eq_true ?_⟩
    rintro rfl
    exact hoff hq

end Chained

/-- **The stack as a list**: from the top down it holds the items of `L`, and the
nodes `aside` are in the heap and not on the stack. -/
def Holds (stk : StackT) (L : List Item) (aside : List ℕ) : Prop :=
  ∃ C, Linked stk.heap stk.top C ∧ C.map Prod.snd = L
    ∧ ∀ p ∈ aside, p ∈ stk.heap ∧ p ∉ C.map Prod.fst

lemma holds_iff {stk : StackT} {L : List Item} {aside : List ℕ} :
    Holds stk L aside ↔ ∃ C, Chained stk C aside ∧ C.map Prod.snd = L :=
  ⟨fun ⟨C, hl, hL, haside⟩ => ⟨C, ⟨hl, haside⟩, hL⟩,
    fun ⟨C, hc, hL⟩ => ⟨C, hc.linked, hL, hc.aside⟩⟩

lemma holds_empty (heap : Heap) : Holds ⟨heap, none⟩ [] [] :=
  ⟨[], .nil, rfl, fun _ h => absurd h List.not_mem_nil⟩

lemma Holds.isFree_iff {stk : StackT} {L : List Item} {aside : List ℕ} (h : Holds stk L aside) :
    isFree stk = true ↔ L = [] := by
  obtain ⟨C, hc, rfl⟩ := holds_iff.mp h
  rw [hc.isFree_iff, List.map_eq_nil_iff]

/-- A new node is pushed. -/
lemma Holds.push_initNode {stk : StackT} {L : List Item} {aside : List ℕ} (h : Holds stk L aside)
    (A : Malloc) (x : Item) :
    ∃ stk', push (initNode A stk x.data x.level x.inode).2
        (initNode A stk x.data x.level x.inode).1 = some stk' ∧ Holds stk' (x :: L) aside := by
  obtain ⟨C, hc, rfl⟩ := holds_iff.mp h
  obtain ⟨stk', hpush, hc'⟩ := hc.push_initNode A x
  exact ⟨stk', hpush, holds_iff.mpr ⟨_, hc', rfl⟩⟩

/-- The top item is popped; its node is kept aside. -/
lemma Holds.pop_keep {stk : StackT} {x : Item} {L : List Item} {aside : List ℕ}
    (h : Holds stk (x :: L) aside) :
    ∃ p node stk', pop stk true = some (some p, stk') ∧ stk'.heap.lookup p = some node
      ∧ node.toItem = x ∧ Holds stk' L (p :: aside) := by
  obtain ⟨C, hc, hL⟩ := holds_iff.mp h
  obtain ⟨⟨p, y⟩, C, rfl, rfl, rfl⟩ := List.map_eq_cons_iff.mp hL
  obtain ⟨node, stk', hpop, hheap, hread, hitem, hc'⟩ := hc.pop_keep
  exact ⟨p, node, stk', hpop, hheap ▸ hread, hitem, holds_iff.mpr ⟨C, hc', rfl⟩⟩

/-- A node kept aside is freed. -/
lemma Holds.freeNode {stk : StackT} {L : List Item} {p : ℕ} (h : Holds stk L [p]) :
    ∃ stk', freeNode stk p = some stk' ∧ Holds stk' L [] := by
  obtain ⟨C, hc, rfl⟩ := holds_iff.mp h
  obtain ⟨stk', hfree, hc'⟩ := hc.freeNode List.mem_cons_self
  exact ⟨stk', hfree, holds_iff.mpr ⟨C, hc'.mono (by simp), rfl⟩⟩

end DirWalk

end OperatingSys
