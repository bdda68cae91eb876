import OperatingSys.DirWalk.Coverage
import OperatingSys.DirWalk.Strings

/-!
The nodes that the iterative walk pushes and pops.

A turn of the loop pops one node and pushes one for each directory it finds (`turnNodes`).
On a stack whose chain ends in `NULL` what was popped and what is still on the stack are,
after any number of turns, what was pushed (`Chained.turns`), and the walk of a tree comes to an
end where the reports of errors fit. What `init_stack` returns is not cleared: if its top is
a pointer, that pointer ends the chain for good (`Dangling`), and the loop never finds the
stack free (`emptied_iff`).
-/

namespace OperatingSys

namespace DirWalk

open scoped List

/-! ### The nodes of a turn -/

section Nodes

variable (F : Files) (A : Malloc) (E : Errors)

/-- Items are pushed one after the other, each in a new node: these nodes, and the stack with
them. -/
def pushItems : List Item → StackT → Option (List (ℕ × Item) × StackT)
  | [], stk => some ([], stk)
  | x :: xs, stk =>
      (push (initNode A stk x.data x.level x.inode).2
        (initNode A stk x.data x.level x.inode).1).bind fun stk' =>
          (pushItems xs stk').map fun r => ((A.pick stk.heap, x) :: r.1, r.2)

/-- The node that a turn of the loop pops, and those that it pushes. -/
structure TurnNodes where
  popped : ℕ × Item
  pushed : List (ℕ × Item)

/-- What a turn does to the stack. -/
def turnNodes (stk : StackT) : Option TurnNodes :=
  stk.top.bind fun p => (stk.heap.lookup p).bind fun node =>
    (pushItems A (turnItems F node.toItem).reverse ⟨stk.heap, node.next⟩).map fun r =>
      ⟨(p, node.toItem), r.1⟩

/-- The nodes of so many turns, or of fewer if the loop is over. -/
def loopNodes : ℕ → World → List TurnNodes
  | 0, _ => []
  | n + 1, s =>
      if isFree s.stk then []
      else (turnNodes F A s.stk).toList ++ (turn F A E s).elim [] (loopNodes n)

variable {F A E}

lemma pushItems_cons {x : Item} {xs : List Item} {stk stk' : StackT} {nodes : List (ℕ × Item)}
    (h : pushItems A (x :: xs) stk = some (nodes, stk')) : ∃ stk₁ nodes',
      push (initNode A stk x.data x.level x.inode).2
          (initNode A stk x.data x.level x.inode).1 = some stk₁
        ∧ pushItems A xs stk₁ = some (nodes', stk') ∧ nodes = (A.pick stk.heap, x) :: nodes' := by
  obtain ⟨stk₁, hpush, hmore⟩ := Option.bind_eq_some_iff.mp h
  obtain ⟨⟨nodes', stk₂⟩, hrest, heq⟩ := Option.map_eq_some_iff.mp hmore
  cases heq
  exact ⟨stk₁, nodes', hpush, hrest, rfl⟩

lemma pushItems_append {xs ys : List Item} {stk stk₁ stk₂ : StackT}
    {nodes₁ nodes₂ : List (ℕ × Item)}
    (hxs : pushItems A xs stk = some (nodes₁, stk₁))
    (hys : pushItems A ys stk₁ = some (nodes₂, stk₂)) :
    pushItems A (xs ++ ys) stk = some (nodes₁ ++ nodes₂, stk₂) := by
  induction xs generalizing stk nodes₁ with
  | nil =>
      cases hxs
      exact hys
  | cons x xs ih =>
      obtain ⟨stk', nodes, hpush, hrest, rfl⟩ := pushItems_cons hxs
      rw [List.cons_append, pushItems, hpush, Option.bind_some, ih hrest, Option.map_some]
      rfl

variable {s s' : World}

/-- An entry pushes its items. -/
lemma procEntry_pushes {level : ℕ} {q name : Path} {ret : ℤ}
    (h : procEntry F A E s level q name = some (ret, s')) :
    ∃ nodes, pushItems A (entryItems F level q name) s.stk = some (nodes, s'.stk) := by
  rw [procEntry] at h
  rw [entryItems]
  dsimp only [World.joinPath] at h
  cases hst : F.lstat (joinPath q name) with
  | none =>
      rw [hst] at h
      obtain ⟨s₁, hs₁, heq⟩ := Option.map_eq_some_iff.mp h
      cases heq
      rw [World.eq_called hs₁]
      exact ⟨[], rfl⟩
  | some st =>
      rw [hst] at h
      dsimp only at h ⊢
      split_ifs at h ⊢ with hdir
      · cases h
        exact ⟨[], rfl⟩
      · rw [World.myfunc_D, Option.bind_some] at h
        obtain ⟨stk, hpush, heq⟩ := Option.map_eq_some_iff.mp h
        cases heq
        refine ⟨[(A.pick s.stk.heap, ⟨joinPath q name, level, st.ino⟩)], ?_⟩
        exact Option.bind_eq_some_iff.mpr ⟨stk, hpush, rfl⟩

/-- The entries of a directory push theirs, the first one first. -/
lemma procNames_pushes {level : ℕ} {q : Path} {names : List Path}
    (h : procNames F A E level q names s = some s') :
    ∃ nodes, pushItems A ((names.filter notDots).flatMap (entryItems F (level + 1) q)) s.stk
      = some (nodes, s'.stk) := by
  induction names generalizing s with
  | nil =>
      cases h
      exact ⟨[], rfl⟩
  | cons d names ih =>
      rw [procNames] at h
      split_ifs at h with hd
      · obtain ⟨⟨ret, s₁⟩, hentry, h⟩ := Option.bind_eq_some_iff.mp h
        obtain ⟨nodes₁, h₁⟩ := procEntry_pushes hentry
        obtain ⟨nodes₂, h₂⟩ := ih h
        rw [List.filter_cons_of_pos hd, List.flatMap_cons]
        exact ⟨nodes₁ ++ nodes₂, pushItems_append h₁ h₂⟩
      · rw [List.filter_cons_of_neg hd]
        exact ih h

/-- A directory pushes the items found in it. -/
lemma procDir_pushes {x : Item} (h : procDir F A E s x = some s') :
    ∃ nodes, pushItems A (turnItems F x).reverse s.stk = some (nodes, s'.stk) := by
  rw [procDir] at h
  rw [turnItems, List.reverse_reverse, turnNames]
  cases ho : F.opendir x.data with
  | none =>
      rw [ho] at h
      cases h
      exact ⟨[], rfl⟩
  | some names =>
      rw [ho] at h
      exact procNames_pushes (s := s.emit (.opendir x.data)) h

/-- **The stack across a turn**: its node is popped, the others are pushed, and the first one
is freed. -/
lemma turn_nodes (h : turn F A E s = some s') : ∃ p node nodes stk,
    s.stk.top = some p ∧ s.stk.heap.lookup p = some node
      ∧ pushItems A (turnItems F node.toItem).reverse ⟨s.stk.heap, node.next⟩ = some (nodes, stk)
      ∧ freeNode stk p = some s'.stk
      ∧ turnNodes F A s.stk = some ⟨(p, node.toItem), nodes⟩ := by
  obtain ⟨p, node, s₁, stk', htop, hread, hdir, hfree, rfl⟩ := turn_cases h
  obtain ⟨nodes, hpush⟩ := procDir_pushes hdir
  refine ⟨p, node, nodes, s₁.stk, htop, hread, hpush, hfree, ?_⟩
  rw [turnNodes, htop, Option.bind_some, hread, Option.bind_some]
  exact Option.map_eq_some_iff.mpr ⟨_, hpush, rfl⟩

end Nodes

/-! ### A chain that ends -/

section Chain

variable {F : Files} {A : Malloc} {E : Errors} {s s' : World} {C : List (ℕ × Item)}

lemma Chained.pushItems {stk stk' : StackT} {aside : List ℕ} {xs : List Item}
    {nodes : List (ℕ × Item)} (h : Chained stk C aside)
    (hrun : pushItems A xs stk = some (nodes, stk')) : Chained stk' (nodes.reverse ++ C) aside := by
  induction xs generalizing stk C nodes with
  | nil =>
      cases hrun
      exact h
  | cons x xs ih =>
      obtain ⟨stk₁, nodes', hpush, hrest, rfl⟩ := pushItems_cons hrun
      obtain ⟨stk₁', hpush', h₁⟩ := h.push_initNode A x
      cases hpush.symm.trans hpush'
      rw [List.reverse_cons, List.append_assoc]
      exact ih h₁ hrest

/-- **A turn** takes the first node off the chain and puts those that it pushes in front. -/
lemma Chained.turn (h : Chained s.stk C []) (hrun : turn F A E s = some s') : ∃ t C₀,
    turnNodes F A s.stk = some t ∧ C = t.popped :: C₀
      ∧ Chained s'.stk (t.pushed.reverse ++ C₀) [] := by
  obtain ⟨p, node, nodes, stk, htop, hread, hpush, hfree, hnodes⟩ := turn_nodes hrun
  have hl := h.linked
  rw [htop] at hl
  cases hl with
  | @cons _ x next C₀ hread' hnew hrest =>
      cases hread.symm.trans hread'
      have hpopped : Chained ⟨s.stk.heap, next⟩ C₀ [p] :=
        ⟨hrest, List.forall_mem_singleton.mpr ⟨h.linked.mem_heap List.mem_cons_self, hnew⟩⟩
      obtain ⟨stk', hfree', h'⟩ := (hpopped.pushItems hpush).freeNode List.mem_cons_self
      cases hfree.symm.trans hfree'
      exact ⟨_, C₀, hnodes, rfl, h'.mono nofun⟩

/-- **Any number of turns**: what was popped and what is on the stack were on the stack or
pushed. -/
lemma Chained.turns (h : Chained s.stk C []) {n : ℕ} (hrun : turns F A E n s = some s') : ∃ C',
    Chained s'.stk C' [] ∧ ((loopNodes F A E n s).map TurnNodes.popped ++ C').Perm
      (C ++ (loopNodes F A E n s).flatMap TurnNodes.pushed) := by
  induction n generalizing s C with
  | zero =>
      cases hrun
      exact ⟨C, h, by rw [loopNodes, List.flatMap_nil, List.append_nil]; rfl⟩
  | succ n ih =>
      rw [DirWalk.turns] at hrun
      rw [loopNodes]
      split_ifs at hrun ⊢ with hfree
      · cases hrun
        exact ⟨C, h, by rw [List.flatMap_nil, List.append_nil]; rfl⟩
      · obtain ⟨s₁, hturn, hrun⟩ := Option.bind_eq_some_iff.mp hrun
        obtain ⟨t, C₀, hnodes, rfl, h₁⟩ := h.turn hturn
        obtain ⟨C', h', hperm⟩ := ih h₁ hrun
        refine ⟨C', h', ?_⟩
        rw [hnodes, hturn]
        simp only [Option.toList_some, Option.elim_some, List.map_cons,
          List.flatMap_cons, List.cons_append]
        refine List.Perm.cons _ ?_
        -- what the turn has pushed is on the chain, the last node first
        calc (loopNodes F A E n s₁).map TurnNodes.popped ++ C'
          _ ~ t.pushed.reverse ++ C₀ ++ (loopNodes F A E n s₁).flatMap TurnNodes.pushed := hperm
          _ ~ t.pushed ++ C₀ ++ (loopNodes F A E n s₁).flatMap TurnNodes.pushed :=
              (t.pushed.reverse_perm.append_right _).append_right _
          _ ~ C₀ ++ t.pushed ++ (loopNodes F A E n s₁).flatMap TurnNodes.pushed :=
              List.perm_append_comm.append_right _
          _ = C₀ ++ (t.pushed ++ (loopNodes F A E n s₁).flatMap TurnNodes.pushed) :=
              List.append_assoc _ _ _

end Chain

/-! ### A chain that does not end -/

/-- The stack is not free, and no link ends its chain. -/
structure Dangling (stk : StackT) : Prop where
  top : stk.top ≠ none
  next : ∀ p node, stk.heap.lookup p = some node → node.next ≠ none

namespace Dangling

variable {F : Files} {A : Malloc} {E : Errors} {stk stk' : StackT} {s s' : World}

lemma push_initNode (h : Dangling stk) {x : Item}
    (hpush : push (initNode A stk x.data x.level x.inode).2
      (initNode A stk x.data x.level x.inode).1 = some stk') : Dangling stk' := by
  obtain ⟨t, htop⟩ := Option.ne_none_iff_exists'.mp h.top
  rw [push, initNode] at hpush
  simp only [htop, AList.lookup_insert, Option.map_some] at hpush
  cases hpush
  refine ⟨Option.some_ne_none _, fun p node => ?_⟩
  rw [AList.insert_insert]
  exact forall_node_insert h.next (Option.some_ne_none t) p node

lemma pushItems (h : Dangling stk) {xs : List Item} {nodes : List (ℕ × Item)}
    (hrun : pushItems A xs stk = some (nodes, stk')) : Dangling stk' := by
  induction xs generalizing stk nodes with
  | nil =>
      cases hrun
      exact h
  | cons x xs ih =>
      obtain ⟨stk₁, nodes', hpush, hrest, rfl⟩ := pushItems_cons hrun
      exact ih (h.push_initNode hpush) hrest

lemma turn (h : Dangling s.stk) (hrun : turn F A E s = some s') : Dangling s'.stk := by
  obtain ⟨p, node, nodes, stk, htop, hread, hpush, hfree, -⟩ := turn_nodes hrun
  have hpopped : Dangling ⟨s.stk.heap, node.next⟩ := ⟨h.next p node hread, h.next⟩
  have hstk : Dangling stk := hpopped.pushItems hpush
  obtain ⟨-, -, heq⟩ := Option.map_eq_some_iff.mp hfree
  rw [← heq]
  exact ⟨hstk.top, forall_node_erase hstk.next p⟩

lemma turns (h : Dangling s.stk) {n : ℕ} (hrun : turns F A E n s = some s') :
    Dangling s'.stk :=
  turns_induct (I := fun s => Dangling s.stk) (fun _ _ hs => hs.turn) h hrun

lemma not_isFree (h : Dangling stk) : ¬ isFree stk = true := fun hfree =>
  h.top (Option.isNone_iff_eq_none.mp hfree)

end Dangling

/-! ### The walk -/

variable {F : Files} {A : Malloc} {E : Errors} {start : Path} {es : List Entry}

/-- **The walk empties its stack**: the loop ends with the stack free, and has popped the
nodes that were pushed before it and in it, each of them once. -/
def Emptied (F : Files) (A : Malloc) (E : Errors) (junk : Option ℕ) (start : Path) : Prop :=
  ∃ st s n s', F.lstat start = some st ∧ enterLoop A junk start st = some s
    ∧ turns F A E n s = some s' ∧ isFree s'.stk = true
    ∧ ((loopNodes F A E n s).map TurnNodes.popped).Perm
        ((A.pick ∅, ⟨start, 0, st.ino⟩) :: (loopNodes F A E n s).flatMap TurnNodes.pushed)

/-- The first node on a cleared stack. -/
lemma chained_enterLoop {st : Stat} {s : World} (h : enterLoop A none start st = some s) :
    Chained s.stk [(A.pick ∅, ⟨start, 0, st.ino⟩)] [] := by
  obtain ⟨stk, hpush, henter⟩ := enterLoop_spec (A := A) none start st
  cases henter.symm.trans h
  have hempty : Chained (initStack ∅ none) [] [] := ⟨.nil, nofun⟩
  obtain ⟨stk', hpush', hc⟩ := hempty.push_initNode A ⟨start, 0, st.ino⟩
  cases hpush.symm.trans hpush'
  exact hc

/-- The first node on a stack whose top was a pointer. -/
lemma dangling_enterLoop {t : ℕ} {st : Stat} {s : World}
    (h : enterLoop A (some t) start st = some s) : Dangling s.stk := by
  obtain ⟨stk, hpush, henter⟩ := enterLoop_spec (A := A) (some t) start st
  cases henter.symm.trans h
  have hjunk : Dangling (initStack ∅ (some t)) := by
    refine ⟨Option.some_ne_none t, fun p node hread => ?_⟩
    rw [initStack, AList.lookup_empty] at hread
    cases hread
  exact hjunk.push_initNode (x := ⟨start, 0, st.ino⟩) hpush

/-- A loop that ends has started on a cleared stack, and has popped what was pushed. -/
lemma emptied_of_turns {junk : Option ℕ} {st : Stat} {n : ℕ} {s s' : World}
    (hst : F.lstat start = some st) (henter : enterLoop A junk start st = some s)
    (hturns : turns F A E n s = some s') (hfree : isFree s'.stk = true) :
    Emptied F A E junk start := by
  cases junk with
  | none =>
      obtain ⟨C', h', hperm⟩ := (chained_enterLoop henter).turns hturns
      obtain rfl := h'.isFree_iff.mp hfree
      rw [List.append_nil] at hperm
      exact ⟨st, s, n, s', hst, henter, hturns, hfree, hperm⟩
  | some t => exact absurd hfree ((dangling_enterLoop henter).turns hturns).not_isFree

/-- The walk returns exactly when it empties its stack. -/
theorem returns_iff_emptied {junk : Option ℕ} (hst : (F.lstat start).isSome) :
    (∃ n r, myftwN F A E n junk start = some r) ↔ Emptied F A E junk start := by
  obtain ⟨st, hst⟩ := Option.isSome_iff_exists.mp hst
  simp only [myftwN_eq_turns F A E hst]
  constructor
  · rintro ⟨n, r, hr⟩
    obtain ⟨s', hrun, hmore⟩ := Option.bind_eq_some_iff.mp hr
    obtain ⟨s, henter, hturns⟩ := Option.bind_eq_some_iff.mp hrun
    split_ifs at hmore with hfree
    exact emptied_of_turns hst henter hturns hfree
  · rintro ⟨st', s, n, s', hst', henter, hturns, hfree, -⟩
    cases hst.symm.trans hst'
    refine ⟨n, (1, s'), ?_⟩
    rw [henter, Option.bind_some, hturns, Option.bind_some, if_pos hfree,
      freeStack_of_isFree n hfree, Option.map_some]

/-- On a cleared stack the walk of a tree does where the reports fit. -/
lemma emptied_of_cleared (hst : (F.lstat start).isSome) (hl : Lists F start es)
    (hfit : ∀ q e, Reached F start es q e → F.lstat q = none → E.Fits q) :
    Emptied F A E none start := by
  -- the walk of a tree ends, whatever addresses its nodes have
  obtain ⟨st, hst'⟩ := Option.isSome_iff_exists.mp hst
  obtain ⟨N, s, hrun, -⟩ := myftwN_calls A hst' hl hfit
  exact (returns_iff_emptied hst).mp ⟨N, (1, s), hrun N le_rfl⟩

/-- On any other no walk does. -/
lemma not_emptied (t : ℕ) : ¬ Emptied F A E (some t) start := by
  rintro ⟨st, s, n, s', -, henter, hturns, hfree, -⟩
  exact ((dangling_enterLoop henter).turns hturns).not_isFree hfree

/-- **The walk empties its stack** exactly when the memory of the stack held `NULL` where its
top is and every path of which `lstat` fails is short enough for its report. -/
theorem emptied_iff (F : Files) (A : Malloc) (E : Errors) (junk : Option ℕ) (start : Path)
    (es : List Entry) (hst : (F.lstat start).isSome) (hl : Lists F start es) :
    Emptied F A E junk start
      ↔ junk = none ∧ ∀ q e, Reached F start es q e → F.lstat q = none → E.Fits q := by
  cases junk with
  | none =>
      refine ⟨fun h => ⟨rfl, ?_⟩, fun ⟨_, hfit⟩ => emptied_of_cleared hst hl hfit⟩
      obtain ⟨n, r, hr⟩ := (returns_iff_emptied hst).mpr h
      exact fits_of_returns hr hst hl
  | some t => exact iff_of_false (not_emptied t) fun h => Option.some_ne_none t h.1

/-- The walk of a start with a link and a directory in it, on a cleared stack. -/
theorem emptied_iff_one_link : Emptied oneLink .bump denied none [115]
    ↔ none = (none : Option ℕ) ∧ ∀ q e, Reached oneLink [115] oneLinkEntries q e →
        oneLink.lstat q = none → denied.Fits q :=
  emptied_iff oneLink .bump denied none [115] oneLinkEntries rfl oneLink_serves.lists

/-- The walk of an empty directory on a stack that starts with a pointer. -/
theorem uncleared_not_emptied : ¬ ∀ F A E junk start es, (F.lstat start).isSome →
    Lists F start es → Emptied F A E junk start := fun h =>
  not_emptied 7 (h (emptyStart [46]) .bump denied (some 7) [46] [] (emptyStart_lstat [46])
    (emptyStart_lists [46]))

end DirWalk

end OperatingSys
