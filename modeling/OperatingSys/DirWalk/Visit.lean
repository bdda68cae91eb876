import OperatingSys.DirWalk.Iterative

/-!
What the iterative walk does to a tree.

The walk is followed on its stack read as a list of items (`Rep`): `procEntry_spec`,
`procNames_spec` and `turn_spec` say what an entry, a directory and a turn of the
loop push and which events they add, as long as the reports of errors fit (`Stays`); where
one does not, the walk has no further state (`turn_eq_none`).

On a tree the items are directories of it that wait to be opened (`Pending`), and
the order in which they are popped is `popped`, found by recursion on the tree. A
pending directory is popped before everything that waits below it and what it pushes
before that again, so the loop takes as many turns as directories are popped and its
events are theirs one after the other (`walkLoop_spec`), unless one of these turns goes
astray (`walkLoop_eq_none`).
-/

namespace OperatingSys

namespace DirWalk

/-- An event counts a file of type `k`. -/
def Event.counts (k : Fmt) : Event → Bool
  | .myfunc _ t => t.counts k
  | _ => false

/-- **The state read as a list**: the items on the stack, the nodes kept aside and
the events so far, which the counters agree with. -/
structure Rep (s : World) (L : List Item) (aside : List ℕ) (tr : List Event) : Prop where
  stk : Holds s.stk L aside
  trace : s.trace = tr
  counts : ∀ k, s.counts.get k = tr.countP (Event.counts k)

lemma Rep.emit {s : World} {L : List Item} {aside : List ℕ} {tr : List Event}
    (h : Rep s L aside tr) {e : Event} (he : ∀ k, e.counts k = false) :
    Rep (s.emit e) L aside (tr ++ [e]) where
  stk := h.stk
  trace := congrArg (· ++ [e]) h.trace
  counts k := by
    rw [List.countP_append, ← h.counts k]
    simp [World.emit, he]

lemma Rep.called {s : World} {L : List Item} {aside : List ℕ} {tr : List Event}
    (h : Rep s L aside tr) (q : Path) (t : Ftw) :
    Rep (s.called q t) L aside (tr ++ [.myfunc q t]) where
  stk := h.stk
  trace := congrArg (· ++ [Event.myfunc q t]) h.trace
  counts k := by
    rw [List.countP_append, ← h.counts k]
    show (s.counts.tally t).get k = _
    rw [Counts.get_tally, List.countP_singleton, Event.counts]
    cases t.counts k <;> rfl

lemma Rep.withStk {s : World} {L L' : List Item} {aside aside' : List ℕ} {tr : List Event}
    (h : Rep s L aside tr) {stk : StackT} (hstk : Holds stk L' aside') :
    Rep { s with stk := stk } L' aside' tr := ⟨hstk, h.trace, h.counts⟩

section Steps

variable (F : Files)

/-- The report about a path fits, if `lstat` of it fails. -/
def Stays (E : Errors) (q : Path) : Prop := F.lstat q = none → E.Fits q

/-! ### One entry, one directory, one turn -/

/-- What `proc_entry` pushes. -/
def entryItems (level : ℕ) (q name : Path) : List Item :=
  match F.lstat (joinPath q name) with
  | none => []
  | some st => if st.fmt ≠ .dir then [] else [⟨joinPath q name, level, st.ino⟩]

/-- What `proc_entry` does after it has called `lstat`. -/
def statEvents (level : ℕ) (q name : Path) : List Event :=
  match F.lstat (joinPath q name) with
  | none => [.myfunc (joinPath q name) .NS]
  | some st =>
      if st.fmt ≠ .dir then [.myfunc (joinPath q name) (.F st), .line level name st.ino]
      else [.myfunc (joinPath q name) (.D st)]

/-- What `proc_entry` does beside the stack. -/
def entryEvents (level : ℕ) (q name : Path) : List Event :=
  .copy (q.length + name.length + 2) (q.length + 1 + (name.length + 1))
    :: .lstat (joinPath q name) :: statEvents F level q name

/-- The names a directory that is popped is found to hold. -/
def turnNames (x : Item) : List Path := ((F.opendir x.data).getD []).filter notDots

/-- What a turn of the loop does beside the stack. -/
def turnEvents (x : Item) : List Event :=
  .line x.level ((afterSlash x.data).getD x.data) x.inode :: .opendir x.data
    :: (turnNames F x).flatMap (entryEvents F (x.level + 1) x.data)

/-- What a turn of the loop pushes, from the top down. -/
def turnItems (x : Item) : List Item :=
  ((turnNames F x).flatMap (entryItems F (x.level + 1) x.data)).reverse

lemma entryItems_reverse (level : ℕ) (q name : Path) :
    (entryItems F level q name).reverse = entryItems F level q name := by
  rw [entryItems]
  cases F.lstat (joinPath q name) with
  | none => rfl
  | some st =>
      dsimp only
      split_ifs <;> rfl

variable (A : Malloc) {E : Errors} {s : World} {L : List Item} {aside : List ℕ} {tr : List Event}

lemma procEntry_spec (h : Rep s L aside tr) (level : ℕ) {q name : Path}
    (hfit : Stays F E (joinPath q name)) :
    ∃ ret s', procEntry F A E s level q name = some (ret, s')
      ∧ Rep s' (entryItems F level q name ++ L) aside (tr ++ entryEvents F level q name) := by
  have hl := (h.emit (e := .copy (q.length + name.length + 2) (q.length + 1 + (name.length + 1)))
    fun _ => rfl).emit (e := .lstat (joinPath q name)) fun _ => rfl
  simp only [procEntry, World.joinPath, entryItems, entryEvents, statEvents]
  rw [Stays] at hfit
  generalize joinPath q name = path at hl hfit ⊢
  cases hst : F.lstat path with
  | none =>
      refine ⟨_, _, by rw [World.myfunc_NS _ _ (hfit hst)]; rfl, ?_⟩
      simpa using hl.called path .NS
  | some st =>
      by_cases hdir : st.fmt = .dir
      · simp only [hdir, ne_eq, not_true_eq_false, if_false, World.myfunc_D, Option.bind_some]
        have hd := hl.called path (.D st)
        obtain ⟨stk, hpush, hstk⟩ := hd.stk.push_initNode A ⟨path, level, st.ino⟩
        refine ⟨EXIT_SUCCESS, _, by rw [hpush, Option.map_some], ?_⟩
        simpa using hd.withStk hstk
      · simp only [hdir, ne_eq, not_false_eq_true, if_true, World.myfunc_F, Option.map_some]
        refine ⟨_, _, rfl, ?_⟩
        simpa [World.print] using
          (hl.called path (.F st)).emit (e := .line level name st.ino) fun _ => rfl

lemma procEntry_eq_none (s : World) (level : ℕ) {q name : Path}
    (hfit : ¬ Stays F E (joinPath q name)) : procEntry F A E s level q name = none := by
  rw [Stays, Classical.not_imp] at hfit
  simp only [procEntry, World.joinPath, hfit.1]
  rw [World.myfunc_NS_eq_none _ _ hfit.2, Option.map_none]

lemma procNames_spec (level : ℕ) {q : Path} {ds : List Path} (h : Rep s L aside tr)
    (hfit : ∀ d ∈ ds.filter notDots, Stays F E (joinPath q d)) :
    ∃ s', procNames F A E level q ds s = some s'
      ∧ Rep s' (((ds.filter notDots).flatMap (entryItems F (level + 1) q)).reverse ++ L) aside
          (tr ++ (ds.filter notDots).flatMap (entryEvents F (level + 1) q)) := by
  induction ds generalizing s L tr with
  | nil => exact ⟨s, rfl, by simpa using h⟩
  | cons d ds ih =>
      rw [procNames]
      by_cases hd : notDots d = true
      · rw [List.filter_cons_of_pos hd, List.forall_mem_cons] at hfit
        obtain ⟨ret, s₁, he, hs₁⟩ := procEntry_spec F A h (level + 1) hfit.1
        obtain ⟨s', hn, hs'⟩ := ih hs₁ hfit.2
        refine ⟨s', by rw [if_pos hd, he, Option.bind_some, hn], ?_⟩
        rw [List.filter_cons_of_pos hd, List.flatMap_cons, List.flatMap_cons, List.reverse_append,
          entryItems_reverse, List.append_assoc, ← List.append_assoc tr]
        exact hs'
      · rw [List.filter_cons_of_neg hd] at hfit
        rw [if_neg hd, List.filter_cons_of_neg hd]
        exact ih h hfit

lemma procNames_eq_none (level : ℕ) {q : Path} {ds : List Path}
    (hfit : ¬ ∀ d ∈ ds.filter notDots, Stays F E (joinPath q d)) (s : World) :
    procNames F A E level q ds s = none := by
  induction ds generalizing s with
  | nil => exact absurd (fun d hd => absurd hd List.not_mem_nil) hfit
  | cons d ds ih =>
      rw [procNames]
      by_cases hd : notDots d = true
      · rw [List.filter_cons_of_pos hd, List.forall_mem_cons, not_and_or] at hfit
        rw [if_pos hd]
        rcases hfit with hfit | hfit
        · rw [procEntry_eq_none F A s _ hfit, Option.bind_none]
        · exact Option.bind_eq_none_iff.mpr fun r _ => ih hfit r.2
      · rw [List.filter_cons_of_neg hd] at hfit
        rw [if_neg hd]
        exact ih hfit s

lemma procDir_spec {x : Item} (h : Rep s L aside tr)
    (hfit : ∀ d ∈ turnNames F x, Stays F E (joinPath x.data d)) :
    ∃ s', procDir F A E s x = some s' ∧ Rep s' (turnItems F x ++ L) aside
      (tr ++ .opendir x.data :: (turnNames F x).flatMap (entryEvents F (x.level + 1) x.data)) := by
  have ho := h.emit (e := .opendir x.data) fun _ => rfl
  rw [turnNames] at hfit
  rw [procDir, turnItems, turnNames]
  cases hopen : F.opendir x.data with
  | none => exact ⟨_, rfl, by simpa using ho⟩
  | some names =>
      rw [hopen] at hfit
      obtain ⟨s', hn, hs'⟩ := procNames_spec F A x.level ho hfit
      exact ⟨s', hn, by simpa using hs'⟩

lemma procDir_eq_none {x : Item} (hfit : ¬ ∀ d ∈ turnNames F x, Stays F E (joinPath x.data d))
    (s : World) : procDir F A E s x = none := by
  rw [turnNames] at hfit
  rw [procDir]
  cases hopen : F.opendir x.data with
  | none =>
      rw [hopen] at hfit
      exact absurd (fun d hd => absurd hd List.not_mem_nil) hfit
  | some names =>
      rw [hopen] at hfit
      exact procNames_eq_none F A x.level hfit _

/-- **A turn of the loop** pops the top item and pushes the directories it finds. -/
lemma turn_spec {x : Item} (h : Rep s (x :: L) [] tr)
    (hfit : ∀ d ∈ turnNames F x, Stays F E (joinPath x.data d)) :
    ∃ s', turn F A E s = some s' ∧ Rep s' (turnItems F x ++ L) [] (tr ++ turnEvents F x) := by
  obtain ⟨p, node, stk, hpop, hread, rfl, hstk⟩ := h.stk.pop_keep
  have hline := (h.withStk hstk).emit
    (e := .line node.level ((afterSlash node.data).getD node.data) node.inode) fun _ => rfl
  obtain ⟨s₁, hdir, hs₁⟩ := procDir_spec F A hline hfit
  obtain ⟨stk', hfree, hstk'⟩ := hs₁.stk.freeNode
  refine ⟨{ s₁ with stk := stk' }, ?_, ?_⟩
  · rw [turn, hpop]
    simp only [Option.bind_some, hread, World.print, hdir, hfree, Option.map_some]
  · simpa [turnEvents] using hs₁.withStk hstk'

/-- A turn in which a report does not fit goes astray. -/
lemma turn_eq_none {x : Item} (h : Rep s (x :: L) [] tr)
    (hfit : ¬ ∀ d ∈ turnNames F x, Stays F E (joinPath x.data d)) : turn F A E s = none := by
  obtain ⟨p, node, stk, hpop, hread, rfl, hstk⟩ := h.stk.pop_keep
  rw [turn, hpop]
  simp only [Option.bind_some, hread, procDir_eq_none F A hfit, Option.bind_none]

end Steps

/-! ### Directories that wait -/

/-- A directory on the stack, with its entries. -/
structure Pending where
  path : Path
  level : ℕ
  inode : ℕ
  entries : List Entry

def Pending.item (p : Pending) : Item := ⟨p.path, p.level, p.inode⟩

variable (F : Files)

/-- What an entry of the directory at `q` adds to the stack. -/
def Entry.pending (level : ℕ) (q : Path) : Entry → List Pending
  | .file _ _ _ => []
  | .dir name ino es =>
      if (F.lstat (joinPath q name.bytes)).isSome then [⟨joinPath q name.bytes, level, ino, es⟩]
      else []

/-- The directories that the directory at `q` puts on the stack, from the top down. -/
def pendingAll (level : ℕ) (q : Path) (es : List Entry) : List Pending :=
  (es.flatMap (Entry.pending F level q)).reverse

mutual

/-- The directories popped from the one at `q` on, in this order. -/
def Entry.popped (level : ℕ) (q : Path) : Entry → List Pending
  | .file _ _ _ => []
  | .dir _ ino es =>
      ⟨q, level, ino, es⟩ :: if (F.opendir q).isSome then poppedAll (level + 1) q es else []

/-- The directories popped among and below the entries of the one at `q`, the last
entry first. -/
def poppedAll (level : ℕ) (q : Path) : List Entry → List Pending
  | [] => []
  | e :: es =>
      poppedAll level q es
        ++ if (F.lstat (joinPath q e.name)).isSome then e.popped level (joinPath q e.name) else []

end

/-- The directories put on the stack by a turn for `p`. -/
def Pending.children (p : Pending) : List Pending :=
  if (F.opendir p.path).isSome then pendingAll F (p.level + 1) p.path p.entries else []

/-- The directories popped from `p` on. -/
def Pending.popped (p : Pending) : List Pending :=
  p :: if (F.opendir p.path).isSome then poppedAll F (p.level + 1) p.path p.entries else []

lemma poppedAll_eq (level : ℕ) (q : Path) (es : List Entry) :
    poppedAll F level q es = (pendingAll F level q es).flatMap (Pending.popped F) := by
  induction es with
  | nil => rfl
  | cons e es ih =>
      rw [poppedAll, ih, pendingAll, pendingAll, List.flatMap_cons, List.reverse_append,
        List.flatMap_append]
      congr 1
      cases e with
      | file name fmt ino => simp [Entry.popped, Entry.pending]
      | dir name ino es' =>
          by_cases hs : (F.lstat (joinPath q name.bytes)).isSome = true
          · simp only [Entry.popped, Entry.pending, Entry.name, hs, if_true, List.reverse_singleton,
              List.flatMap_singleton, Pending.popped]
            rfl
          · simp [Entry.pending, Entry.name, hs]

/-- A directory is popped before those it pushes. -/
lemma Pending.popped_eq (p : Pending) :
    p.popped F = p :: (p.children F).flatMap (Pending.popped F) := by
  rw [popped, children, poppedAll_eq]
  split_ifs <;> rfl

variable {F}

/-- The entries of a directory as it lists them when it is opened. -/
lemma turnNames_item {p : Pending} (h : Lists F p.path p.entries) :
    turnNames F p.item
      = if (F.opendir p.path).isSome then p.entries.map Entry.name else [] := by
  rw [turnNames, Pending.item]
  cases ho : F.opendir p.path with
  | none => rfl
  | some names => simpa using h.1 names ho

lemma entryItems_eq {level : ℕ} {q : Path} {e : Entry} (h : Serves F (joinPath q e.name) e) :
    entryItems F level q e.name = (e.pending F level q).map Pending.item := by
  rw [entryItems]
  cases hst : F.lstat (joinPath q e.name) with
  | none =>
      cases e with
      | file name fmt ino => rfl
      | dir name ino es =>
          rw [Entry.name] at hst
          simp [Entry.pending, hst]
  | some st =>
      obtain rfl := h.lstat_eq hst
      cases e with
      | file name fmt ino => simp [Entry.pending, Entry.stat, fmt.2]
      | dir name ino es =>
          rw [Entry.name] at hst
          simp [Entry.pending, Entry.stat, Entry.name, hst, Pending.item]

/-- What a turn for a directory of the tree pushes. -/
lemma turnItems_item {p : Pending} (h : Lists F p.path p.entries) :
    turnItems F p.item = (p.children F).map Pending.item := by
  rw [turnItems, turnNames_item h, Pending.children]
  split_ifs with ho
  · have hall : ∀ e ∈ p.entries, entryItems F (p.level + 1) p.path e.name
        = (e.pending F (p.level + 1) p.path).map Pending.item :=
      fun e he => entryItems_eq (h.serves he)
    rw [List.flatMap_map, pendingAll, List.map_reverse, List.map_flatMap]
    exact congrArg List.reverse (List.flatMap_congr hall)
  · rfl

/-- What a turn pushes: the entries of its directory that are directories and were
`lstat`-ed, one level below. -/
lemma Pending.mem_children {p c : Pending} : c ∈ p.children F ↔ (F.opendir p.path).isSome
    ∧ (F.lstat c.path).isSome ∧ c.level = p.level + 1
    ∧ ∃ name : Name, c.path = joinPath p.path name.bytes
        ∧ .dir name c.inode c.entries ∈ p.entries := by
  rw [children]
  split_ifs with ho
  · rw [pendingAll, List.mem_reverse, List.mem_flatMap]
    constructor
    · rintro ⟨e, he, hc⟩
      cases e with
      | file name fmt ino => cases hc
      | dir name ino es =>
          rw [Entry.pending] at hc
          split_ifs at hc with hs
          · rw [List.mem_singleton.mp hc]
            exact ⟨ho, hs, rfl, name, rfl, he⟩
          · cases hc
    · rintro ⟨-, hs, hlevel, name, hpath, he⟩
      refine ⟨_, he, ?_⟩
      rw [Entry.pending, ← hpath, if_pos hs, ← hlevel]
      exact List.mem_singleton_self c
  · exact iff_of_false List.not_mem_nil fun h => ho h.1

/-- What waits after a turn is of the tree again. -/
lemma Pending.lists_children {p : Pending} (h : Lists F p.path p.entries) {c : Pending}
    (hc : c ∈ p.children F) : Lists F c.path c.entries := by
  obtain ⟨-, -, -, name, hpath, he⟩ := mem_children.mp hc
  rw [hpath]
  exact (h.serves he).lists

/-! ### The loop -/

variable (F) in
/-- The reports about the entries of a directory fit, of those that are made. -/
def Pending.Stays (E : Errors) (p : Pending) : Prop :=
  ∀ d ∈ turnNames F p.item, DirWalk.Stays F E (joinPath p.path d)

variable {E : Errors}

/-- The trees that wait after a turn. -/
lemma Pending.lists_after {p : Pending} {P : List Pending}
    (h : ∀ c ∈ p :: P, Lists F c.path c.entries) :
    ∀ c ∈ p.children F ++ P, Lists F c.path c.entries := fun c hc =>
  (List.mem_append.mp hc).elim (lists_children (h p List.mem_cons_self))
    fun hc => h c (List.mem_cons_of_mem _ hc)

/-- The directories popped with the first tree that waits come before those popped after a
turn. -/
lemma Pending.popped_cons (p : Pending) (P : List Pending) :
    (p :: P).flatMap (popped F) = p :: (p.children F ++ P).flatMap (popped F) := by
  rw [List.flatMap_cons, popped_eq, List.cons_append, ← List.flatMap_append]

/-- **The loop** pops the directories of the trees that wait, one tree after the
other, and is over after as many turns. -/
lemma walkLoop_spec (A : Malloc) {s : World} {P : List Pending} {tr : List Event}
    (h : Rep s (P.map Pending.item) [] tr) (hl : ∀ p ∈ P, Lists F p.path p.entries)
    (hfit : ∀ p ∈ P.flatMap (Pending.popped F), p.Stays F E) :
    ∃ s', (∀ n ≥ (P.flatMap (Pending.popped F)).length, walkLoop F A E n s = some s')
      ∧ Rep s' [] []
        (tr ++ (P.flatMap (Pending.popped F)).flatMap fun p => turnEvents F p.item) := by
  -- by the number of directories that are still to be popped
  induction hk : (P.flatMap (Pending.popped F)).length generalizing s P tr with
  | zero =>
      cases P with
      | nil =>
          have hfree : isFree s.stk = true := h.stk.isFree_iff.mpr rfl
          refine ⟨s, fun n _ => ?_, by simpa using h⟩
          cases n <;> rw [walkLoop, if_pos hfree]
      | cons p P => simp [Pending.popped] at hk
  | succ k ih =>
      cases P with
      | nil => cases hk
      | cons p P =>
          rw [Pending.popped_cons] at hk hfit ⊢
          obtain ⟨hturns, hrest⟩ := List.forall_mem_cons.mp hfit
          -- one turn, and then what is left and what it has pushed
          obtain ⟨s₁, hturn, hs₁⟩ := turn_spec F A h hturns
          rw [turnItems_item (hl p List.mem_cons_self), ← List.map_append] at hs₁
          obtain ⟨s', hrun, hs'⟩ := ih hs₁ (Pending.lists_after hl) hrest (Nat.succ.inj hk)
          refine ⟨s', fun n hn => ?_, ?_⟩
          · have hbusy : ¬ isFree s.stk = true := fun hf => by simpa using h.stk.isFree_iff.mp hf
            obtain ⟨m, rfl⟩ : ∃ m, n = m + 1 := Nat.exists_eq_succ_of_ne_zero (by omega)
            rw [walkLoop, if_neg hbusy, hturn, Option.bind_some]
            exact hrun m (by omega)
          · rw [List.flatMap_cons, ← List.append_assoc]
            exact hs'

/-- The loop does not come to its end if a turn of one of these directories goes astray. -/
lemma walkLoop_eq_none (A : Malloc) {s : World} {P : List Pending} {tr : List Event}
    (h : Rep s (P.map Pending.item) [] tr) (hl : ∀ p ∈ P, Lists F p.path p.entries)
    (hfit : ¬ ∀ p ∈ P.flatMap (Pending.popped F), p.Stays F E) (n : ℕ) :
    walkLoop F A E n s = none := by
  induction n generalizing s P tr with
  | zero =>
      cases P with
      | nil => exact absurd (fun p hp => absurd hp List.not_mem_nil) hfit
      | cons p P =>
          rw [walkLoop, if_neg fun hf => by simpa using h.stk.isFree_iff.mp hf]
  | succ n ih =>
      cases P with
      | nil => exact absurd (fun p hp => absurd hp List.not_mem_nil) hfit
      | cons p P =>
          rw [walkLoop, if_neg fun hf => by simpa using h.stk.isFree_iff.mp hf]
          by_cases hturns : p.Stays F E
          · -- the turn that goes astray is one of those behind this one
            obtain ⟨s₁, hturn, hs₁⟩ := turn_spec F A h hturns
            rw [turnItems_item (hl p List.mem_cons_self), ← List.map_append] at hs₁
            rw [Pending.popped_cons, List.forall_mem_cons, not_and] at hfit
            rw [hturn, Option.bind_some]
            exact ih hs₁ (Pending.lists_after hl) (hfit hturns)
          · rw [turn_eq_none F A h hturns, Option.bind_none]

/-- The events before the loop. -/
def startEvents (start : Path) : List Event := [.copy 257 (start.length + 1), .lstat start]

/-- The walk from a path that can be `lstat`-ed, on a stack that is fresh and empty, is the loop
from a stack with the start on it. -/
lemma myftwN_eq_walkLoop (A : Malloc) (E : Errors) {start : Path} {st : Stat}
    (hst : F.lstat start = some st) : ∃ s, Rep s [⟨start, 0, st.ino⟩] [] (startEvents start)
      ∧ ∀ n, myftwN F A E n none start = (walkLoop F A E n s).bind fun s =>
          (freeStack n s.stk).map fun stk => (1, { s with stk := stk }) := by
  have h0 : Rep ⟨initStack ∅ none, .zero, []⟩ [] [] [] :=
    ⟨holds_empty ∅, rfl, fun k => by cases k <;> rfl⟩
  have h1 := (h0.emit (e := .copy 257 (start.length + 1)) fun _ => rfl).emit
    (e := .lstat start) fun _ => rfl
  obtain ⟨stk, hpush, hstk⟩ := h1.stk.push_initNode A ⟨start, 0, st.ino⟩
  refine ⟨_, h1.withStk hstk, fun n => ?_⟩
  simp only [myftwN, World.allocStr, hst]
  rw [hpush, Option.bind_some]

/-- **The walk** from such a path ends where the reports fit, and its events are those of the
directories popped. -/
theorem myftwN_spec (A : Malloc) {start : Path} {st : Stat} {es : List Entry}
    (hst : F.lstat start = some st) (hl : Lists F start es)
    (hfit : ∀ p ∈ Pending.popped F ⟨start, 0, st.ino, es⟩, p.Stays F E) :
    ∃ N s, (∀ n ≥ N, myftwN F A E n none start = some (1, s))
      ∧ Rep s [] [] (startEvents start
          ++ (Pending.popped F ⟨start, 0, st.ino, es⟩).flatMap fun p => turnEvents F p.item) := by
  obtain ⟨s₀, hs₀, hwalk⟩ := myftwN_eq_walkLoop A E hst
  obtain ⟨s', hrun, hs'⟩ := walkLoop_spec A (P := [⟨start, 0, st.ino, es⟩]) hs₀
    (List.forall_mem_singleton.mpr hl) (by rw [List.flatMap_singleton]; exact hfit)
  rw [List.flatMap_singleton] at hrun hs'
  have hfree : isFree s'.stk = true := hs'.stk.isFree_iff.mpr rfl
  refine ⟨(Pending.popped F ⟨start, 0, st.ino, es⟩).length, s', fun n hn => ?_, hs'⟩
  rw [hwalk, hrun n hn, Option.bind_some, freeStack_of_isFree n hfree, Option.map_some]

/-- Where one does not fit the walk never returns. -/
theorem myftwN_eq_none (A : Malloc) {start : Path} {st : Stat} {es : List Entry}
    (hst : F.lstat start = some st) (hl : Lists F start es)
    (hfit : ¬ ∀ p ∈ Pending.popped F ⟨start, 0, st.ino, es⟩, p.Stays F E) (n : ℕ) :
    myftwN F A E n none start = none := by
  obtain ⟨s₀, hs₀, hwalk⟩ := myftwN_eq_walkLoop A E hst
  have hstray := walkLoop_eq_none A (P := [⟨start, 0, st.ino, es⟩]) hs₀
    (List.forall_mem_singleton.mpr hl) (by rw [List.flatMap_singleton]; exact hfit) n
  rw [hwalk, hstray, Option.bind_none]

end DirWalk

end OperatingSys
