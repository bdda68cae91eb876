import OperatingSys.DirWalk.Iterative

/-!
The strings of the iterative walk.

Whatever the memory of the stack held, each node that is in the heap and each name passed
to `lstat` spells the way from the start to an entry, and `join_path` allocates what it
writes. The copy of the start has 257 bytes, however long the start is
(`strings_kept_iff`).
-/

namespace OperatingSys

namespace DirWalk

/-! ### Names on the way -/

/-- The names on the way from a directory with the given entries to an entry below it. -/
inductive Way (es : List Entry) : List Path → Entry → Prop
  | child {e : Entry} (he : e ∈ es) : Way es [e.name] e
  | deeper {ns : List Path} {name : Name} {ino : ℕ} {es' : List Entry} {e : Entry}
      (h : Way es ns (.dir name ino es')) (he : e ∈ es') : Way es (ns ++ [e.name]) e

/-- A path followed by names, each behind a slash. -/
def spell (start : Path) (ns : List Path) : Path := start ++ ns.flatMap fun n => 47 :: n

lemma spell_snoc (start : Path) (ns : List Path) (n : Path) :
    spell start (ns ++ [n]) = joinPath (spell start ns) n := by
  simp [spell, joinPath]

/-- The path is the start, or the start and the names on the way to an entry. -/
def OnWay (start : Path) (es : List Entry) (q : Path) : Prop :=
  q = start ∨ ∃ ns e, Way es ns e ∧ q = spell start ns

/-- The path spells the way to a directory with the entries `es'`. -/
def LeadsTo (start : Path) (es : List Entry) (q : Path) (es' : List Entry) : Prop :=
  q = start ∧ es' = es ∨ ∃ ns name ino, Way es ns (.dir name ino es') ∧ q = spell start ns

variable {start q : Path} {es es' : List Entry}

lemma LeadsTo.onWay (h : LeadsTo start es q es') : OnWay start es q := by
  rcases h with ⟨rfl, -⟩ | ⟨ns, name, ino, hway, rfl⟩
  · exact Or.inl rfl
  · exact Or.inr ⟨ns, _, hway, rfl⟩

/-- One name more. -/
lemma LeadsTo.way (h : LeadsTo start es q es') {e : Entry} (he : e ∈ es') :
    ∃ ns, Way es ns e ∧ joinPath q e.name = spell start ns := by
  rcases h with ⟨rfl, rfl⟩ | ⟨ns, name, ino, hway, rfl⟩
  · exact ⟨[e.name], .child he, by simp [spell, joinPath]⟩
  · exact ⟨ns ++ [e.name], .deeper hway he, (spell_snoc _ _ _).symm⟩

/-! ### Turn after turn -/

section Turns

variable (F : Files) (A : Malloc) (E : Errors)

/-- The state with which `myftw_n` comes to its loop. -/
def enterLoop (junk : Option ℕ) (start : Path) (st : Stat) : Option World :=
  let s : World := ⟨initStack ∅ junk, .zero, []⟩
  let (fullPath, s) := s.allocStr start 256
  let s := s.emit (.lstat start)
  let (node, stk) := initNode A s.stk fullPath 0 st.ino
  (push stk node).map fun stk => { s with stk := stk }

/-- The loop after so many turns, or after fewer if it is over. -/
def turns : ℕ → World → Option World
  | 0, s => some s
  | n + 1, s => if isFree s.stk then some s else (turn F A E s).bind (turns n)

lemma walkLoop_eq_turns (n : ℕ) (s : World) : walkLoop F A E n s =
    (turns F A E n s).bind fun s => if isFree s.stk then some s else none := by
  induction n generalizing s with
  | zero => rfl
  | succ n ih =>
      rw [walkLoop, turns]
      split_ifs with hf
      · rw [Option.bind_some, if_pos hf]
      · rw [Option.bind_assoc]
        exact congrArg _ (funext ih)

/-- The walk is these turns, and the stack freed behind them. -/
lemma myftwN_eq_turns {n : ℕ} {junk : Option ℕ} {st : Stat} (hst : F.lstat start = some st) :
    myftwN F A E n junk start =
      ((enterLoop A junk start st).bind (turns F A E n)).bind fun s =>
        if isFree s.stk then (freeStack n s.stk).map fun stk => (1, { s with stk := stk })
        else none := by
  have hcut : ∀ s : World, ((if isFree s.stk then some s else none).bind fun s : World =>
      (freeStack n s.stk).map fun stk => ((1 : ℤ), { s with stk := stk })) =
      if isFree s.stk then (freeStack n s.stk).map fun stk => (1, { s with stk := stk })
      else none := fun s => by split_ifs <;> rfl
  simp only [myftwN, hst, walkLoop_eq_turns, Option.bind_assoc, hcut, enterLoop,
    Option.bind_map, Function.comp_def]

variable {F A E}

/-- **One turn**, call after call. -/
lemma turn_cases {s s' : World} (h : turn F A E s = some s') : ∃ p node s₁ stk',
    s.stk.top = some p ∧ s.stk.heap.lookup p = some node
      ∧ procDir F A E ({ s with stk := ⟨s.stk.heap, node.next⟩ }.print
          ((afterSlash node.data).getD node.data) node.level node.inode) node.toItem = some s₁
      ∧ freeNode s₁.stk p = some stk' ∧ s' = { s₁ with stk := stk' } := by
  obtain ⟨⟨ptr, stk⟩, hpop, h⟩ := Option.bind_eq_some_iff.mp h
  obtain ⟨p, top, htop, hread, rfl, rfl⟩ := pop_keep_cases hpop
  obtain ⟨p', hp, h⟩ := Option.bind_eq_some_iff.mp h
  cases hp
  obtain ⟨node, hnode, h⟩ := Option.bind_eq_some_iff.mp h
  cases hread.symm.trans hnode
  obtain ⟨s₁, hdir, h⟩ := Option.bind_eq_some_iff.mp h
  obtain ⟨stk', hfree, rfl⟩ := Option.map_eq_some_iff.mp h
  exact ⟨p, _, s₁, stk', htop, hread, hdir, hfree, rfl⟩

/-- What every turn keeps is kept by any number of them. -/
lemma turns_induct {I : World → Prop} (hturn : ∀ s s', I s → turn F A E s = some s' → I s')
    {s s' : World} (h : I s) {n : ℕ} (hrun : turns F A E n s = some s') : I s' := by
  induction n generalizing s with
  | zero =>
      cases hrun
      exact h
  | succ n ih =>
      rw [turns] at hrun
      split_ifs at hrun
      · cases hrun
        exact h
      · obtain ⟨s₁, hs, hrest⟩ := Option.bind_eq_some_iff.mp hrun
        exact ih (hturn s s₁ h hs) hrest

end Turns

/-! ### What the strings keep -/

variable {F : Files} {A : Malloc} {E : Errors}

/-- A name passed to `lstat` is on the way, and a copy fits, but for the copy of the start,
which has 257 bytes. -/
def Event.Kept (start : Path) (es : List Entry) : Event → Prop
  | .lstat q => OnWay start es q
  | .copy allocated written =>
      written ≤ allocated ∨ allocated = 257 ∧ written = start.length + 1
  | .opendir _ | .myfunc .. | .line .. => True

variable (F) in
/-- Every node in the heap leads to a directory of the tree. -/
def NodesLead (start : Path) (es : List Entry) (heap : Heap) : Prop :=
  ∀ p node, heap.lookup p = some node →
    ∃ es', LeadsTo start es node.data es' ∧ Lists F node.data es'

variable (F) in
/-- The nodes and the events so far. -/
structure Kept (start : Path) (es : List Entry) (s : World) : Prop where
  nodes : NodesLead F start es s.stk.heap
  events : ∀ e ∈ s.trace, e.Kept start es

variable {s s' : World}

lemma Kept.emit (h : Kept F start es s) {e : Event} (he : e.Kept start es) :
    Kept F start es (s.emit e) where
  nodes := h.nodes
  events e' he' := by
    rcases List.mem_append.mp he' with he' | he'
    · exact h.events e' he'
    · rwa [List.mem_singleton.mp he']

lemma Kept.called (h : Kept F start es s) (q : Path) (t : Ftw) :
    Kept F start es (s.called q t) :=
  Kept.emit (s := { s with counts := s.counts.tally t }) ⟨h.nodes, h.events⟩ trivial

lemma NodesLead.insert {heap : Heap} (h : NodesLead F start es heap) {p : ℕ} {node : Node}
    (hnode : ∃ es', LeadsTo start es node.data es' ∧ Lists F node.data es') :
    NodesLead F start es (heap.insert p node) := forall_node_insert h hnode

lemma NodesLead.erase {heap : Heap} (h : NodesLead F start es heap) (p : ℕ) :
    NodesLead F start es (heap.erase p) := forall_node_erase h p

/-- A new node is pushed. -/
lemma NodesLead.push_initNode {stk stk' : StackT} (h : NodesLead F start es stk.heap)
    {q : Path} {level ino : ℕ} (hq : ∃ es', LeadsTo start es q es' ∧ Lists F q es')
    (hpush : push (initNode A stk q level ino).2 (initNode A stk q level ino).1 = some stk') :
    NodesLead F start es stk'.heap := by
  have hnew : NodesLead F start es (stk.heap.insert (A.pick stk.heap) ⟨⟨q, level, ino⟩, none⟩) :=
    h.insert hq
  rw [push, initNode] at hpush
  dsimp only at hpush
  split at hpush
  · cases hpush
    exact hnew
  · rw [AList.lookup_insert, Option.map_some] at hpush
    cases hpush
    exact hnew.insert hq

/-- An entry. -/
lemma Kept.procEntry (h : Kept F start es s) {q : Path} (hq : LeadsTo start es q es')
    (hl : Lists F q es') {e : Entry} (he : e ∈ es') {level : ℕ} {ret : ℤ}
    (hrun : procEntry F A E s level q e.name = some (ret, s')) : Kept F start es s' := by
  obtain ⟨ns, hway, hspell⟩ := hq.way he
  have hcopy : Kept F start es (s.joinPath q e.name).2 := h.emit (Or.inl (by omega))
  have hstat : Kept F start es ((s.joinPath q e.name).2.emit (.lstat (joinPath q e.name))) :=
    hcopy.emit (Or.inr ⟨ns, e, hway, hspell⟩)
  rw [DirWalk.procEntry] at hrun
  dsimp only [World.joinPath] at hrun hstat
  split at hrun
  · -- `lstat` fails
    obtain ⟨s₁, hs₁, heq⟩ := Option.map_eq_some_iff.mp hrun
    cases heq
    rw [World.eq_called hs₁]
    exact hstat.called _ _
  · next st hst =>
      split_ifs at hrun with hdir
      · -- nothing is pushed for what is no directory
        cases hrun
        exact (hstat.called _ _).emit trivial
      · -- the path that has been built is pushed
        rw [World.myfunc_D, Option.bind_some] at hrun
        obtain ⟨stk, hpush, heq⟩ := Option.map_eq_some_iff.mp hrun
        cases heq
        have hserve := hl.serves he
        obtain rfl := hserve.lstat_eq hst
        refine ⟨?_, (hstat.called _ _).events⟩
        cases e with
        | file name fmt ino => exact absurd fmt.2 hdir
        | dir name ino es'' =>
            exact NodesLead.push_initNode (hstat.called _ _).nodes
              ⟨es'', Or.inr ⟨ns, name, ino, hway, hspell⟩, hserve.lists⟩ hpush

/-- The entries of a directory. -/
lemma Kept.procNames {names : List Path} (h : Kept F start es s) {q : Path}
    (hq : LeadsTo start es q es') (hl : Lists F q es')
    (hnames : ∀ d ∈ names, notDots d = true → ∃ e ∈ es', d = e.name) {level : ℕ}
    (hrun : procNames F A E level q names s = some s') : Kept F start es s' := by
  induction names generalizing s with
  | nil =>
      cases hrun
      exact h
  | cons d names ih =>
      have hrest := fun d' hd' => hnames d' (List.mem_cons_of_mem _ hd')
      rw [DirWalk.procNames] at hrun
      split_ifs at hrun with hd
      · obtain ⟨⟨ret, s₁⟩, hentry, hmore⟩ := Option.bind_eq_some_iff.mp hrun
        obtain ⟨e, he, rfl⟩ := hnames d List.mem_cons_self hd
        exact ih (h.procEntry hq hl he hentry) hrest hmore
      · exact ih h hrest hrun

/-- A directory. -/
lemma Kept.procDir (h : Kept F start es s) {x : Item} (hq : LeadsTo start es x.data es')
    (hl : Lists F x.data es') (hrun : procDir F A E s x = some s') : Kept F start es s' := by
  have hopen : Kept F start es (s.emit (.opendir x.data)) := h.emit trivial
  rw [DirWalk.procDir] at hrun
  split at hrun
  · cases hrun
    exact hopen
  · next names ho =>
      refine hopen.procNames hq hl (fun d hd hdots => ?_) hrun
      have hmem : d ∈ names.filter notDots := List.mem_filter.mpr ⟨hd, hdots⟩
      rw [hl.1 names ho] at hmem
      obtain ⟨e, he, rfl⟩ := List.mem_map.mp hmem
      exact ⟨e, he, rfl⟩

/-- **One turn** keeps the nodes on the way and the copies within what was allocated. -/
lemma Kept.turn (h : Kept F start es s) (hrun : turn F A E s = some s') : Kept F start es s' := by
  obtain ⟨p, node, s₁, stk', -, hread, hdir, hfree, rfl⟩ := turn_cases hrun
  have hpopped : Kept F start es { s with stk := ⟨s.stk.heap, node.next⟩ } := ⟨h.nodes, h.events⟩
  obtain ⟨es', hq, hl⟩ := hpopped.nodes p node hread
  have hline : Kept F start es ({ s with stk := ⟨s.stk.heap, node.next⟩ }.print
      ((afterSlash node.data).getD node.data) node.level node.inode) := hpopped.emit trivial
  have hs₁ : Kept F start es s₁ := hline.procDir hq hl hdir
  obtain ⟨-, -, rfl⟩ := Option.map_eq_some_iff.mp hfree
  exact ⟨hs₁.nodes.erase p, hs₁.events⟩

lemma Kept.turns (h : Kept F start es s) {k : ℕ} (hrun : turns F A E k s = some s') :
    Kept F start es s' :=
  turns_induct (fun _ _ hs => hs.turn) h hrun

/-- The state before the loop. -/
lemma enterLoop_spec (junk : Option ℕ) (start : Path) (st : Stat) : ∃ stk,
    push (initNode A (initStack ∅ junk) start 0 st.ino).2
        (initNode A (initStack ∅ junk) start 0 st.ino).1 = some stk
      ∧ enterLoop A junk start st =
          some ⟨stk, .zero, [.copy 257 (start.length + 1), .lstat start]⟩ := by
  have hpush : ∃ stk, push (initNode A (initStack ∅ junk) start 0 st.ino).2
      (initNode A (initStack ∅ junk) start 0 st.ino).1 = some stk := by
    cases junk with
    | none => exact ⟨_, rfl⟩
    | some t =>
        simp only [push, initNode, initStack, AList.lookup_insert, Option.map_some]
        exact ⟨_, rfl⟩
  obtain ⟨stk, hstk⟩ := hpush
  refine ⟨stk, hstk, ?_⟩
  rw [enterLoop]
  simp only [World.allocStr, World.emit, hstk, Option.map_some]
  rfl

lemma kept_enterLoop {junk : Option ℕ} {st : Stat} (hl : Lists F start es)
    (hrun : enterLoop A junk start st = some s) : Kept F start es s := by
  obtain ⟨stk, hpush, heq⟩ := enterLoop_spec (A := A) junk start st
  cases heq.symm.trans hrun
  refine ⟨NodesLead.push_initNode (fun p node hread => ?_) ⟨es, Or.inl ⟨rfl, rfl⟩, hl⟩ hpush, ?_⟩
  · rw [initStack, AList.lookup_empty] at hread
    cases hread
  · intro e he
    rcases List.mem_cons.mp he with rfl | he
    · exact Or.inr ⟨rfl, rfl⟩
    · rw [List.mem_singleton.mp he]
      exact Or.inl rfl

/-! ### The copy of the start -/

/-- The state with which the walk of a path comes to its loop, if it does. -/
def started (F : Files) (A : Malloc) (junk : Option ℕ) (start : Path) : Option World :=
  (F.lstat start).bind (enterLoop A junk start)

/-- After any number of turns, the strings in the nodes and those that were passed to
`lstat` are on the way, and no copy has written more than was allocated for it. -/
def StringsKept (F : Files) (A : Malloc) (E : Errors) (junk : Option ℕ) (start : Path)
    (es : List Entry) : Prop :=
  ∀ k s, (started F A junk start).bind (turns F A E k) = some s →
    (∀ p node, s.stk.heap.lookup p = some node → OnWay start es node.data)
      ∧ (∀ q, .lstat q ∈ s.trace → OnWay start es q)
      ∧ ∀ allocated written, .copy allocated written ∈ s.trace → written ≤ allocated

/-- The walk copies its start. -/
lemma exists_copy (junk : Option ℕ) (hst : (F.lstat start).isSome) :
    ∃ s, (started F A junk start).bind (turns F A E 0) = some s
      ∧ .copy 257 (start.length + 1) ∈ s.trace := by
  obtain ⟨st, hst⟩ := Option.isSome_iff_exists.mp hst
  obtain ⟨stk, -, heq⟩ := enterLoop_spec (A := A) junk start st
  rw [started, hst, Option.bind_some, heq]
  exact ⟨_, rfl, List.mem_cons_self⟩

/-- **The strings of the iterative walk** are kept exactly when the start is no longer than
256 bytes. -/
theorem strings_kept_iff (F : Files) (A : Malloc) (E : Errors) (junk : Option ℕ) (start : Path)
    (es : List Entry) (hst : (F.lstat start).isSome) (hl : Lists F start es) :
    StringsKept F A E junk start es ↔ start.length ≤ 256 := by
  constructor
  · intro h
    obtain ⟨s, hrun, hmem⟩ := exists_copy (A := A) (E := E) junk hst
    have hfits := (h 0 s hrun).2.2 _ _ hmem
    omega
  · intro hlen k s hrun
    obtain ⟨s₀, hstart, hturns⟩ := Option.bind_eq_some_iff.mp hrun
    obtain ⟨st, -, henter⟩ := Option.bind_eq_some_iff.mp hstart
    have hkept := (kept_enterLoop hl henter).turns hturns
    refine ⟨fun p node hread => ?_, fun q hq => hkept.events _ hq, fun m n hmn => ?_⟩
    · obtain ⟨es', hleads, -⟩ := hkept.nodes p node hread
      exact hleads.onWay
    · rcases hkept.events _ hmn with hle | ⟨rfl, rfl⟩
      · exact hle
      · omega

/-- A start that is an empty directory. -/
def emptyStart (start : Path) : Files where
  lstat q := if q = start then some ⟨.dir, 1⟩ else none
  opendir q := if q = start then some [[46], [46, 46]] else none

lemma emptyStart_lists (start : Path) : Lists (emptyStart start) start [] := by
  simp [Lists, emptyStart, notDots, ServesAll]

lemma emptyStart_lstat (start : Path) : ((emptyStart start).lstat start).isSome := by
  simp [emptyStart]

/-- A start with a link and a directory in it. -/
theorem strings_kept_iff_one_link :
    StringsKept oneLink .bump denied none [115] oneLinkEntries ↔ 1 ≤ 256 :=
  strings_kept_iff oneLink .bump denied none [115] oneLinkEntries rfl oneLink_serves.lists

/-- A start of 257 letters is copied to 257 bytes with its terminator. -/
theorem long_start_overflows : ¬ StringsKept (emptyStart (List.replicate 257 115)) .bump denied none
    (List.replicate 257 115) [] := by
  intro h
  obtain ⟨s, hrun, hmem⟩ := exists_copy (A := .bump) (E := denied) none
    (emptyStart_lstat (List.replicate 257 115))
  have hfits := (h 0 s hrun).2.2 _ _ hmem
  rw [List.length_replicate] at hfits
  omega

end DirWalk

end OperatingSys
