import OperatingSys.DirWalk.Coverage
import OperatingSys.Foundations.RoseTree

/-!
The listing that the iterative walk puts out.

A file is printed while its directory is read and a directory when it is popped, so
what is listed below a directory are its files in their order and then its
directories, the last one first: the walk lists the tree with its siblings in that
order (`Entry.listed`), and lists it node before what is below it
(`lines_popped`). With `Rose.attach_preorder` the listing determines the tree, which
is what `listing_determines_tree` says.
-/

namespace OperatingSys

namespace DirWalk

/-- The lines put out among the events, each a level, a name and an inode. -/
def lines (tr : List Event) : List (ℕ × Path × ℕ) :=
  tr.filterMap fun
    | .line l d i => some (l, d, i)
    | _ => none

lemma lines_append (tr tr' : List Event) : lines (tr ++ tr') = lines tr ++ lines tr' :=
  List.filterMap_append

lemma lines_flatMap {β : Type*} (f : β → List Event) (xs : List β) :
    lines (xs.flatMap f) = xs.flatMap fun x => lines (f x) := by
  rw [lines, List.filterMap_flatMap]
  rfl

/-! ### Trees of names and inodes -/

mutual

/-- An entry as a tree of names and inodes. -/
def Entry.tree : Entry → Rose (Path × ℕ)
  | .file name _ ino => .node (name.bytes, ino) []
  | .dir name ino es => .node (name.bytes, ino) (treeAll es)

def treeAll : List Entry → List (Rose (Path × ℕ))
  | [] => []
  | e :: es => e.tree :: treeAll es

end

mutual

/-- An entry as a tree, with the siblings as the walk lists them: the files in their
order and then the directories, the last one first. -/
def Entry.listed : Entry → Rose (Path × ℕ)
  | .file name _ ino => .node (name.bytes, ino) []
  | .dir name ino es => .node (name.bytes, ino) (listedFiles es ++ listedDirs es)

def listedFiles : List Entry → List (Rose (Path × ℕ))
  | [] => []
  | e :: es => (if e.stat.fmt = .dir then [] else [e.listed]) ++ listedFiles es

def listedDirs : List Entry → List (Rose (Path × ℕ))
  | [] => []
  | e :: es => listedDirs es ++ if e.stat.fmt = .dir then [e.listed] else []

end

lemma treeAll_eq (es : List Entry) : treeAll es = es.map Entry.tree := by
  induction es with
  | nil => rfl
  | cons e es ih => rw [treeAll, ih, List.map_cons]

/-- The entries of a directory in the order in which the walk lists them. -/
def listedOrder (es : List Entry) : List Entry :=
  es.filter (fun e => !decide (e.stat.fmt = .dir))
    ++ (es.filter fun e => decide (e.stat.fmt = .dir)).reverse

lemma listedOrder_perm (es : List Entry) : es.Perm (listedOrder es) := by
  have hsplit := List.filter_append_perm (fun e : Entry => decide (e.stat.fmt = .dir)) es
  exact (hsplit.symm.trans List.perm_append_comm).trans
    ((List.Perm.refl _).append (List.reverse_perm _).symm)

lemma listedFiles_eq (es : List Entry) :
    listedFiles es = (es.filter fun e => !decide (e.stat.fmt = .dir)).map Entry.listed := by
  induction es with
  | nil => rfl
  | cons e es ih =>
      rw [listedFiles, ih, List.filter_cons]
      by_cases hdir : e.stat.fmt = .dir <;> simp [hdir]

lemma listedDirs_eq (es : List Entry) : listedDirs es
    = ((es.filter fun e => decide (e.stat.fmt = .dir)).reverse).map Entry.listed := by
  induction es with
  | nil => rfl
  | cons e es ih =>
      rw [listedDirs, ih, List.filter_cons]
      by_cases hdir : e.stat.fmt = .dir <;> simp [hdir]

/-- A directory as the walk lists it is the directory. -/
lemma same_listed (a : Path × ℕ) (es : List Entry)
    (h : ∀ e ∈ es, Rose.Same e.tree e.listed) :
    Rose.Same (.node a (treeAll es)) (.node a (listedFiles es ++ listedDirs es)) := by
  have hperm := listedOrder_perm es
  rw [treeAll_eq, listedFiles_eq, listedDirs_eq, ← List.map_append, ← listedOrder]
  refine .node (hperm.map _) ?_
  rw [List.forall₂_map_left_iff, List.forall₂_map_right_iff, List.forall₂_same]
  exact fun e he => h e (hperm.mem_iff.mpr he)

lemma Entry.same_listed (e : Entry) : Rose.Same e.tree e.listed := by
  induction e using Entry.induct with
  | file name fmt ino => exact .node (List.Perm.refl _) .nil
  | dir name ino es ih => exact DirWalk.same_listed _ es ih

/-! ### The lines of a turn, the lines of the walk -/

lemma afterSlash_of_not_mem {n : Path} (h : (47 : UInt8) ∉ n) : afterSlash n = none := by
  induction n with
  | nil => rfl
  | cons x n ih =>
      obtain ⟨hx, hn⟩ := not_or.mp fun hm => h (List.mem_cons.mpr hm)
      rw [afterSlash, ih hn]
      exact if_neg (Ne.symm hx)

/-- What stands behind the last slash of a joined path is the name joined. -/
lemma afterSlash_joinPath (q : Path) {n : Path} (h : (47 : UInt8) ∉ n) :
    afterSlash (joinPath q n) = some n := by
  rw [joinPath]
  induction q with
  | nil => rw [List.nil_append, afterSlash, afterSlash_of_not_mem h]; rfl
  | cons x q ih => rw [List.cons_append, afterSlash, ih]

variable {F : Files}

/-- The lines of the files of a directory. -/
lemma lines_entries {q : Path} {level : ℕ} {es : List Entry}
    (h : ∀ e ∈ es, Shows F (joinPath q e.name) e) :
    lines ((es.map Entry.name).flatMap (entryEvents F level q))
      = Rose.preorderAll level (listedFiles es) := by
  induction es with
  | nil => rfl
  | cons e es ih =>
      have hst := (h e List.mem_cons_self).lstat_eq
      rw [List.map_cons, List.flatMap_cons, lines_append,
        ih fun e' he' => h e' (List.mem_cons_of_mem _ he'), listedFiles, entryEvents, statEvents,
        hst]
      cases e with
      | file name fmt ino =>
          simp [lines, Entry.stat, fmt.2, Entry.listed, Entry.name, Rose.preorderAll, Rose.preorder]
      | dir name ino es' => simp [lines, Entry.stat]

/-- The tree listed from a directory that waits, which is shown by what stands behind
the last slash of its path. -/
def Pending.listed (p : Pending) : Rose (Path × ℕ) :=
  .node ((afterSlash p.path).getD p.path, p.inode) (listedFiles p.entries ++ listedDirs p.entries)

lemma Pending.opens_children {p c : Pending} (h : Opens F p.path p.entries)
    (hc : c ∈ p.children F) : Opens F c.path c.entries := by
  obtain ⟨-, -, -, name, hpath, he⟩ := mem_children.mp hc
  rw [hpath]
  exact (h.shows he).opens

/-- The directories that are pushed are listed as the directories of the entry. -/
lemma Pending.children_listed {p : Pending} (h : Opens F p.path p.entries) :
    (p.children F).map Pending.listed = listedDirs p.entries := by
  obtain ⟨⟨names, ho, -⟩, hall⟩ := h
  have hshows := showsAll_iff.mp hall
  rw [children, if_pos (by rw [ho]; rfl)]
  generalize p.entries = es at hshows
  induction es with
  | nil => rfl
  | cons e es ih =>
      have hst := (hshows e List.mem_cons_self).lstat_eq
      have hrest := ih fun e' he' => hshows e' (List.mem_cons_of_mem _ he')
      rw [pendingAll] at hrest
      rw [pendingAll, List.flatMap_cons, List.reverse_append, List.map_append, hrest, listedDirs]
      congr 1
      cases e with
      | file name fmt ino => simp [Entry.pending, Entry.stat, fmt.2]
      | dir name ino es' =>
          rw [Entry.name] at hst
          simp [Entry.pending, Entry.stat, hst, listed, Entry.listed,
            afterSlash_joinPath _ name.noSlash]

/-- **The lines of the walk** list the directory it starts at. -/
lemma lines_popped {p : Pending} (h : Opens F p.path p.entries) :
    lines ((p.popped F).flatMap fun c => turnEvents F c.item) = Rose.preorder p.level p.listed := by
  induction p using Pending.induct (F := F) with
  | h p ih =>
      have hchild : ∀ c ∈ p.children F,
          lines ((c.popped F).flatMap fun d => turnEvents F d.item)
            = Rose.preorder (p.level + 1) c.listed := fun c hc => by
        rw [ih c hc (Pending.opens_children h hc), (Pending.mem_children.mp hc).2.2.1]
      have hturn : lines (turnEvents F p.item)
          = (p.level, (afterSlash p.path).getD p.path, p.inode)
            :: Rose.preorderAll (p.level + 1) (listedFiles p.entries) := by
        obtain ⟨⟨names, ho, -⟩, hall⟩ := id h
        rw [← lines_entries (showsAll_iff.mp hall), turnEvents, turnNames_item h.lists, ho]
        rfl
      rw [Pending.popped_eq, List.flatMap_cons, lines_append, hturn, List.flatMap_assoc,
        lines_flatMap, List.flatMap_congr hchild, Pending.listed, Rose.preorder,
        Rose.preorderAll_eq, Rose.preorderAll_eq, List.flatMap_append, List.cons_append,
        ← Pending.children_listed h, List.flatMap_map]

/-- **The listing determines the tree.** On a tree where nothing fails, and from an
empty stack, the walk ends and its lines are one for each entry with its depth, the
start among them under the name shown for it; and attaching each line to the nearest
earlier one of the level before gives the tree back up to the order of siblings. -/
theorem listing_determines_tree (F : Files) (A : Malloc) (E : Errors) (start : Path) (name : Name)
    (ino : ℕ) (es : List Entry) (hshows : Shows F start (.dir name ino es)) :
    ∃ N s t, (∀ n ≥ N, myftwN F A E n none start = some (1, s))
      ∧ Rose.attach (lines s.trace) = [(0, t)]
      ∧ Rose.Same (.node ((afterSlash start).getD start, ino) (treeAll es)) t
      ∧ (lines s.trace).Perm
          (Rose.preorder 0 (.node ((afterSlash start).getD start, ino) (treeAll es))) := by
  have hopens := hshows.opens
  obtain ⟨N, s, hrun, hs⟩ := myftwN_spec A (E := E) hshows.lstat_eq hopens.lists
    (stays_popped (p := ⟨start, 0, ino, es⟩) hopens)
  have hlines : lines s.trace = Rose.preorder 0 (Pending.listed ⟨start, 0, ino, es⟩) :=
    calc lines s.trace = lines (startEvents start) ++ lines ((Pending.popped F
          ⟨start, 0, ino, es⟩).flatMap fun c => turnEvents F c.item) := by
            rw [hs.trace, lines_append]
            rfl
      _ = _ := lines_popped (p := ⟨start, 0, ino, es⟩) hopens
  have hsame : Rose.Same (.node ((afterSlash start).getD start, ino) (treeAll es))
      (Pending.listed ⟨start, 0, ino, es⟩) := same_listed _ es fun e _ => e.same_listed
  refine ⟨N, s, _, hrun, ?_, hsame, ?_⟩
  · rw [hlines, Rose.attach_preorder]
  · rw [hlines]
    exact (hsame.preorder_perm 0).symm

/-- A directory with a directory and a link in it. -/
theorem listing_determines_tree_two_entries :
    ∃ N s t, (∀ n ≥ N, myftwN
        ⟨fun q => if q = [115] then some ⟨.dir, 1⟩
            else if q = [115, 47, 100] then some ⟨.dir, 2⟩
            else if q = [115, 47, 97] then some ⟨.lnk, 3⟩ else none,
          fun q => if q = [115] then some [[46], [100], [46, 46], [97]]
            else if q = [115, 47, 100] then some [[46], [46, 46]] else none⟩
        .bump denied n none [115] = some (1, s))
      ∧ Rose.attach (lines s.trace) = [(0, t)]
      ∧ Rose.Same (.node ((afterSlash [115]).getD [115], 1) (treeAll
          [.dir (.single 100 (by decide)) 2 [],
            .file (.single 97 (by decide)) ⟨.lnk, by decide⟩ 3])) t
      ∧ (lines s.trace).Perm (Rose.preorder 0 (.node ((afterSlash [115]).getD [115], 1) (treeAll
          [.dir (.single 100 (by decide)) 2 [],
            .file (.single 97 (by decide)) ⟨.lnk, by decide⟩ 3]))) :=
  listing_determines_tree _ .bump denied [115] (.single 115 (by decide)) 1 _
    (by simp [Shows, ShowsAll, Entry.stat, Entry.name, joinPath, notDots])

end DirWalk

end OperatingSys
