import OperatingSys.DirWalk.Iterative

/-!
The recursive walk of `temp/main.c`.

The walk moves through the tree with `chdir` and names entries as they are read, so
what the kernel shows depends on the working directory (`Kernel`). The handler is a
parameter that keeps a state of its own; `counter` is the one the program uses. What
is recorded are the names that are `lstat`-ed, with the working directory, the
indentation and the calls of the handler.

`none` is a walk that goes deeper than it is given turns for. Where nothing fails
there are turns enough, the walk returns `0` and the counters count the tree
(`dopath_spec`).
-/

namespace OperatingSys

namespace DirWalk

/-- The answers of the kernel in every working directory. -/
structure Kernel (ω : Type*) where
  lstat : ω → Path → Option Stat
  opendir : ω → Path → Option (List Path)
  chdir : ω → Path → Option ω

variable {ω σ : Type*}

/-- What a process sees that stays in a directory. -/
def Kernel.files (K : Kernel ω) (w : ω) : Files := ⟨K.lstat w, K.opendir w⟩

/-- `Handler`: the value returned and the state it leaves. -/
abbrev Handler (σ : Type*) := σ → Path → Ftw → ℤ × σ

/-- What a step of the recursive walk does beside its own state. -/
inductive Act (ω : Type*) where
  | lstat (cwd : ω) (name : Path)
  | indent (depth : ℕ)
  | call (name : Path) (type : Ftw)

/-- The state of the program: its working directory and what the handler keeps. -/
structure Proc (ω σ : Type*) where
  cwd : ω
  data : σ
  trace : List (Act ω)

def Proc.note (s : Proc ω σ) (a : Act ω) : Proc ω σ := { s with trace := s.trace ++ [a] }

/-- A call of the handler. -/
def Proc.call (s : Proc ω σ) (func : Handler σ) (name : Path) (t : Ftw) : ℤ × Proc ω σ :=
  ((func s.data name t).1, { s with data := (func s.data name t).2 }.note (.call name t))

/-- `chdir`, whose result is not looked at. -/
def Proc.chdir (s : Proc ω σ) (K : Kernel ω) (path : Path) : Proc ω σ :=
  { s with cwd := (K.chdir s.cwd path).getD s.cwd }

@[simp] lemma Proc.note_cwd (s : Proc ω σ) (a : Act ω) : (s.note a).cwd = s.cwd := rfl

@[simp] lemma Proc.note_data (s : Proc ω σ) (a : Act ω) : (s.note a).data = s.data := rfl

@[simp] lemma Proc.call_cwd (s : Proc ω σ) (func : Handler σ) (name : Path) (t : Ftw) :
    (s.call func name t).2.cwd = s.cwd := rfl

@[simp] lemma Proc.call_data (s : Proc ω σ) (func : Handler σ) (name : Path) (t : Ftw) :
    (s.call func name t).2.data = (func s.data name t).2 := rfl

@[simp] lemma Proc.call_fst (s : Proc ω σ) (func : Handler σ) (name : Path) (t : Ftw) :
    (s.call func name t).1 = (func s.data name t).1 := rfl

@[simp] lemma Proc.chdir_data (s : Proc ω σ) (K : Kernel ω) (path : Path) :
    (s.chdir K path).data = s.data := rfl

@[simp] lemma Proc.chdir_cwd (s : Proc ω σ) (K : Kernel ω) (path : Path) :
    (s.chdir K path).cwd = (K.chdir s.cwd path).getD s.cwd := rfl

/-- The loop of `dopath` over the names `readdir` gives. -/
def readNames (visit : Proc ω σ → Path → Option (ℤ × Proc ω σ)) :
    List Path → ℤ → Proc ω σ → Option (ℤ × Proc ω σ)
  | [], ret, s => some (ret, s)
  | d :: ds, ret, s =>
      if ret ≠ 0 then some (ret, s)
      else if notDots d then (visit s d).bind fun r => readNames visit ds r.1 r.2
      else readNames visit ds ret s

/-- **`dopath`**. -/
def dopath (K : Kernel ω) (func : Handler σ) :
    ℕ → Proc ω σ → Path → ℕ → Option (ℤ × Proc ω σ)
  | 0, _, _, _ => none
  | n + 1, s, filename, depth =>
      let s := s.note (.lstat s.cwd filename)
      match K.lstat s.cwd filename with
      | none => some (s.call func filename .NS)
      | some st =>
          let s := s.note (.indent depth)
          if st.fmt ≠ .dir then some (s.call func filename (.F st))
          else
            let (ret, s) := s.call func filename (.D st)
            if ret ≠ 0 then some (ret, s)
            else
              match K.opendir s.cwd filename with
              | none => some (s.call func filename .DNR)
              | some names =>
                  (readNames (fun s d => dopath K func n s d (depth + 1)) names 0
                    (s.chdir K filename)).map fun (ret, s) => (ret, s.chdir K [46, 46])

/-- The state in which the names of a directory are read. -/
def Proc.enter (s : Proc ω σ) (K : Kernel ω) (func : Handler σ) (filename : Path) (st : Stat)
    (depth : ℕ) : Proc ω σ :=
  (((s.note (.lstat s.cwd filename)).note (.indent depth)).call func filename (.D st)).2.chdir K
    filename

/-- A file is given to the handler. -/
lemma dopath_file {K : Kernel ω} {s : Proc ω σ} {filename : Path} {st : Stat}
    (h : K.lstat s.cwd filename = some st) (hfile : st.fmt ≠ .dir) (func : Handler σ)
    (n depth : ℕ) :
    dopath K func (n + 1) s filename depth
      = some (((s.note (.lstat s.cwd filename)).note (.indent depth)).call func filename
          (.F st)) := by
  rw [dopath]
  simp only [Proc.note_cwd, h, if_pos hfile]

/-- A directory that the handler lets pass and that can be opened is entered. -/
lemma dopath_dir {K : Kernel ω} {s : Proc ω σ} {filename : Path} {st : Stat} {names : List Path}
    (h : K.lstat s.cwd filename = some st) (hdir : st.fmt = .dir) {func : Handler σ}
    (hgo : (func s.data filename (.D st)).1 = 0) (ho : K.opendir s.cwd filename = some names)
    (n depth : ℕ) :
    dopath K func (n + 1) s filename depth
      = (readNames (fun s d => dopath K func n s d (depth + 1)) names 0
          (s.enter K func filename st depth)).map fun r => (r.1, r.2.chdir K [46, 46]) := by
  rw [dopath]
  simp only [Proc.note_cwd, Proc.note_data, Proc.call_fst, Proc.call_cwd, h, hdir, ne_eq,
    not_true_eq_false, if_false, hgo, ho]
  rfl

/-- `counter`. -/
def counter : Handler Counts := fun c _ t =>
  (match t with
    | .F st => if st.fmt = .dir then -1 else 0
    | .D _ => 0
    | .DNR => -1
    | .NS => -1, c.tally t)

/-! ### Trees seen on the way -/

variable (K : Kernel ω)

/-- What `chdir` to a name leads to leads back by `..`. -/
def Returns (w : ω) (q : Path) : Prop :=
  ∀ w', K.chdir w q = some w' → K.chdir w' [46, 46] = some w

mutual

/-- From the directory `w` the name `q` is seen to be an entry; the directories can
be changed to, and those below the entry be left again. -/
def Walks (w : ω) (q : Path) : Entry → Prop
  | .file name fmt ino => K.lstat w q = some (Entry.file name fmt ino).stat
  | .dir name ino es =>
      K.lstat w q = some (Entry.dir name ino es).stat
        ∧ (∃ names, K.opendir w q = some names ∧ names.filter notDots = es.map Entry.name)
        ∧ ∃ w', K.chdir w q = some w' ∧ WalksAll w' es

/-- From a directory its entries are seen under their names. -/
def WalksAll (w : ω) : List Entry → Prop
  | [] => True
  | e :: es => Walks w e.name e ∧ (e.stat.fmt = .dir → Returns K w e.name) ∧ WalksAll w es

end

mutual

/-- The number of files of type `k` in an entry, itself included. -/
def Entry.census (k : Fmt) : Entry → ℕ
  | .file _ fmt _ => if fmt = k then 1 else 0
  | .dir _ _ es => (if .dir = k then 1 else 0) + censusAll k es

def censusAll (k : Fmt) : List Entry → ℕ
  | [] => 0
  | e :: es => e.census k + censusAll k es

end

/-- The entries of a directory; a file has none. -/
def Entry.content : Entry → List Entry
  | .file _ _ _ => []
  | .dir _ _ es => es

lemma Entry.census_eq (k : Fmt) (e : Entry) :
    e.census k = (if e.stat.fmt = k then 1 else 0) + censusAll k e.content := by
  cases e with
  | file name fmt ino => rw [census, stat, content, censusAll, Nat.add_zero]
  | dir name ino es => rw [census, stat, content]

variable {K}

lemma Walks.lstat_eq {w : ω} {q : Path} {e : Entry} (h : Walks K w q e) :
    K.lstat w q = some e.stat := by
  cases e with
  | file name fmt ino => rwa [Walks] at h
  | dir name ino es => rw [Walks] at h; exact h.1

/-! ### The walk with `counter` -/

/-- What the recursive walk is to do with an entry: return `0` and add its census to
the counters, and come back if it can. -/
def Counted (K : Kernel ω) (n : ℕ) (w : ω) (q : Path) (depth : ℕ) (e : Entry) : Prop :=
  ∀ s : Proc ω Counts, s.cwd = w → ∃ s', dopath K counter n s q depth = some (0, s')
    ∧ (∀ k, s'.data.get k = s.data.get k + e.census k)
    ∧ ((e.stat.fmt = .dir → Returns K w q) → s'.cwd = w)

/-- A file is counted. -/
lemma counted_file {w : ω} {q : Path} {st : Stat} (h : K.lstat w q = some st)
    (hfile : st.fmt ≠ .dir) (n depth : ℕ) (s : Proc ω Counts) (hs : s.cwd = w) :
    ∃ s', dopath K counter (n + 1) s q depth = some (0, s') ∧ s'.cwd = w
      ∧ ∀ k, s'.data.get k = s.data.get k + if st.fmt = k then 1 else 0 := by
  subst hs
  have hret : (counter s.data q (.F st)).1 = 0 := if_neg hfile
  have hcall : ∀ r : ℤ × Proc ω Counts, r.1 = 0 → r = (0, r.2) := fun r hr => Prod.ext hr rfl
  rw [dopath_file h hfile]
  refine ⟨_, congrArg some (hcall _ hret), rfl, fun k => ?_⟩
  · show (s.data.tally (.F st)).get k = _
    rw [Counts.get_tally, Ftw.counts]
    by_cases hk : st.fmt = k
    · rw [if_pos hk, decide_eq_true ⟨hk, hk ▸ hfile⟩]
      rfl
    · rw [if_neg hk, decide_eq_false fun hand => hk hand.1]
      rfl

/-- The entries of a directory are counted. -/
lemma readNames_spec {w : ω} {n depth : ℕ} {es : List Entry}
    (h : ∀ e ∈ es, Counted K n w e.name depth e ∧ (e.stat.fmt = .dir → Returns K w e.name))
    {names : List Path} (hnames : names.filter notDots = es.map Entry.name) (s : Proc ω Counts)
    (hs : s.cwd = w) :
    ∃ s', readNames (fun s d => dopath K counter n s d depth) names 0 s = some (0, s')
      ∧ s'.cwd = w ∧ ∀ k, s'.data.get k = s.data.get k + censusAll k es := by
  induction names generalizing es s with
  | nil =>
      have hnil : es = [] := List.map_eq_nil_iff.mp hnames.symm
      subst hnil
      exact ⟨s, rfl, hs, fun k => rfl⟩
  | cons d names ih =>
      rw [readNames, if_neg (by simp)]
      by_cases hd : notDots d = true
      · rw [List.filter_cons_of_pos hd] at hnames
        cases es with
        | nil => cases hnames
        | cons e es =>
            rw [List.map_cons, List.cons.injEq] at hnames
            obtain ⟨rfl, hrest⟩ := hnames
            obtain ⟨hcount, hret⟩ := h e List.mem_cons_self
            -- the entry is counted, and the process is back where it was
            obtain ⟨s₁, hrun, hdata, hcwd⟩ := hcount s hs
            obtain ⟨s', hrun', hcwd', hdata'⟩ :=
              ih (fun e' he' => h e' (List.mem_cons_of_mem _ he')) hrest s₁ (hcwd hret)
            refine ⟨s', by rw [if_pos hd, hrun, Option.bind_some, hrun'], hcwd', fun k => ?_⟩
            rw [hdata', hdata, censusAll, Nat.add_assoc]
      · rw [List.filter_cons_of_neg hd] at hnames
        rw [if_neg hd]
        exact ih h hnames s hs

/-- One number of turns for all entries of a directory. -/
lemma exists_turns {P : ℕ → Entry → Prop} {es : List Entry}
    (h : ∀ e ∈ es, ∃ N, ∀ n ≥ N, P n e) : ∃ N, ∀ n ≥ N, ∀ e ∈ es, P n e := by
  induction es with
  | nil => exact ⟨0, fun _ _ _ he => absurd he List.not_mem_nil⟩
  | cons e es ih =>
      obtain ⟨N₁, h₁⟩ := h e List.mem_cons_self
      obtain ⟨N₂, h₂⟩ := ih fun e' he' => h e' (List.mem_cons_of_mem _ he')
      refine ⟨max N₁ N₂, fun n hn e' he' => ?_⟩
      rcases List.mem_cons.mp he' with rfl | he'
      · exact h₁ n (le_of_max_le_left hn)
      · exact h₂ n (le_of_max_le_right hn) e' he'

lemma walksAll_iff {w : ω} {es : List Entry} : WalksAll K w es ↔
    ∀ e ∈ es, Walks K w e.name e ∧ (e.stat.fmt = .dir → Returns K w e.name) := by
  induction es with
  | nil => simp [WalksAll]
  | cons e es ih => simp [WalksAll, ih, and_assoc]

/-- **The recursive walk counts the tree** it is given, with turns enough. -/
theorem dopath_spec (e : Entry) : ∀ {w : ω} {q : Path} (depth : ℕ), Walks K w q e →
    ∃ N, ∀ n ≥ N, Counted K n w q depth e := by
  induction e using Entry.induct with
  | file name fmt ino =>
      intro w q depth h
      refine ⟨1, fun n hn s hs => ?_⟩
      obtain ⟨m, rfl⟩ : ∃ m, n = m + 1 := Nat.exists_eq_succ_of_ne_zero (by omega)
      obtain ⟨s', hrun, hcwd, hdata⟩ := counted_file h.lstat_eq fmt.2 m depth s hs
      exact ⟨s', hrun, hdata, fun _ => hcwd⟩
  | dir name ino es ih =>
      intro w q depth h
      rw [Walks] at h
      obtain ⟨hst, ⟨names, ho, hnames⟩, w', hcd, hall⟩ := h
      rw [walksAll_iff] at hall
      obtain ⟨N, hN⟩ := exists_turns fun e he => ih e he (depth + 1) (hall e he).1
      refine ⟨N + 1, fun n hn s hs => ?_⟩
      obtain ⟨m, rfl⟩ : ∃ m, n = m + 1 := Nat.exists_eq_succ_of_ne_zero (by omega)
      subst hs
      have hentry := fun e he => And.intro (hN m (by omega) e he) (hall e he).2
      -- the entries are walked from inside the directory
      obtain ⟨s₁, hrun, hcwd, hdata⟩ := readNames_spec hentry hnames
        (s.enter K counter q ⟨.dir, ino⟩ depth) (by simp [Proc.enter, hcd])
      refine ⟨s₁.chdir K [46, 46], ?_, fun k => ?_, fun hback => ?_⟩
      · rw [dopath_dir hst rfl rfl ho]
        simp only [Entry.stat, hrun, Option.map_some]
      · -- the directory itself is counted as well
        have htally := s.data.get_tally (.D ⟨.dir, ino⟩) k
        rw [Proc.chdir_data, hdata, Entry.census]
        simp only [Proc.enter, Proc.chdir_data, Proc.call_data, Proc.note_data, counter, htally,
          Nat.add_assoc]
        congr 2
        cases k <;> rfl
      · -- `..` leads back
        rw [Proc.chdir_cwd, hcwd, hback rfl w' hcd, Option.getD_some]

end DirWalk

end OperatingSys
