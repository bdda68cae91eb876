import Mathlib.Tactic

/-!
Directory trees and the system calls that show them.

A tree is made of its entries, a directory with the entries in it in the order in
which `readdir` gives them. What the kernel answers is a parameter: `Files` is what
it shows to a process that does not move, and `Serves` says that this is a given
tree, where any `lstat` and any `opendir` may fail. Only the paths of the tree are
spoken of, so a symbolic link, a leaf here, may well lead somewhere. `Shows` and `Opens` are
the same where nothing fails.

`Reached` are the entries below a directory all of whose ancestors could be
`lstat`-ed and opened.
-/

namespace OperatingSys

namespace DirWalk

/-- Path names and file names, without their terminator. -/
abbrev Path := List UInt8

/-- The types of `S_IFMT`. -/
inductive Fmt where
  | reg | dir | blk | chr | fifo | lnk | sock
  deriving DecidableEq

/-- The fields of `struct stat` the programs read. -/
structure Stat where
  fmt : Fmt
  ino : ℕ

/-- The type a file is reported with, and the `struct stat` where there is one. -/
inductive Ftw where
  | F (st : Stat)
  | D (st : Stat)
  | DNR
  | NS

/-- A file name, as a directory may have it beside `.` and `..`. -/
structure Name where
  bytes : Path
  noSlash : (47 : UInt8) ∉ bytes
  notDot : bytes ≠ [46]
  notDotDot : bytes ≠ [46, 46]

/-- A name of one letter. -/
def Name.single (c : UInt8) (h : c ≠ 47 ∧ c ≠ 46) : Name where
  bytes := [c]
  noSlash hmem := h.1 (List.mem_singleton.mp hmem).symm
  notDot heq := h.2 (List.cons.inj heq).1
  notDotDot heq := by cases heq

@[simp] lemma Name.single_bytes (c : UInt8) (h : c ≠ 47 ∧ c ≠ 46) :
    (Name.single c h).bytes = [c] := rfl

/-- An entry of a directory: a file of some other type, or a directory with the
entries in it. -/
inductive Entry where
  | file (name : Name) (fmt : {f : Fmt // f ≠ .dir}) (ino : ℕ)
  | dir (name : Name) (ino : ℕ) (entries : List Entry)

namespace Entry

def name : Entry → Path
  | .file name _ _ => name.bytes
  | .dir name _ _ => name.bytes

/-- What `lstat` says of the entry. -/
def stat : Entry → Stat
  | .file _ fmt ino => ⟨fmt, ino⟩
  | .dir _ ino _ => ⟨.dir, ino⟩

lemma noSlash (e : Entry) : (47 : UInt8) ∉ e.name := by
  cases e with
  | file name fmt ino => exact name.noSlash
  | dir name ino es => exact name.noSlash

/-- The induction rule of entries, the entries of a directory at once. -/
@[elab_as_elim]
theorem induct {P : Entry → Prop} (file : ∀ name fmt ino, P (.file name fmt ino))
    (dir : ∀ name ino es, (∀ e ∈ es, P e) → P (.dir name ino es)) (e : Entry) : P e :=
  @Entry.rec P (fun es => ∀ e ∈ es, P e) file dir (fun _ h => absurd h List.not_mem_nil)
    (fun _ _ he hes _ h => (List.mem_cons.mp h).elim (fun heq => heq ▸ he) (hes _)) e

end Entry

/-! ### What the kernel shows -/

/-- The answers to `lstat` and to `opendir` with its `readdir`s, `none` being a
failure. -/
structure Files where
  lstat : Path → Option Stat
  opendir : Path → Option (List Path)

/-- `path[len] = '/'` between the two names. -/
def joinPath (base file : Path) : Path := base ++ 47 :: file

/-- The names that are not skipped as `.` or `..`. -/
def notDots (d : Path) : Bool := decide (d ≠ [46] ∧ d ≠ [46, 46])

variable (F : Files)

mutual

/-- The answers at a path are those of an entry, or failures. -/
def Serves (q : Path) : Entry → Prop
  | .file name fmt ino => ∀ st, F.lstat q = some st → st = (Entry.file name fmt ino).stat
  | .dir name ino es =>
      (∀ st, F.lstat q = some st → st = (Entry.dir name ino es).stat)
        ∧ (∀ names, F.opendir q = some names → names.filter notDots = es.map Entry.name)
        ∧ ServesAll q es

/-- The answers at the paths below a path are those of the entries, or failures. -/
def ServesAll (q : Path) : List Entry → Prop
  | [] => True
  | e :: es => Serves (joinPath q e.name) e ∧ ServesAll q es

end

/-- A path lists the given entries, if it can be opened. -/
def Lists (q : Path) (es : List Entry) : Prop :=
  (∀ names, F.opendir q = some names → names.filter notDots = es.map Entry.name)
    ∧ ServesAll F q es

variable {F}

lemma servesAll_iff {q : Path} {es : List Entry} :
    ServesAll F q es ↔ ∀ e ∈ es, Serves F (joinPath q e.name) e := by
  induction es with
  | nil => simp [ServesAll]
  | cons e es ih => simp [ServesAll, ih]

lemma Serves.lstat_eq {q : Path} {e : Entry} (h : Serves F q e) {st : Stat}
    (hst : F.lstat q = some st) : st = e.stat := by
  cases e with
  | file name fmt ino => rw [Serves] at h; exact h st hst
  | dir name ino es => rw [Serves] at h; exact h.1 st hst

lemma Serves.lists {q : Path} {name : Name} {ino : ℕ} {es : List Entry}
    (h : Serves F q (.dir name ino es)) : Lists F q es := by
  rw [Serves] at h
  exact h.2

lemma Lists.serves {q : Path} {es : List Entry} (h : Lists F q es) {e : Entry} (he : e ∈ es) :
    Serves F (joinPath q e.name) e := servesAll_iff.mp h.2 e he

variable (F) in
mutual

/-- The answers at a path are those of an entry, without failures. -/
def Shows (q : Path) : Entry → Prop
  | .file name fmt ino => F.lstat q = some (Entry.file name fmt ino).stat
  | .dir name ino es =>
      F.lstat q = some (Entry.dir name ino es).stat
        ∧ (∃ names, F.opendir q = some names ∧ names.filter notDots = es.map Entry.name)
        ∧ ShowsAll q es

/-- The answers at the paths below a path are those of the entries, without
failures. -/
def ShowsAll (q : Path) : List Entry → Prop
  | [] => True
  | e :: es => Shows (joinPath q e.name) e ∧ ShowsAll q es

end

variable (F) in
/-- A path can be opened and lists the given entries, without failures below it. -/
def Opens (q : Path) (es : List Entry) : Prop :=
  (∃ names, F.opendir q = some names ∧ names.filter notDots = es.map Entry.name)
    ∧ ShowsAll F q es

lemma showsAll_iff {q : Path} {es : List Entry} :
    ShowsAll F q es ↔ ∀ e ∈ es, Shows F (joinPath q e.name) e := by
  induction es with
  | nil => simp [ShowsAll]
  | cons e es ih => simp [ShowsAll, ih]

lemma Shows.lstat_eq {q : Path} {e : Entry} (h : Shows F q e) : F.lstat q = some e.stat := by
  cases e with
  | file name fmt ino => rwa [Shows] at h
  | dir name ino es => rw [Shows] at h; exact h.1

lemma Shows.opens {q : Path} {name : Name} {ino : ℕ} {es : List Entry}
    (h : Shows F q (.dir name ino es)) : Opens F q es := by
  rw [Shows] at h
  exact h.2

lemma Opens.shows {q : Path} {es : List Entry} (h : Opens F q es) {e : Entry} (he : e ∈ es) :
    Shows F (joinPath q e.name) e := showsAll_iff.mp h.2 e he

/-- A path that lists its entries without failures lists them. -/
lemma Opens.lists {q : Path} {es : List Entry} (h : Opens F q es) : Lists F q es := by
  have hserves : ∀ e : Entry, ∀ q, Shows F q e → Serves F q e := by
    intro e
    induction e using Entry.induct with
    | file name fmt ino =>
        intro q h st hst
        rw [h.lstat_eq, Option.some.injEq] at hst
        exact hst.symm
    | dir name ino es ih =>
        intro q h
        obtain ⟨⟨names, ho, hnames⟩, hall⟩ := h.opens
        rw [Serves]
        refine ⟨fun st hst => ?_, fun names' ho' => ?_, servesAll_iff.mpr fun e he => ?_⟩
        · rw [h.lstat_eq, Option.some.injEq] at hst
          exact hst.symm
        · obtain rfl := Option.some.inj (ho.symm.trans ho')
          exact hnames
        · exact ih e he _ (showsAll_iff.mp hall e he)
  obtain ⟨⟨names, ho, hnames⟩, hall⟩ := h
  refine ⟨fun names' ho' => ?_, servesAll_iff.mpr fun e he => ?_⟩
  · obtain rfl := Option.some.inj (ho.symm.trans ho')
    exact hnames
  · exact hserves e _ (showsAll_iff.mp hall e he)

/-- A start `s` with a link that can be `lstat`-ed, a directory and in it a file that cannot. -/
def oneLink : Files where
  lstat q :=
    if q = [115] then some ⟨.dir, 1⟩ else if q = [115, 47, 97] then some ⟨.lnk, 2⟩
    else if q = [115, 47, 100] then some ⟨.dir, 3⟩ else none
  opendir q :=
    if q = [115] then some [[46], [97], [46, 46], [100]]
    else if q = [115, 47, 100] then some [[46], [46, 46], [98]] else none

lemma letter_a : (97 : UInt8) ≠ 47 ∧ (97 : UInt8) ≠ 46 := by decide

lemma letter_b : (98 : UInt8) ≠ 47 ∧ (98 : UInt8) ≠ 46 := by decide

lemma letter_d : (100 : UInt8) ≠ 47 ∧ (100 : UInt8) ≠ 46 := by decide

lemma reg_ne_dir : Fmt.reg ≠ .dir := by decide

lemma lnk_ne_dir : Fmt.lnk ≠ .dir := by decide

/-- What `oneLink` has in its start. -/
def oneLinkEntries : List Entry :=
  [.file (.single 97 letter_a) ⟨.lnk, lnk_ne_dir⟩ 2,
    .dir (.single 100 letter_d) 3 [.file (.single 98 letter_b) ⟨.reg, reg_ne_dir⟩ 4]]

lemma oneLink_serves :
    Serves oneLink [115] (.dir (.single 115 (by decide)) 1 oneLinkEntries) := by
  simp [Serves, ServesAll, Entry.stat, Entry.name, joinPath, notDots, oneLink, oneLinkEntries]

/-! ### Names and paths -/

mutual

/-- The entries of every directory have different names. -/
def Distinct : Entry → Prop
  | .file _ _ _ => True
  | .dir _ _ es => (es.map Entry.name).Nodup ∧ DistinctAll es

def DistinctAll : List Entry → Prop
  | [] => True
  | e :: es => Distinct e ∧ DistinctAll es

end

lemma distinctAll_iff {es : List Entry} : DistinctAll es ↔ ∀ e ∈ es, Distinct e := by
  induction es with
  | nil => simp [DistinctAll]
  | cons e es ih => simp [DistinctAll, ih]

/-- Before the first slash, two paths are the same if they are the same at all. -/
lemma eq_of_append_slash {n m s t : Path} (hn : (47 : UInt8) ∉ n) (hm : (47 : UInt8) ∉ m)
    (h : n ++ 47 :: s = m ++ 47 :: t) : n = m := by
  have hcut : ∀ {k : Path} (r : Path), (47 : UInt8) ∉ k →
      (k ++ 47 :: r).takeWhile (· ≠ 47) = k := fun {k} r hk => by
    rw [List.takeWhile_append_of_pos fun x hx => by
      simpa using fun he : x = 47 => hk (he ▸ hx)]
    simp
  rw [← hcut s hn, h, hcut t hm]

/-! ### Reached entries -/

variable (F) in
/-- The entries below a directory whose ancestors could all be `lstat`-ed and
opened. -/
inductive Reached (start : Path) (es : List Entry) : Path → Entry → Prop
  | child {e : Entry} (hopen : (F.opendir start).isSome) (he : e ∈ es) :
      Reached start es (joinPath start e.name) e
  | deeper {q : Path} {name : Name} {ino : ℕ} {es' : List Entry} {e : Entry}
      (h : Reached start es q (.dir name ino es')) (hstat : (F.lstat q).isSome)
      (hopen : (F.opendir q).isSome) (he : e ∈ es') :
      Reached start es (joinPath q e.name) e

/-- What is reached from a directory that is reached itself. -/
lemma Reached.trans {start q r : Path} {es es' : List Entry} {name : Name} {ino : ℕ} {e : Entry}
    (h : Reached F start es q (.dir name ino es')) (hstat : (F.lstat q).isSome)
    (h' : Reached F q es' r e) : Reached F start es r e := by
  induction h' with
  | child hopen he => exact h.deeper hstat hopen he
  | deeper _ hstat' hopen' he ih => exact ih.deeper hstat' hopen' he

/-- What is reached is served. -/
lemma Reached.serves {start q : Path} {es : List Entry} {e : Entry} (hl : Lists F start es)
    (h : Reached F start es q e) : Serves F q e := by
  induction h with
  | child hopen he => exact hl.serves he
  | deeper _ hstat hopen he ih => exact ih.lists.serves he

end DirWalk

end OperatingSys
