import OperatingSys.DirWalk.Coverage
import OperatingSys.DirWalk.Recursive

/-!
The counters of the two walks.

On a tree where nothing fails the recursive walk counts the start and what is below
it, the iterative one only what it finds below the start, but also where the start is
a symbolic link that leads to a directory, since `opendir` follows it
(`counts_popped`, `agree_iff_census`). `counters_agree_iff` says when that comes out
the same.
-/

namespace OperatingSys

namespace DirWalk

/-! ### The counters of the iterative walk -/

section Iterative

variable {F : Files}

/-- What is counted in a directory is the types of its entries and what is counted
below those that are directories. -/
lemma countP_add_sum {level : ℕ} {q : Path} {es : List Entry}
    (h : ∀ e ∈ es, Shows F (joinPath q e.name) e) (k : Fmt) :
    es.countP (fun e => decide (e.stat.fmt = k))
        + ((pendingAll F level q es).map fun c => censusAll k c.entries).sum
      = censusAll k es := by
  induction es with
  | nil => rfl
  | cons e es ih =>
      have hst := (h e List.mem_cons_self).lstat_eq
      have hrest := ih fun e' he' => h e' (List.mem_cons_of_mem _ he')
      have hpending : ((e.pending F level q).reverse.map fun c => censusAll k c.entries).sum
          = censusAll k e.content := by
        cases e with
        | file name fmt ino => rfl
        | dir name ino es' =>
            rw [Entry.name] at hst
            simp [Entry.pending, hst, Entry.content]
      rw [pendingAll] at hrest
      rw [pendingAll, List.flatMap_cons, List.reverse_append, List.map_append, List.sum_append,
        hpending, List.countP_cons, censusAll, e.census_eq, ← hrest]
      simp only [decide_eq_true_eq]
      omega

/-- Where nothing fails the walk counts what is below a directory that waits. -/
lemma counts_popped {p : Pending} (h : Opens F p.path p.entries) (k : Fmt) :
    ((p.popped F).flatMap fun c => turnEvents F c.item).countP (Event.counts k)
      = censusAll k p.entries := by
  have hfound : (found F p).countP (fun x => (report F x.1).counts k) = censusAll k p.entries := by
    induction p using Pending.induct (F := F) with
    | h p ih =>
        obtain ⟨⟨names, ho, -⟩, hall⟩ := id h
        have hshows := showsAll_iff.mp hall
        have hfinds : (p.finds F).countP (fun x => (report F x.1).counts k)
            = p.entries.countP fun e => decide (e.stat.fmt = k) := by
          rw [Pending.finds, if_pos (by rw [ho]; rfl), List.countP_map]
          refine List.countP_congr fun e he => ?_
          simp only [Function.comp_apply, report_counts (h.lists.serves he), (hshows e he).lstat_eq,
            Option.isSome_some, true_and]
        have hchild : ∀ c ∈ p.children F, (found F c).countP (fun x => (report F x.1).counts k)
            = censusAll k c.entries := fun c hc => by
          obtain ⟨-, -, -, name, hpath, he⟩ := Pending.mem_children.mp hc
          exact ih c hc (hpath ▸ (h.shows he).opens)
        rw [found_eq, List.countP_append, hfinds, List.countP_flatMap,
          List.map_congr_left (g := fun c => censusAll k c.entries) hchild, Pending.children,
          if_pos (by rw [ho]; rfl)]
        exact countP_add_sum hshows k
  calc ((p.popped F).flatMap fun c => turnEvents F c.item).countP (Event.counts k)
      = ((found F p).map fun x => (x.1, report F x.1)).countP fun c => c.2.counts k := by
          rw [countP_calls, calls_popped h.lists]
    _ = (found F p).countP fun x => (report F x.1).counts k := List.countP_map
    _ = censusAll k p.entries := hfound

/-- The counters of the iterative walk from a path that opens. -/
lemma myftwN_counts (A : Malloc) (E : Errors) {start : Path} {st : Stat} {es : List Entry}
    (hst : F.lstat start = some st) (h : Opens F start es) :
    ∃ N s, (∀ n ≥ N, myftwN F A E n none start = some (1, s))
      ∧ ∀ k, s.counts.get k = censusAll k es := by
  obtain ⟨N, s, hrun, hs⟩ := myftwN_spec A (E := E) hst h.lists
    (stays_popped (p := ⟨start, 0, st.ino, es⟩) h)
  refine ⟨N, s, hrun, fun k => ?_⟩
  calc s.counts.get k = (startEvents start).countP (Event.counts k)
        + ((Pending.popped F ⟨start, 0, st.ino, es⟩).flatMap fun p =>
            turnEvents F p.item).countP (Event.counts k) := by rw [hs.counts, List.countP_append]
    _ = 0 + censusAll k es :=
        congrArg (0 + ·) (counts_popped (p := ⟨start, 0, st.ino, es⟩) h k)
    _ = censusAll k es := Nat.zero_add _

/-- From a path that does not open it counts nothing. -/
lemma myftwN_counts_closed (A : Malloc) (E : Errors) {start : Path} {st : Stat}
    (hst : F.lstat start = some st) (ho : F.opendir start = none) :
    ∃ N s, (∀ n ≥ N, myftwN F A E n none start = some (1, s)) ∧ ∀ k, s.counts.get k = 0 := by
  have hlists : Lists F start [] := by
    refine ⟨fun names hnames => ?_, trivial⟩
    rw [ho] at hnames
    cases hnames
  have hstay : ∀ c ∈ Pending.popped F ⟨start, 0, st.ino, []⟩, c.Stays F E := by
    refine (stays_popped_iff (p := ⟨start, 0, st.ino, []⟩) hlists).mpr fun q e hq => ?_
    have hnone : found F ⟨start, 0, st.ino, []⟩ = [] := by simp [found, Pending.popped, ho,
      Pending.finds]
    have hmem := mem_found_iff (p := ⟨start, 0, st.ino, []⟩).mpr hq
    rw [hnone] at hmem
    cases hmem
  obtain ⟨N, s, hrun, hs⟩ := myftwN_spec A hst hlists hstay
  refine ⟨N, s, hrun, fun k => ?_⟩
  rw [hs.counts, Pending.popped, ho]
  simp [turnEvents, turnNames, Pending.item, ho, startEvents, Event.counts]

end Iterative

/-! ### The two walks -/

variable {ω : Type*}

/-- What the two walks are to find at the start, where nothing fails: an entry, and
below it the entries that opening it lists, if it opens. A directory opens, and so
does a symbolic link that leads to one. -/
inductive Presents (K : Kernel ω) (w : ω) (start : Path) : Entry → Option (List Entry) → Prop
  | dir {name : Name} {ino : ℕ} {es : List Entry}
      (hshows : Shows (K.files w) start (.dir name ino es))
      (hwalks : Walks K w start (.dir name ino es)) :
      Presents K w start (.dir name ino es) (some es)
  | file {name : Name} {fmt : {f : Fmt // f ≠ .dir}} {ino : ℕ}
      (hst : K.lstat w start = some ⟨fmt, ino⟩) (ho : K.opendir w start = none) :
      Presents K w start (.file name fmt ino) none
  | link {name : Name} {fmt : {f : Fmt // f ≠ .dir}} {ino : ℕ} {es : List Entry}
      (hlnk : fmt.1 = .lnk) (hst : K.lstat w start = some ⟨fmt, ino⟩)
      (hopens : Opens (K.files w) start es) :
      Presents K w start (.file name fmt ino) (some es)

/-- **The two walks agree**: both end, and with the same counters. -/
def Agree (K : Kernel ω) (A : Malloc) (E : Errors) (w : ω) (start : Path) : Prop :=
  ∃ N, ∀ n ≥ N, ∃ ret s ret' v, myftwN (K.files w) A E n none start = some (ret, s)
    ∧ dopath K counter n ⟨w, .zero, []⟩ start 0 = some (ret', v) ∧ s.counts = v.data

/-- What the iterative walk counts at a start. -/
lemma Presents.myftwN {K : Kernel ω} {w : ω} {start : Path} {e : Entry}
    {below : Option (List Entry)} (h : Presents K w start e below) (A : Malloc)
    (E : Errors) : ∃ N s, (∀ n ≥ N, myftwN (K.files w) A E n none start = some (1, s))
      ∧ ∀ k, s.counts.get k = censusAll k (below.getD []) := by
  cases h with
  | dir hshows hwalks => exact myftwN_counts A E hshows.lstat_eq hshows.opens
  | file hst ho => exact myftwN_counts_closed (F := K.files w) A E hst ho
  | link hlnk hst hopens => exact myftwN_counts (F := K.files w) A E hst hopens

/-- What the recursive walk counts at a start. -/
lemma Presents.dopath {K : Kernel ω} {w : ω} {start : Path} {e : Entry}
    {below : Option (List Entry)} (h : Presents K w start e below) :
    ∃ N, ∀ n ≥ N, ∃ v, DirWalk.dopath K counter n ⟨w, .zero, []⟩ start 0 = some (0, v)
      ∧ ∀ k, v.data.get k = e.census k := by
  have hwalks : Walks K w start e := by
    cases h with
    | dir hshows hwalks => exact hwalks
    | file hst ho => rw [Walks]; exact hst
    | link hlnk hst hopens => rw [Walks]; exact hst
  obtain ⟨N, hN⟩ := dopath_spec e 0 hwalks
  refine ⟨N, fun n hn => ?_⟩
  obtain ⟨v, hrun, hdata, -⟩ := hN n hn ⟨w, .zero, []⟩ rfl
  refine ⟨v, hrun, fun k => ?_⟩
  rw [hdata]
  cases k <;> exact Nat.zero_add _

/-- The walks agree where there is as much of each type below the start as in it. -/
lemma agree_iff_census {K : Kernel ω} {w : ω} {start : Path} {e : Entry}
    {below : Option (List Entry)} (h : Presents K w start e below) (A : Malloc)
    (E : Errors) : Agree K A E w start ↔ ∀ k, censusAll k (below.getD []) = e.census k := by
  obtain ⟨N₁, s, hrun, hs⟩ := h.myftwN A E
  obtain ⟨N₂, hN₂⟩ := h.dopath
  constructor
  · rintro ⟨N, hN⟩ k
    obtain ⟨ret, s', ret', v', hrun', hrec', heq⟩ := hN (max N (max N₁ N₂)) (le_max_left _ _)
    obtain ⟨v, hrec, hv⟩ := hN₂ (max N (max N₁ N₂)) (by omega)
    rw [hrun _ (by omega), Option.some.injEq, Prod.mk.injEq] at hrun'
    rw [hrec, Option.some.injEq, Prod.mk.injEq] at hrec'
    rw [← hs, ← hv, hrun'.2, hrec'.2, heq]
  · intro hk
    refine ⟨max N₁ N₂, fun n hn => ?_⟩
    obtain ⟨v, hrec, hv⟩ := hN₂ n (by omega)
    exact ⟨_, s, _, v, hrun n (by omega), hrec, Counts.ext_get fun k => by rw [hs, hv, hk]⟩

/-! ### When there is as much below as in the start -/

lemma Entry.census_self_pos (e : Entry) : 0 < e.census e.stat.fmt := by
  rw [e.census_eq, if_pos rfl]
  omega

lemma census_le_censusAll {e : Entry} {es : List Entry} (he : e ∈ es) (k : Fmt) :
    e.census k ≤ censusAll k es := by
  induction es with
  | nil => cases he
  | cons e' es ih =>
      rw [censusAll]
      rcases List.mem_cons.mp he with rfl | he
      · exact Nat.le_add_right _ _
      · exact (ih he).trans (Nat.le_add_left _ _)

/-- One link and nothing else is counted only where there is one link. -/
lemma censusAll_eq_link {es : List Entry} :
    (∀ k, censusAll k es = if .lnk = k then 1 else 0)
      ↔ ∃ name fmt ino, es = [.file name fmt ino] ∧ fmt.1 = .lnk := by
  constructor
  · intro h
    have hlnk := h .lnk
    rw [if_pos rfl] at hlnk
    cases es with
    | nil => simp [censusAll] at hlnk
    | cons e es =>
        have hkind : ∀ e' ∈ e :: es, e'.stat.fmt = .lnk := by
          -- an entry of another kind would be counted
          intro e' he'
          by_contra hne
          have hall := h e'.stat.fmt
          rw [if_neg (Ne.symm hne)] at hall
          have hpos := (e'.census_self_pos).trans_le (census_le_censusAll he' _)
          omega
        have hself := e.census_self_pos
        rw [hkind e List.mem_cons_self] at hself
        cases es with
        | nil =>
            cases e with
            | file name fmt ino =>
                exact ⟨name, fmt, ino, rfl, hkind _ List.mem_cons_self⟩
            | dir name ino es' => cases hkind _ List.mem_cons_self
        | cons e' es =>
            -- two entries would be two links
            have hself' := e'.census_self_pos
            rw [hkind e' (List.mem_cons_of_mem _ List.mem_cons_self)] at hself'
            rw [censusAll, censusAll] at hlnk
            omega
  · rintro ⟨name, fmt, ino, rfl, hlnk⟩ k
    rw [censusAll, censusAll, Entry.census, hlnk, Nat.add_zero]

/-- **When the two walks agree.** Where nothing fails they do exactly if the start is
a symbolic link to a directory in which there is one symbolic link and nothing else:
elsewhere the start itself is counted by the recursive walk only. -/
theorem counters_agree_iff (K : Kernel ω) (A : Malloc) (E : Errors) (w : ω) (start : Path)
    (e : Entry) (below : Option (List Entry)) (h : Presents K w start e below) :
    Agree K A E w start ↔ e.stat.fmt = .lnk
      ∧ ∃ name fmt ino, below = some [.file name fmt ino] ∧ fmt.1 = .lnk := by
  rw [agree_iff_census h A E]
  cases h with
  | @dir name ino es hshows hwalks =>
      refine iff_of_false (fun hk => ?_) fun hlnk => by cases hlnk.1
      have hdir := hk .dir
      rw [Entry.census, if_pos rfl, Option.getD_some] at hdir
      omega
  | @file name fmt ino hst ho =>
      refine iff_of_false (fun hk => ?_) fun hlnk => by simp at hlnk
      have hfmt := hk fmt
      rw [Entry.census, if_pos rfl, Option.getD_none, censusAll] at hfmt
      omega
  | @link name fmt ino es hlnk hst hopens =>
      have hcensus : ∀ k, (Entry.file name fmt ino).census k = if .lnk = k then 1 else 0 :=
        fun k => by rw [Entry.census, hlnk]
      simp only [hcensus, Option.getD_some, censusAll_eq_link, Option.some.injEq, Entry.stat, hlnk,
        true_and]

/-- A start `s` that is a link to a directory with a link `a` in it. -/
def linkToLink : Kernel Unit where
  lstat _ q :=
    if q = [115] then some ⟨.lnk, 1⟩ else if q = [115, 47, 97] then some ⟨.lnk, 2⟩ else none
  opendir _ q := if q = [115] then some [[46], [97], [46, 46]] else none
  chdir _ _ := none

/-- The entry in the directory that the link leads to. -/
def innerLink : Entry := .file (.single 97 letter_a) ⟨.lnk, lnk_ne_dir⟩ 2

/-- The criterion for the link: the walks agree. -/
theorem counters_agree_iff_link_to_link : Agree linkToLink .bump denied () [115]
    ↔ (Entry.file (.single 115 (by decide)) ⟨.lnk, by decide⟩ 1).stat.fmt = .lnk
      ∧ ∃ name fmt ino, some [innerLink] = some [Entry.file name fmt ino] ∧ fmt.1 = .lnk :=
  counters_agree_iff linkToLink .bump denied () [115] _ _ (.link rfl rfl
    (by simp [Opens, ShowsAll, Shows, Kernel.files, linkToLink, innerLink, Entry.name, Entry.stat,
      joinPath, notDots]))

/-- A start `s` that is an empty directory, the working directory being outside it or,
for `true`, in it. -/
def emptyDirectory : Kernel Bool where
  lstat w q := if w = false ∧ q = [115] then some ⟨.dir, 1⟩ else none
  opendir w q := if w = false ∧ q = [115] then some [[46], [46, 46]] else none
  chdir w q :=
    if w = false ∧ q = [115] then some true
    else if w = true ∧ q = [46, 46] then some false else none

lemma emptyDirectory_presents : Presents emptyDirectory false [115]
    (.dir (.single 115 (by decide)) 1 []) (some []) := by
  refine .dir ?_ ?_
  · simp [Shows, ShowsAll, Kernel.files, emptyDirectory, Entry.stat, notDots]
  · simp [Walks, WalksAll, emptyDirectory, Entry.stat, notDots]

/-- From an empty directory the recursive walk counts one directory and the iterative
one none. -/
theorem start_not_counted : ¬ Agree emptyDirectory .bump denied false [115] := by
  intro h
  have hdir := (agree_iff_census emptyDirectory_presents .bump denied).mp h .dir
  rw [Option.getD_some, Entry.census, if_pos rfl, censusAll] at hdir
  omega

end DirWalk

end OperatingSys
