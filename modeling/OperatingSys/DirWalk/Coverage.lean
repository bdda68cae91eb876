import OperatingSys.DirWalk.Visit

/-!
Which entries the iterative walk visits.

`found` lists the entries the walk comes upon, in the order in which it does. They
are the reached entries (`mem_found_iff`), each of them once where siblings have
different names (`found_nodup`), and the calls of `myfunc` are one for each
(`calls_popped`). `walk_visits_iff` puts these together for whole walks: they visit what is
reached unless a report about one of these entries does not fit.
-/

namespace OperatingSys

namespace DirWalk

/-- The calls of `myfunc` among the events. -/
def calls (tr : List Event) : List (Path × Ftw) :=
  tr.filterMap fun
    | .myfunc q t => some (q, t)
    | _ => none

lemma calls_append (tr tr' : List Event) : calls (tr ++ tr') = calls tr ++ calls tr' :=
  List.filterMap_append

lemma countP_calls (k : Fmt) (tr : List Event) :
    tr.countP (Event.counts k) = (calls tr).countP fun c => c.2.counts k := by
  induction tr with
  | nil => rfl
  | cons e tr ih =>
      cases e with
      | myfunc q t =>
          rw [List.countP_cons, ih]
          simp only [calls, List.filterMap_cons, List.countP_cons, Event.counts]
          rfl
      | copy _ _ | lstat _ | opendir _ | line _ _ _ =>
          simpa [calls, List.countP_cons, Event.counts] using ih

variable (F : Files)

/-- How a path below the start is reported. -/
def report (q : Path) : Ftw :=
  match F.lstat q with
  | none => .NS
  | some st => if st.fmt ≠ .dir then .F st else .D st

/-- The entries a turn comes upon. -/
def Pending.finds (p : Pending) : List (Path × Entry) :=
  if (F.opendir p.path).isSome then p.entries.map fun e => (joinPath p.path e.name, e) else []

/-- The entries the walk comes upon from `p` on. -/
def found (p : Pending) : List (Path × Entry) := (p.popped F).flatMap (Pending.finds F)

variable {F}

lemma found_eq (p : Pending) : found F p = p.finds F ++ (p.children F).flatMap (found F) := by
  rw [found, Pending.popped_eq, List.flatMap_cons, List.flatMap_assoc]
  rfl

/-- The induction rule of directories that wait. -/
@[elab_as_elim]
lemma Pending.induct {P : Pending → Prop} (h : ∀ p, (∀ c ∈ p.children F, P c) → P p)
    (p : Pending) : P p := by
  induction hk : (p.popped F).length using Nat.strong_induction_on generalizing p with
  | _ k ih =>
      refine h p fun c hc => ih _ ?_ c rfl
      rw [← hk, popped_eq F p, List.length_cons, Nat.lt_succ_iff]
      exact (List.sublist_flatten_of_mem (List.mem_map_of_mem hc)).length_le

lemma Pending.mem_finds {p : Pending} {q : Path} {e : Entry} :
    (q, e) ∈ p.finds F
      ↔ (F.opendir p.path).isSome ∧ e ∈ p.entries ∧ q = joinPath p.path e.name := by
  rw [finds]
  split_ifs with ho
  · simp only [List.mem_map, Prod.mk.injEq, ho, true_and]
    constructor
    · rintro ⟨e', he', rfl, rfl⟩
      exact ⟨he', rfl⟩
    · rintro ⟨he, rfl⟩
      exact ⟨e, he, rfl, rfl⟩
  · simp [ho]

/-- Every directory popped lists its entries. -/
lemma Pending.lists_popped {p : Pending} (h : Lists F p.path p.entries) :
    ∀ c ∈ p.popped F, Lists F c.path c.entries := by
  induction p using Pending.induct (F := F) with
  | h p ih =>
      intro c hc
      rw [popped_eq, List.mem_cons, List.mem_flatMap] at hc
      rcases hc with rfl | ⟨d, hd, hc⟩
      · exact h
      · exact ih d hd (lists_children h hd) c hc

/-! ### What is found is what is reached -/

/-- A directory that was found and `lstat`-ed is popped. -/
lemma exists_popped_of_found {p : Pending} {q : Path} {name : Name} {ino : ℕ} {es : List Entry}
    (h : (q, .dir name ino es) ∈ found F p) (hs : (F.lstat q).isSome) :
    ∃ c ∈ p.popped F, c.path = q ∧ c.entries = es := by
  induction p using Pending.induct (F := F) with
  | h p ih =>
      rw [found_eq, List.mem_append, List.mem_flatMap] at h
      rw [Pending.popped_eq]
      rcases h with h | ⟨d, hd, h⟩
      · obtain ⟨ho, he, rfl⟩ := Pending.mem_finds.mp h
        have hchild : ⟨joinPath p.path name.bytes, p.level + 1, ino, es⟩ ∈ p.children F :=
          Pending.mem_children.mpr ⟨ho, hs, rfl, name, rfl, he⟩
        have hself : ∀ d : Pending, d ∈ d.popped F := fun d => by
          rw [Pending.popped]
          exact List.mem_cons_self
        exact ⟨_, List.mem_cons_of_mem _ (List.mem_flatMap.mpr ⟨_, hchild, hself _⟩), rfl, rfl⟩
      · obtain ⟨c, hc, hpath⟩ := ih d hd h
        exact ⟨c, List.mem_cons_of_mem _ (List.mem_flatMap.mpr ⟨d, hd, hc⟩), hpath⟩

/-- A directory popped was found, unless it is the first one. -/
lemma found_of_popped {p c : Pending} (h : c ∈ p.popped F) :
    c = p ∨ ∃ name, (c.path, .dir name c.inode c.entries) ∈ found F p := by
  induction p using Pending.induct (F := F) with
  | h p ih =>
      rw [Pending.popped_eq, List.mem_cons, List.mem_flatMap] at h
      rcases h with rfl | ⟨d, hd, h⟩
      · exact Or.inl rfl
      · refine Or.inr ?_
        rw [found_eq]
        rcases ih d hd h with rfl | ⟨name, hf⟩
        · obtain ⟨ho, -, -, name, hpath, he⟩ := Pending.mem_children.mp hd
          exact ⟨name, List.mem_append_left _ (Pending.mem_finds.mpr ⟨ho, he, hpath⟩)⟩
        · exact ⟨name, List.mem_append_right _ (List.mem_flatMap.mpr ⟨d, hd, hf⟩)⟩

/-- **The entries found are the entries reached.** -/
lemma mem_found_iff {p : Pending} {q : Path} {e : Entry} :
    (q, e) ∈ found F p ↔ Reached F p.path p.entries q e := by
  constructor
  · intro h
    induction p using Pending.induct (F := F) with
    | h p ih =>
        rw [found_eq, List.mem_append, List.mem_flatMap] at h
        rcases h with h | ⟨d, hd, h⟩
        · obtain ⟨ho, he, rfl⟩ := Pending.mem_finds.mp h
          exact .child ho he
        · obtain ⟨ho, hs, -, name, hpath, he⟩ := Pending.mem_children.mp hd
          have hchild : Reached F p.path p.entries d.path (.dir name d.inode d.entries) :=
            hpath ▸ .child ho he
          exact hchild.trans hs (ih d hd h)
  · intro h
    induction h with
    | child hopen he =>
        rw [found_eq]
        exact List.mem_append_left _ (Pending.mem_finds.mpr ⟨hopen, he, rfl⟩)
    | deeper _ hstat hopen he ih =>
        obtain ⟨c, hc, rfl, rfl⟩ := exists_popped_of_found ih hstat
        exact List.mem_flatMap.mpr ⟨c, hc, Pending.mem_finds.mpr ⟨hopen, he, rfl⟩⟩

/-- The reports that a walk makes are those about the entries reached. -/
lemma stays_popped_iff {E : Errors} {p : Pending} (h : Lists F p.path p.entries) :
    (∀ c ∈ p.popped F, c.Stays F E) ↔
      ∀ q e, Reached F p.path p.entries q e → Stays F E q := by
  have hturn : ∀ c ∈ p.popped F, c.Stays F E ↔ ∀ x ∈ c.finds F, Stays F E x.1 := by
    intro c hc
    rw [Pending.Stays, turnNames_item (Pending.lists_popped h c hc), Pending.finds]
    split_ifs
    · rw [List.forall_mem_map, List.forall_mem_map]
    · exact iff_of_true nofun nofun
  have hfound : (∀ c ∈ p.popped F, c.Stays F E) ↔ ∀ x ∈ found F p, Stays F E x.1 := by
    rw [found, List.forall_mem_flatMap]
    exact forall₂_congr hturn
  rw [hfound]
  exact ⟨fun hall q e hq => hall (q, e) (mem_found_iff.mpr hq),
    fun hall x hx => hall x.1 x.2 (mem_found_iff.mp hx)⟩

/-- What is reached where nothing fails is shown. -/
lemma Reached.lstat_eq {start q : Path} {es : List Entry} {e : Entry} (ho : Opens F start es)
    (h : Reached F start es q e) : F.lstat q = some e.stat := by
  have hshows : Shows F q e := by
    induction h with
    | child hopen he => exact ho.shows he
    | deeper _ hstat hopen he ih => exact ih.opens.shows he
  exact hshows.lstat_eq

/-- Where nothing fails no report is made. -/
lemma stays_popped {E : Errors} {p : Pending} (h : Opens F p.path p.entries) :
    ∀ c ∈ p.popped F, c.Stays F E := by
  refine (stays_popped_iff h.lists).mpr fun q e hq hnone => ?_
  rw [hq.lstat_eq h] at hnone
  cases hnone

/-- What is reached lies below the start. -/
lemma Reached.exists_eq {start q : Path} {es : List Entry} {e : Entry}
    (h : Reached F start es q e) : ∃ s, q = start ++ 47 :: s := by
  induction h with
  | child hopen he => exact ⟨_, rfl⟩
  | deeper _ hstat hopen he ih =>
      obtain ⟨s, rfl⟩ := ih
      exact ⟨_, by rw [joinPath, List.append_assoc, List.cons_append]⟩

/-! ### Each once -/

lemma joinPath_inj {q n m : Path} : joinPath q n = joinPath q m ↔ n = m := by
  rw [joinPath, joinPath, List.append_cancel_left_eq, List.cons_inj_right]

lemma pending_path_sublist (level : ℕ) (q : Path) (es : List Entry) :
    ((es.flatMap (Entry.pending F level q)).map Pending.path).Sublist
      (es.map fun e => joinPath q e.name) := by
  induction es with
  | nil => exact List.Sublist.slnil
  | cons e es ih =>
      rw [List.flatMap_cons, List.map_append, List.map_cons]
      cases e with
      | file name fmt ino => exact ih.cons _
      | dir name ino es' =>
          rw [Entry.pending]
          split_ifs with hs
          · exact ih.cons_cons _
          · exact ih.cons _

/-- The directories a turn pushes have different paths. -/
lemma Pending.children_nodup {p : Pending} (h : (p.entries.map Entry.name).Nodup) :
    ((p.children F).map Pending.path).Nodup := by
  rw [children]
  split_ifs with ho
  · rw [pendingAll, List.map_reverse, List.nodup_reverse]
    refine (pending_path_sublist _ _ _).nodup ?_
    have hmap : (p.entries.map fun e => joinPath p.path e.name)
        = (p.entries.map Entry.name).map (joinPath p.path) := by
      rw [List.map_map, Function.comp_def]
    rw [hmap]
    exact h.map fun n m hnm => joinPath_inj.mp hnm
  · exact List.nodup_nil

/-- Below different entries of a directory there are different paths. -/
lemma path_eq_of_found {p c d : Pending} {q : Path} {e e' : Entry} (hc : c ∈ p.children F)
    (hd : d ∈ p.children F) (h : (q, e) ∈ found F c) (h' : (q, e') ∈ found F d) :
    c.path = d.path := by
  obtain ⟨-, -, -, n, hn, -⟩ := Pending.mem_children.mp hc
  obtain ⟨-, -, -, m, hm, -⟩ := Pending.mem_children.mp hd
  obtain ⟨s, hs⟩ := (mem_found_iff.mp h).exists_eq
  obtain ⟨t, ht⟩ := (mem_found_iff.mp h').exists_eq
  rw [hs, hn, hm, joinPath, joinPath, List.append_assoc, List.append_assoc,
    List.append_cancel_left_eq, List.cons_append, List.cons_append, List.cons_inj_right] at ht
  rw [hn, hm, eq_of_append_slash n.noSlash m.noSlash ht]

/-- **The entries found have different paths**, where siblings have different
names. -/
lemma found_nodup {p : Pending} (hn : (p.entries.map Entry.name).Nodup)
    (hd : DistinctAll p.entries) : ((found F p).map Prod.fst).Nodup := by
  induction p using Pending.induct (F := F) with
  | h p ih =>
      have hchild : ∀ c ∈ p.children F, ((found F c).map Prod.fst).Nodup := fun c hc => by
        obtain ⟨-, -, -, name, -, he⟩ := Pending.mem_children.mp hc
        have hdist := distinctAll_iff.mp hd _ he
        rw [Distinct] at hdist
        exact ih c hc hdist.1 hdist.2
      rw [found_eq, List.map_append, List.map_flatMap, List.nodup_append]
      refine ⟨?_, List.nodup_flatMap.mpr ⟨hchild, ?_⟩, ?_⟩
      · rw [Pending.finds]
        split_ifs with ho
        · rw [List.map_map]
          have hmap : (Prod.fst ∘ fun e => (joinPath p.path e.name, e))
              = joinPath p.path ∘ Entry.name := rfl
          rw [hmap, ← List.map_map]
          exact hn.map fun n m hnm => joinPath_inj.mp hnm
        · exact List.nodup_nil
      · refine (List.pairwise_map.mp (Pending.children_nodup hn)).imp_of_mem ?_
        intro c d hc hd hne q hqc hqd
        obtain ⟨⟨q₁, e⟩, he, rfl⟩ := List.mem_map.mp hqc
        obtain ⟨⟨q₂, e'⟩, he', heq⟩ := List.mem_map.mp hqd
        obtain rfl : q₂ = q₁ := heq
        exact hne (path_eq_of_found hc hd he he')
      · -- an entry has no slash in its name, an entry below another one has
        intro q hq r hr heq
        obtain ⟨⟨q₁, e⟩, he, rfl⟩ := List.mem_map.mp hq
        obtain ⟨c, hc, hr⟩ := List.mem_flatMap.mp hr
        obtain ⟨⟨q₂, e'⟩, he', hr⟩ := List.mem_map.mp hr
        obtain ⟨-, -, hq₁⟩ := Pending.mem_finds.mp he
        obtain ⟨-, -, -, n, hcn, -⟩ := Pending.mem_children.mp hc
        obtain ⟨s, hs⟩ := (mem_found_iff.mp he').exists_eq
        have hjoin : joinPath p.path e.name = joinPath p.path (n.bytes ++ 47 :: s) :=
          calc joinPath p.path e.name = q₁ := hq₁.symm
            _ = q₂ := heq.trans hr.symm
            _ = joinPath p.path n.bytes ++ 47 :: s := by rw [hs, hcn]
            _ = joinPath p.path (n.bytes ++ 47 :: s) := by
                rw [joinPath, joinPath, List.append_assoc, List.cons_append]
        have hslash := e.noSlash
        rw [joinPath_inj.mp hjoin] at hslash
        exact hslash (List.mem_append_right _ List.mem_cons_self)

/-! ### The calls of `myfunc` -/

lemma calls_entryEvents (level : ℕ) (q name : Path) :
    calls (entryEvents F level q name) = [(joinPath q name, report F (joinPath q name))] := by
  rw [entryEvents, statEvents, report]
  cases F.lstat (joinPath q name) with
  | none => rfl
  | some st =>
      dsimp only
      split_ifs <;> rfl

/-- A turn calls `myfunc` for every entry it comes upon. -/
lemma calls_turnEvents {p : Pending} (h : Lists F p.path p.entries) :
    calls (turnEvents F p.item) = (p.finds F).map fun x => (x.1, report F x.1) := by
  have hnames : ∀ names : List Path,
      calls (names.flatMap (entryEvents F (p.level + 1) p.path))
        = names.map fun n => (joinPath p.path n, report F (joinPath p.path n)) := fun names => by
    induction names with
    | nil => rfl
    | cons n names ih => rw [List.flatMap_cons, calls_append, ih, calls_entryEvents]; rfl
  have hturn : calls (turnEvents F p.item) = calls ((turnNames F p.item).flatMap
      (entryEvents F (p.level + 1) p.path)) := rfl
  rw [hturn, hnames, turnNames_item h, Pending.finds]
  split_ifs with ho
  · rw [List.map_map, List.map_map]
    rfl
  · rfl

/-- The walk calls `myfunc` for every entry found. -/
lemma calls_popped {p : Pending} (h : Lists F p.path p.entries) :
    calls ((p.popped F).flatMap fun c => turnEvents F c.item)
      = (found F p).map fun x => (x.1, report F x.1) := by
  have hall := Pending.lists_popped h
  rw [found]
  generalize p.popped F = P at hall
  induction P with
  | nil => rfl
  | cons c P ih =>
      rw [List.flatMap_cons, calls_append, calls_turnEvents (hall c List.mem_cons_self),
        ih fun d hd => hall d (List.mem_cons_of_mem _ hd), List.flatMap_cons, List.map_append]

/-- A file that was `lstat`-ed is counted under its type. -/
lemma report_counts {q : Path} {e : Entry} (h : Serves F q e) (k : Fmt) :
    (report F q).counts k = decide ((F.lstat q).isSome ∧ e.stat.fmt = k) := by
  rw [report]
  cases hst : F.lstat q with
  | none => simp [Ftw.counts]
  | some st =>
      obtain rfl := h.lstat_eq hst
      by_cases hdir : e.stat.fmt = .dir
      · simp [hdir, Ftw.counts, eq_comm]
      · simp only [hdir, ne_eq, not_false_eq_true, if_true, Ftw.counts, Option.isSome_some,
          true_and, decide_eq_decide, and_iff_left_iff_imp]
        rintro rfl
        exact hdir

/-- The directories opened are the first one and directories that were found. -/
lemma opendir_popped {p : Pending} {q : Path}
    (h : Event.opendir q ∈ (p.popped F).flatMap fun c => turnEvents F c.item) :
    q = p.path ∨ ∃ name ino es, (q, .dir name ino es) ∈ found F p := by
  obtain ⟨c, hc, ho⟩ := List.mem_flatMap.mp h
  have hq : q = c.path := by
    rw [turnEvents, List.mem_cons, List.mem_cons, List.mem_flatMap] at ho
    rcases ho with ho | ho | ⟨n, -, ho⟩
    · cases ho
    · exact Event.opendir.inj ho
    · rw [entryEvents, statEvents, List.mem_cons, List.mem_cons] at ho
      rcases ho with ho | ho | ho
      · cases ho
      · cases ho
      · cases hst : F.lstat (joinPath c.item.data n) with
        | none => simp [hst] at ho
        | some st =>
            rw [hst] at ho
            dsimp only at ho
            split_ifs at ho <;> simp at ho
  rw [hq]
  rcases found_of_popped hc with rfl | ⟨name, hf⟩
  · exact Or.inl rfl
  · exact Or.inr ⟨name, _, _, hf⟩

/-- **What a walk has covered**: `L` are the entries reached, each once; `myfunc` was
called for each of them, in this order, and for no other; the counters are the numbers
of those of each type that could be `lstat`-ed; no symbolic link was opened. -/
structure Covers (F : Files) (start : Path) (es : List Entry) (s : World)
    (L : List (Path × Entry)) : Prop where
  reached : ∀ q e, (q, e) ∈ L ↔ Reached F start es q e
  once : (L.map Prod.fst).Nodup
  called : calls s.trace = L.map fun x => (x.1, report F x.1)
  counted : ∀ k, s.counts.get k
    = L.countP fun x => decide ((F.lstat x.1).isSome ∧ x.2.stat.fmt = k)
  links : ∀ q e, Reached F start es q e → e.stat.fmt = .lnk → .opendir q ∉ s.trace

variable {E : Errors}

/-- The walk of a tree ends where the reports fit, and has called `myfunc` for every entry
found. -/
lemma myftwN_calls (A : Malloc) {start : Path} {st : Stat} {es : List Entry}
    (hst : F.lstat start = some st) (hl : Lists F start es)
    (hfit : ∀ q e, Reached F start es q e → F.lstat q = none → E.Fits q) :
    ∃ N s, (∀ n ≥ N, myftwN F A E n none start = some (1, s))
      ∧ Rep s [] [] (startEvents start
          ++ (Pending.popped F ⟨start, 0, st.ino, es⟩).flatMap fun p => turnEvents F p.item)
      ∧ calls s.trace = (found F ⟨start, 0, st.ino, es⟩).map fun x => (x.1, report F x.1) := by
  obtain ⟨N, s, hrun, hs⟩ := myftwN_spec A hst hl
    ((stays_popped_iff (p := ⟨start, 0, st.ino, es⟩) hl).mpr hfit)
  refine ⟨N, s, hrun, hs, ?_⟩
  calc calls s.trace = calls (startEvents start) ++ calls ((Pending.popped F
        ⟨start, 0, st.ino, es⟩).flatMap fun c => turnEvents F c.item) := by
          rw [hs.trace, calls_append]
    _ = _ := calls_popped (p := ⟨start, 0, st.ino, es⟩) hl

/-- A walk that returns has made all its reports. -/
lemma fits_of_returns {A : Malloc} {start : Path} {es : List Entry} {n : ℕ} {r : ℤ × World}
    (h : myftwN F A E n none start = some r) (hstat : (F.lstat start).isSome)
    (hl : Lists F start es) :
    ∀ q e, Reached F start es q e → F.lstat q = none → E.Fits q := by
  obtain ⟨st, hst⟩ := Option.isSome_iff_exists.mp hstat
  refine (stays_popped_iff (p := ⟨start, 0, st.ino, es⟩) hl).mp ?_
  by_contra hfit
  rw [myftwN_eq_none A hst hl hfit] at h
  cases h

/-- The walk of a tree covers it where the reports fit. -/
lemma exists_covers (A : Malloc) {start : Path} {name : Name} {ino : ℕ} {es : List Entry}
    (hserves : Serves F start (.dir name ino es)) (hstat : (F.lstat start).isSome)
    (hdist : Distinct (.dir name ino es))
    (hfit : ∀ q e, Reached F start es q e → F.lstat q = none → E.Fits q) :
    ∃ N s L, (∀ n ≥ N, myftwN F A E n none start = some (1, s)) ∧ Covers F start es s L := by
  obtain ⟨st, hst⟩ := Option.isSome_iff_exists.mp hstat
  have hlists : Lists F start es := hserves.lists
  obtain ⟨N, s, hrun, hs, hcalls⟩ := myftwN_calls A hst hlists hfit
  rw [Distinct] at hdist
  have hnodup : ((found F ⟨start, 0, st.ino, es⟩).map Prod.fst).Nodup :=
    found_nodup hdist.1 hdist.2
  refine ⟨N, s, found F ⟨start, 0, st.ino, es⟩, hrun, fun q e => mem_found_iff, hnodup, hcalls,
    fun k => ?_, fun q e hq hlnk hopen => ?_⟩
  · rw [hs.counts, ← hs.trace, countP_calls, hcalls, List.countP_map]
    refine List.countP_congr fun x hx => ?_
    have hserve := (mem_found_iff.mp hx).serves hlists
    simp only [Function.comp_apply, report_counts hserve]
  · -- what has been opened has been popped, so it is the start or a directory found
    rw [hs.trace, startEvents, List.mem_append] at hopen
    rcases hopen with hopen | hopen
    · simp at hopen
    · rcases opendir_popped hopen with rfl | ⟨n, i, es', hf⟩
      · obtain ⟨t, ht⟩ := hq.exists_eq
        have hlen := congrArg List.length ht
        simp at hlen
      · have he : e = .dir n i es' :=
          congrArg Prod.snd (List.inj_on_of_nodup_map hnodup (mem_found_iff.mpr hq) hf rfl)
        rw [he] at hlnk
        cases hlnk

/-- **When the walk visits what is reached.** On a tree below a directory that can be
`lstat`-ed, whatever else fails, and from an empty stack, the walk ends and has covered the
tree exactly when every reached path of which `lstat` fails is short enough for its report:
with the text of the error it has 4076 bytes at most. -/
theorem walk_visits_iff (F : Files) (A : Malloc) (E : Errors) (start : Path) (name : Name)
    (ino : ℕ) (es : List Entry) (hserves : Serves F start (.dir name ino es))
    (hstat : (F.lstat start).isSome) (hdist : Distinct (.dir name ino es)) :
    (∃ N s L, (∀ n ≥ N, myftwN F A E n none start = some (1, s)) ∧ Covers F start es s L)
      ↔ ∀ q e, Reached F start es q e → F.lstat q = none → E.Fits q := by
  constructor
  · rintro ⟨N, s, L, hrun, -⟩
    exact fits_of_returns (hrun N le_rfl) hstat hserves.lists
  · exact exists_covers A hserves hstat hdist

/-- The criterion for the directory with the link. -/
theorem walk_visits_iff_one_link :
    (∃ N s L, (∀ n ≥ N, myftwN oneLink .bump denied n none [115] = some (1, s))
        ∧ Covers oneLink [115] oneLinkEntries s L)
      ↔ ∀ q e, Reached oneLink [115] oneLinkEntries q e → oneLink.lstat q = none →
          denied.Fits q :=
  walk_visits_iff oneLink .bump denied [115] (.single 115 (by decide)) 1 oneLinkEntries
    oneLink_serves rfl (by simp [Distinct, DistinctAll, Entry.name, oneLinkEntries])

/-- The longest name that a directory has. -/
def longName : Name where
  bytes := List.replicate 255 97
  noSlash h := absurd (List.eq_of_mem_replicate h) (by decide)
  notDot := by decide
  notDotDot := by decide

/-- A kernel that refuses paths of `4096` bytes. In each directory it shows one file, with a long
name, and in the one whose path has `3841` bytes a file `b` behind it. -/
def deep : Files where
  lstat q :=
    if 4096 ≤ q.length then none
    else if q.length = 3843 then some ⟨.reg, 2⟩ else some ⟨.dir, q.length⟩
  opendir q :=
    if q.length = 3841 then some [[46], [46, 46], longName.bytes, [98]]
    else some [[46], [46, 46], longName.bytes]

/-- What `deep` has in a directory above `k` others. -/
def deepEntries : ℕ → List Entry
  | 0 => [.file longName ⟨.reg, reg_ne_dir⟩ 3, .file (.single 98 letter_b) ⟨.reg, reg_ne_dir⟩ 2]
  | k + 1 => [.dir longName (3841 - 256 * k) (deepEntries k)]

lemma length_joinPath_longName (q : Path) :
    (joinPath q longName.bytes).length = q.length + 256 := by
  rw [joinPath, List.length_append, List.length_cons, longName, List.length_replicate]

lemma deep_lists (k : ℕ) : ∀ {q : Path}, q.length + 256 * k = 3841 →
    Lists deep q (deepEntries k) := by
  induction k with
  | zero =>
      intro q hq
      replace hq : q.length = 3841 := hq
      have hopen : deep.opendir q = some [[46], [46, 46], longName.bytes, [98]] := if_pos hq
      refine ⟨fun names ho => ?_, ?_⟩
      · cases hopen.symm.trans ho
        simp [notDots, deepEntries, Entry.name, longName.notDot, longName.notDotDot]
      · have hlen : (joinPath q [98]).length = 3843 := by
          rw [joinPath, List.length_append, hq]
          rfl
        simp [deepEntries, ServesAll, Serves, Entry.name, Entry.stat, deep, hlen,
          length_joinPath_longName, hq]
  | succ k ih =>
      intro q hq
      have hopen : deep.opendir q = some [[46], [46, 46], longName.bytes] := if_neg (by omega)
      have hlen := length_joinPath_longName q
      have hlists := ih (q := joinPath q longName.bytes) (by omega)
      refine ⟨fun names ho => ?_, ?_⟩
      · cases hopen.symm.trans ho
        simp [notDots, deepEntries, Entry.name, longName.notDot, longName.notDotDot]
      · rw [deepEntries, ServesAll, Serves]
        refine ⟨⟨fun st hst => ?_, hlists⟩, trivial⟩
        have hdir : deep.lstat (joinPath q longName.bytes)
            = some ⟨.dir, (joinPath q longName.bytes).length⟩ :=
          (if_neg (by omega)).trans (if_neg (by omega))
        cases hdir.symm.trans hst
        rw [Entry.stat, hlen, show 3841 - 256 * k = q.length + 256 by omega]

/-- The file with the long name in the last directory is reached. -/
lemma exists_reached_deep (k : ℕ) : ∀ {q : Path}, q.length + 256 * k = 3841 → (0 : UInt8) ∉ q →
    ∃ r e, Reached deep q (deepEntries k) r e ∧ r.length = 4097 ∧ (0 : UInt8) ∉ r := by
  have hclean : ∀ {q : Path}, (0 : UInt8) ∉ q → (0 : UInt8) ∉ joinPath q longName.bytes := by
    intro q h0 hmem
    rcases List.mem_append.mp hmem with hmem | hmem
    · exact h0 hmem
    · exact absurd (List.eq_of_mem_replicate
        ((List.mem_cons.mp hmem).resolve_left (by decide))) (by decide)
  have hopen : ∀ q, (deep.opendir q).isSome := by
    intro q
    simp only [deep]
    split_ifs <;> rfl
  induction k with
  | zero =>
      intro q hq h0
      refine ⟨_, .file longName ⟨.reg, reg_ne_dir⟩ 3, .child (hopen q) List.mem_cons_self, ?_,
        hclean h0⟩
      have hlen := length_joinPath_longName q
      change (joinPath q longName.bytes).length = 4097
      omega
  | succ k ih =>
      intro q hq h0
      have hlen := length_joinPath_longName q
      obtain ⟨r, e, hr, hall⟩ := ih (q := joinPath q longName.bytes) (by omega) (hclean h0)
      refine ⟨r, e, .trans (.child (hopen q) List.mem_cons_self) ?_ hr, hall⟩
      change (deep.lstat (joinPath q longName.bytes)).isSome
      simp only [deep]
      rw [if_neg (by omega)]
      split_ifs <;> rfl

/-- Calls of `err_ret` with `errno` being `ENAMETOOLONG`. -/
def tooLong : Errors := ⟨fun _ => zeroBuf, fun _ => nameTooLong⟩

/-- An entry whose path is too long for `lstat` ends the walk of its directory. -/
theorem long_name_ends_walk : ¬ ∃ N s L,
    (∀ n ≥ N, myftwN deep .bump tooLong n none [115] = some (1, s))
      ∧ Covers deep [115] (deepEntries 15) s L := by
  rintro ⟨N, s, L, hrun, -⟩
  obtain ⟨r, e, hr, hlen, h0⟩ := exists_reached_deep 15 (q := [115]) rfl (by decide)
  have hrefused : deep.lstat r = none := if_pos (by omega)
  have hfit := fits_of_returns (hrun N le_rfl) rfl (deep_lists 15 rfl) r e hr hrefused
  rw [Errors.Fits, strlen_of_clean h0, hlen] at hfit
  omega

end DirWalk

end OperatingSys
