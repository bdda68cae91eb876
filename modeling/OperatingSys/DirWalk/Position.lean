import OperatingSys.DirWalk.EarlyStop

/-!
The working directory in the recursive walk.

The result of `chdir` is not looked at. Where a directory that was opened cannot be changed
to, the names read from it are looked up in the directory it is in, and the `chdir` to `..`
behind it leads one too high. So the walk keeps its place exactly when after such a
directory nothing comes that could go wrong, and the last `chdir` leads back to where the
walk was called (`keepsPlace_iff`).
-/

namespace OperatingSys

namespace DirWalk

variable {ω σ : Type*} {K : Kernel ω} {into : ω → Path → ω} {func : Handler σ}

/-- The names that were `lstat`-ed, each with the working directory. -/
def lstats (tr : List (Act ω)) : List (ω × Path) :=
  tr.filterMap fun
    | .lstat cwd name => some (cwd, name)
    | .call .. | .indent .. => none

/-! ### Turns -/

section Turns

variable {visit visit' : Proc ω σ → Path → Option (ℤ × Proc ω σ)} {s s' : Proc ω σ} {q : Path}
  {depth n m : ℕ} {names ds : List Path} {v ret : ℤ} {d : Path}

/-- The first name that is not skipped. -/
lemma readNames_first (hnames : names.filter notDots = d :: ds)
    (h : readNames visit names 0 s = some (v, s')) :
    ∃ r names', visit s d = some r ∧ names'.filter notDots = ds
      ∧ readNames visit names' r.1 r.2 = some (v, s') := by
  induction names with
  | nil => cases hnames
  | cons d' names ih =>
      rw [readNames, if_neg (by simp)] at h
      by_cases hd : notDots d' = true
      · rw [List.filter_cons_of_pos hd, List.cons.injEq] at hnames
        obtain ⟨rfl, hrest⟩ := hnames
        rw [if_pos hd] at h
        obtain ⟨r, hr, hrun⟩ := Option.bind_eq_some_iff.mp h
        exact ⟨r, names, hr, hrest, hrun⟩
      · rw [List.filter_cons_of_neg hd] at hnames
        rw [if_neg hd] at h
        exact ih hnames h

/-- What is recorded stays recorded. -/
lemma readNames_trace (hvisit : ∀ s d v s', visit s d = some (v, s') → s.trace <+: s'.trace)
    (h : readNames visit names ret s = some (v, s')) : s.trace <+: s'.trace := by
  induction names generalizing ret s with
  | nil =>
      cases h
      exact List.prefix_rfl
  | cons d names ih =>
      rw [readNames] at h
      split_ifs at h
      · cases h
        exact List.prefix_rfl
      · obtain ⟨⟨v₁, s₁⟩, hr, hrun⟩ := Option.bind_eq_some_iff.mp h
        exact (hvisit _ _ _ _ hr).trans (ih hrun)
      · exact ih h

/-- The walk begins with the `lstat` of the name it is given. -/
lemma dopath_trace (h : dopath K func n s q depth = some (v, s')) :
    s.trace ++ [.lstat s.cwd q] <+: s'.trace := by
  induction n generalizing s q depth v s' with
  | zero => cases h
  | succ n ih =>
      -- the trace only grows from one entry to the next
      have hnext : ∀ (s : Proc ω σ) (d : Path) (v : ℤ) (s' : Proc ω σ),
          dopath K func n s d (depth + 1) = some (v, s') → s.trace <+: s'.trace :=
        fun s d v s' hd => (List.prefix_append _ _).trans (ih hd)
      have hpre := List.prefix_append (s.trace ++ [.lstat s.cwd q]) [.indent depth]
      rcases hst : K.lstat s.cwd q with - | st
      · rw [dopath_ns hst] at h
        cases h
        exact List.prefix_append _ _
      by_cases hdir : st.fmt = .dir
      · by_cases hgo : (func s.data q (.D st)).1 = 0
        · rcases ho : K.opendir s.cwd q with - | names
          · rw [dopath_dnr hst hdir hgo ho] at h
            cases h
            exact (hpre.trans (List.prefix_append _ _)).trans (List.prefix_append _ _)
          · rw [dopath_dir hst hdir hgo ho] at h
            obtain ⟨⟨v₁, s₁⟩, hr, heq⟩ := Option.map_eq_some_iff.mp h
            cases heq
            exact (hpre.trans (List.prefix_append _ _)).trans (readNames_trace hnext hr)
        · rw [dopath_stop hst hdir hgo] at h
          cases h
          exact hpre.trans (List.prefix_append _ _)
      · rw [dopath_file hst hdir] at h
        cases h
        exact hpre.trans (List.prefix_append _ _)

/-- More turns change nothing. -/
lemma readNames_mono (hvisit : ∀ s d r, visit s d = some r → visit' s d = some r)
    {r : ℤ × Proc ω σ} (h : readNames visit names ret s = some r) :
    readNames visit' names ret s = some r := by
  induction names generalizing ret s with
  | nil => exact h
  | cons d names ih =>
      rw [readNames] at h ⊢
      split_ifs at h ⊢
      · exact h
      · obtain ⟨r₁, hr, hrun⟩ := Option.bind_eq_some_iff.mp h
        rw [hvisit _ _ _ hr, Option.bind_some]
        exact ih hrun
      · exact ih h

lemma dopath_succ {r : ℤ × Proc ω σ} (h : dopath K func n s q depth = some r) :
    dopath K func (n + 1) s q depth = some r := by
  induction n generalizing s q depth r with
  | zero => cases h
  | succ n ih =>
      rcases hst : K.lstat s.cwd q with - | st
      · rw [dopath_ns hst] at h ⊢
        exact h
      by_cases hdir : st.fmt = .dir
      · by_cases hgo : (func s.data q (.D st)).1 = 0
        · rcases ho : K.opendir s.cwd q with - | names
          · rw [dopath_dnr hst hdir hgo ho] at h ⊢
            exact h
          · rw [dopath_dir hst hdir hgo ho] at h ⊢
            obtain ⟨r₁, hr, heq⟩ := Option.map_eq_some_iff.mp h
            rw [readNames_mono (fun s d r hd => ih hd) hr, Option.map_some, heq]
        · rw [dopath_stop hst hdir hgo] at h ⊢
          exact h
      · rw [dopath_file hst hdir] at h ⊢
        exact h

lemma dopath_mono {r : ℤ × Proc ω σ} (h : dopath K func n s q depth = some r) (hm : n ≤ m) :
    dopath K func m s q depth = some r := by
  induction hm with
  | refl => exact h
  | step _ ih => exact dopath_succ ih

/-- What the walk comes to does not depend on the turns it is given. -/
lemma dopath_unique {r r' : ℤ × Proc ω σ} (h : dopath K func n s q depth = some r)
    (h' : dopath K func m s q depth = some r') : r = r' := by
  rcases le_total n m with hle | hle
  · exact Option.some.inj ((dopath_mono h hle).symm.trans h')
  · exact Option.some.inj (h.symm.trans (dopath_mono h' hle))

end Turns

/-! ### Where the walk goes astray -/

/-- After some steps of the plan, the name of the next `lstat` is looked up in another
directory than the one it is in. -/
def Astray (tr : List (Act ω)) (ps : List (Step ω)) (tr' : List (Act ω)) : Prop :=
  ∃ ps₁ home name ps₂ cwd, ps = ps₁ ++ .lstat home name :: ps₂ ∧ cwd ≠ home
    ∧ tr ++ acts ps₁ ++ [.lstat cwd name] <+: tr'

section Astray

variable {tr tr' tr'' : List (Act ω)} {ps qs : List (Step ω)}

lemma Astray.extend (h : Astray tr ps tr') (hp : tr' <+: tr'') : Astray tr ps tr'' := by
  obtain ⟨ps₁, home, name, ps₂, cwd, heq, hne, hpre⟩ := h
  exact ⟨ps₁, home, name, ps₂, cwd, heq, hne, hpre.trans hp⟩

lemma Astray.append_right (h : Astray tr ps tr') (qs : List (Step ω)) :
    Astray tr (ps ++ qs) tr' := by
  obtain ⟨ps₁, home, name, ps₂, cwd, rfl, hne, hpre⟩ := h
  exact ⟨ps₁, home, name, ps₂ ++ qs, cwd, by simp, hne, hpre⟩

lemma Astray.append_left (qs : List (Step ω)) (h : Astray (tr ++ acts qs) ps tr') :
    Astray tr (qs ++ ps) tr' := by
  obtain ⟨ps₁, home, name, ps₂, cwd, rfl, hne, hpre⟩ := h
  refine ⟨qs ++ ps₁, home, name, ps₂, cwd, by simp, hne, ?_⟩
  rwa [acts, List.filterMap_append, ← List.append_assoc]

/-- A walk that goes astray makes other `lstat`s than the plan. -/
lemma Astray.lstats_ne (h : Astray tr ps tr') : lstats tr' ≠ lstats tr ++ lstats (acts ps) := by
  obtain ⟨ps₁, home, name, ps₂, cwd, rfl, hne, rest, rfl⟩ := h
  intro heq
  have hacts : acts (ps₁ ++ .lstat home name :: ps₂) =
      acts ps₁ ++ .lstat home name :: acts ps₂ := by
    rw [acts, List.filterMap_append]
    rfl
  rw [hacts] at heq
  simp only [lstats, List.filterMap_append, List.filterMap_cons,
    List.append_assoc, List.append_cancel_left_eq, List.cons_append, List.nil_append,
    List.cons.injEq, Prod.mk.injEq] at heq
  exact hne heq.1.1

end Astray

/-- The last step among those of the entries of a directory is the last of one of them. -/
lemma last_planAll {w : ω} {depth : ℕ} {p : Step ω} {es : List Entry} {d : σ}
    (h : (perform func d (planAll K into w depth es)).1.getLast? = some p) :
    ∃ e ∈ es, ∃ d', (perform func d' (plan K into w e.name depth e)).1.getLast? = some p := by
  induction es generalizing d with
  | nil => cases h
  | cons e es ih =>
      rw [planAll] at h
      by_cases hv : (perform func d (plan K into w e.name depth e)).2.1 = 0
      · rw [perform_append_go hv, List.getLast?_append, Option.or_eq_some_iff] at h
        rcases h with h | ⟨-, h⟩
        · obtain ⟨e', he', hlast⟩ := ih h
          exact ⟨e', List.mem_cons_of_mem _ he', hlast⟩
        · exact ⟨e, List.mem_cons_self, d, h⟩
      · rw [perform_append_stop hv] at h
        exact ⟨e, List.mem_cons_self, d, h⟩

/-- A directory that is entered last has nothing in it. -/
lemma enter_last {e : Entry} {w : ω} {q : Path} {depth : ℕ} {d : σ} {home : ω} {name : Path}
    {es : List Entry} (h : (perform func d (plan K into w q depth e)).1.getLast? =
      some (.enter home name es)) : es = [] := by
  induction e using Entry.induct generalizing w q depth d with
  | file name' fmt ino =>
      obtain ⟨_, _, _, _, _, heq, -⟩ :=
        any_isEnter_perform_plan (List.any_eq_true.mpr ⟨_, List.mem_of_getLast? h, rfl⟩)
      cases heq
  | dir name' ino' es' ih =>
      obtain ⟨_, _, _, st, names, heq, hst, hgo, ho⟩ :=
        any_isEnter_perform_plan (List.any_eq_true.mpr ⟨_, List.mem_of_getLast? h, rfl⟩)
      cases heq
      rw [perform_plan_dir hst hgo ho] at h
      rcases hrest : (perform func (func d q (.D st)).2
        (planAll K into (into w q) (depth + 1) es')).1 with - | ⟨p, ps⟩
      · -- nothing follows, so there is nothing in the directory
        rw [hrest] at h
        simp only [List.getLast?_cons_cons, List.getLast?_singleton, Option.some.injEq,
          Step.enter.injEq] at h
        obtain ⟨-, -, rfl⟩ := h
        exact eq_nil_of_perform_planAll hrest
      · rw [hrest] at h
        simp only [List.getLast?_cons_cons] at h
        rw [← hrest] at h
        obtain ⟨e, he, d', hlast⟩ := last_planAll h
        exact ih e he hlast

section Walk

variable (K into func)

/-- Where the steps of an entry do not fit, its walk goes astray. -/
def GoesAstray (n : ℕ) (w : ω) (q : Path) (depth : ℕ) (e : Entry) : Prop :=
  ∀ (s s' : Proc ω σ) (v : ℤ), s.cwd = w →
    ¬ (perform func s.data (plan K into w q depth e)).1.IsChain (Fits K into) →
    dopath K func n s q depth = some (v, s') →
    Astray s.trace (perform func s.data (plan K into w q depth e)).1 s'.trace

/-- The same for the loop of `dopath` over the entries of a directory. -/
def AllGoAstray (n : ℕ) (w : ω) (depth : ℕ) (es : List Entry) : Prop :=
  ∀ (s s' : Proc ω σ) (names : List Path) (v : ℤ), s.cwd = w →
    names.filter notDots = es.map Entry.name →
    ¬ (perform func s.data (planAll K into w depth es)).1.IsChain (Fits K into) →
    readNames (fun s d => dopath K func n s d depth) names 0 s = some (v, s') →
    Astray s.trace (perform func s.data (planAll K into w depth es)).1 s'.trace

variable {K into func} {n depth : ℕ} {w : ω} {q : Path} {es : List Entry}

/-- What the loop does leaves the record of what it did before. -/
lemma readNames_dopath_trace {s s' : Proc ω σ} {names : List Path} {ret v : ℤ}
    (h : readNames (fun s d => dopath K func n s d depth) names ret s = some (v, s')) :
    s.trace <+: s'.trace :=
  readNames_trace (fun _ _ _ _ hd => (List.prefix_append _ _).trans (dopath_trace hd)) h

/-- A name is looked up in the wrong directory after a directory that was not entered. -/
lemma astray_of_not_fits {s₁ s' : Proc ω σ} {tr : List (Act ω)} {ps qs : List (Step ω)}
    {v : ℤ} {d : Path} (hhead : qs.head? = some (.lstat w d)) (hcwd : s₁.cwd ≠ w)
    (htrace : s₁.trace = tr ++ acts ps) (hrun : dopath K func n s₁ d depth = some (v, s')) :
    Astray tr (ps ++ qs) s'.trace := by
  obtain ⟨qs', rfl⟩ := List.head?_eq_some_iff.mp hhead
  exact ⟨ps, w, d, qs', s₁.cwd, rfl, hcwd, htrace ▸ dopath_trace hrun⟩

/-- A directory goes astray if it was not entered and has something in it, or if its entries
do. -/
lemma goesAstray_dir {name : Name} {ino : ℕ} (hst : Stands K into w q (.dir name ino es))
    (hall : AllGoAstray K into func n (into w q) (depth + 1) es) :
    GoesAstray K into func (n + 1) w q depth (.dir name ino es) := by
  rintro s s' v rfl hchain hrun
  -- a plan in which no directory is entered would fit
  have hany : (perform func s.data (plan K into s.cwd q depth (.dir name ino es))).1.any
      Step.isEnter = true := by
    by_contra hno
    refine hchain (isChain_of_entered fun p hp => entered_of_not_enter ?_)
    exact Bool.eq_false_iff.mpr fun hen => hno (List.any_eq_true.mpr ⟨p, hp, hen⟩)
  obtain ⟨_, _, _, st, names, heq, hstat, hgo, ho⟩ := any_isEnter_perform_plan hany
  cases heq
  rw [Stands] at hst
  obtain ⟨hlstat, hnames, hinto, -⟩ := hst
  obtain rfl := hlstat st hstat
  rw [perform_plan_dir hstat hgo ho] at hchain ⊢
  rw [isChain_cons_fits rfl, isChain_cons_fits rfl, isChain_cons_fits rfl] at hchain
  rw [dopath_dir hstat rfl hgo ho] at hrun
  obtain ⟨⟨v₁, s₁⟩, hread, heq⟩ := Option.map_eq_some_iff.mp hrun
  cases heq
  refine Astray.append_left [.lstat s.cwd q, .indent depth,
    .call q (.D (Entry.dir name ino es).stat), .enter s.cwd q es] ?_
  have htrace : s.trace ++ acts [.lstat s.cwd q, .indent depth,
      .call q (.D (Entry.dir name ino es).stat), .enter s.cwd q es] =
      (s.enter K func q (Entry.dir name ino es).stat depth).trace := by
    simp [acts, Step.act, Proc.enter, Proc.note, Proc.call, Proc.chdir, List.filterMap_cons]
  rw [htrace]
  by_cases hen : (K.chdir s.cwd q).getD s.cwd = into s.cwd q
  · refine hall _ s₁ names v₁ hen (hnames _ ho) (fun hrest => hchain ?_) hread
    refine List.isChain_cons.mpr ⟨fun p _ => ?_, hrest⟩
    cases p with
    | lstat home name => exact Or.inl hen
    | indent | call | enter => trivial
  · -- the first entry is looked up where the directory is
    cases es with
    | nil => exact absurd (List.isChain_singleton _) hchain
    | cons e es =>
        have hcwd : (s.enter K func q (Entry.dir name ino (e :: es)).stat depth).cwd = s.cwd := by
          rcases hcd : K.chdir s.cwd q with - | w'
          · simp [Proc.enter, Proc.chdir, hcd]
          · rw [hcd, Option.getD_some] at hen
            exact absurd (hinto w' hcd) hen
        obtain ⟨r, names', hfirst, -, hrest⟩ := readNames_first (hnames _ ho) hread
        have hwrong : s.cwd ≠ into s.cwd q := fun heq => hen (by
          rcases hcd : K.chdir s.cwd q with - | w'
          · rwa [Option.getD_none]
          · rw [Option.getD_some, hinto w' hcd])
        have hgrow : r.2.trace <+: s₁.trace := readNames_dopath_trace hrest
        have hnil : ∀ tr : List (Act ω), tr = tr ++ acts [] := fun tr => (List.append_nil tr).symm
        exact (astray_of_not_fits head_planAll (by rwa [hcwd]) (hnil _) hfirst).extend hgrow

variable [DecidableEq ω]

/-- A directory that was not entered and has no name fitting behind it has led elsewhere. -/
lemma left_ne_of_not_fits {e : Entry} {d : σ} {p : Step ω} {name : Path}
    (hp : p ∈ (perform func d (plan K into w q depth e)).1.getLast?)
    (hnot : ¬ Fits K into p (.lstat w name)) :
    left K into w (perform func d (plan K into w q depth e)).1 ≠ w := by
  cases p with
  | enter home name' es' =>
      obtain rfl := enter_last hp
      rw [Fits, not_or] at hnot
      have hup : left K into w (perform func d (plan K into w q depth e)).1 = K.back w :=
        if_pos ⟨_, hp, hnot.1⟩
      rw [hup]
      exact fun heq => hnot.2 ⟨rfl, heq⟩
  | lstat | indent | call => exact absurd trivial hnot

/-- The entries of a directory go astray if one of them does, or if one is looked up when
the process is one directory too high. -/
lemma allGoAstray (hperf : ∀ e ∈ es, ∃ N, ∀ m ≥ N, Performs K into func m w e.name depth e)
    (hback : ∀ e ∈ es, e.stat.fmt = .dir → Returns K w e.name ∧ into w e.name ≠ w)
    (hastray : ∀ e ∈ es, GoesAstray K into func n w e.name depth e) :
    AllGoAstray K into func n w depth es := by
  induction es with
  | nil => exact fun s s' names v _ _ hchain => absurd .nil hchain
  | cons e es ih =>
      intro s s' names v hs hnames hchain hread
      replace ih := ih (fun f hf => hperf f (List.mem_cons_of_mem _ hf))
        (fun f hf => hback f (List.mem_cons_of_mem _ hf))
        fun f hf => hastray f (List.mem_cons_of_mem _ hf)
      obtain ⟨⟨v₁, s₁⟩, names', hfirst, hnames', hrest⟩ := readNames_first hnames hread
      rw [planAll] at hchain ⊢
      by_cases hc₁ : (perform func s.data (plan K into w e.name depth e)).1.IsChain (Fits K into)
      · -- the entry is walked as planned, and what comes behind it does not fit
        obtain ⟨N, hN⟩ := hperf e List.mem_cons_self
        have hafter := dopath_unique hfirst (hN N le_rfl s hs hc₁)
        rw [landing_eq_left (hback e List.mem_cons_self) hc₁] at hafter
        cases hafter
        by_cases hv : (perform func s.data (plan K into w e.name depth e)).2.1 = 0
        · rw [perform_append_go hv] at hchain ⊢
          cases es with
          | nil => exact absurd (by simpa [planAll] using hc₁) hchain
          | cons e' es =>
              by_cases hjoin :
                  ∀ p ∈ (perform func s.data (plan K into w e.name depth e)).1.getLast?,
                    Fits K into p (.lstat w e'.name)
              · -- the process is where it should be, and the rest goes astray
                refine Astray.append_left _
                  (ih ⟨_, _, _⟩ s' names' v (left_of_fits hjoin) hnames' ?_ ?_)
                · refine fun hc₂ => hchain (List.isChain_append.mpr
                    ⟨hc₁, hc₂, fun p hp p' hp' => ?_⟩)
                  rw [head_planAll] at hp'
                  cases hp'
                  exact hjoin p hp
                · rw [← hv]
                  exact hrest
              · -- the next entry is looked up from the wrong directory
                push Not at hjoin
                obtain ⟨p, hp, hnot⟩ := hjoin
                rw [hv] at hrest
                obtain ⟨r, names'', hnext, -, hrest'⟩ := readNames_first hnames' hrest
                exact (astray_of_not_fits head_planAll (left_ne_of_not_fits hp hnot) rfl
                  hnext).extend (readNames_dopath_trace hrest')
        · rw [perform_append_stop hv] at hchain
          exact absurd hc₁ hchain
      · -- the entry itself goes astray, and the trace only grows
        have hbad := (hastray e List.mem_cons_self s s₁ v₁ hs hc₁ hfirst).extend
          (readNames_dopath_trace hrest)
        by_cases hv : (perform func s.data (plan K into w e.name depth e)).2.1 = 0
        · rw [perform_append_go hv]
          exact hbad.append_right _
        · rwa [perform_append_stop hv]

/-- Where the steps of a plan do not fit, the walk goes astray. -/
lemma goesAstray (e : Entry) : ∀ {w : ω} {q : Path} (n depth : ℕ), Stands K into w q e →
    GoesAstray K into func n w q depth e := by
  induction e using Entry.induct with
  | file name fmt ino =>
      intro w q n depth h s s' v hs hchain _
      refine absurd (isChain_of_entered fun p hp => entered_of_not_enter ?_) hchain
      refine Bool.eq_false_iff.mpr fun hen => ?_
      obtain ⟨_, _, _, _, _, heq, -⟩ :=
        any_isEnter_perform_plan (List.any_eq_true.mpr ⟨p, hp, hen⟩)
      cases heq
  | dir name ino es ih =>
      intro w q n depth h
      cases n with
      | zero => exact fun s s' v _ _ hrun => nomatch hrun
      | succ n =>
          have hall := h
          rw [Stands] at hall
          have hentry := standsAll_iff.mp hall.2.2.2
          exact goesAstray_dir h (allGoAstray
            (fun e he => dopath_plan func e (depth + 1) (hentry e he).1)
            (fun e he => (hentry e he).2) fun e he => ih e he n (depth + 1) (hentry e he).1)

end Walk

/-! ### Keeping the place -/

/-- The walk returns in the directory it was called in, and has looked up each name in the
directory it was read from. -/
def KeepsPlace (K : Kernel ω) (into : ω → Path → ω) (func : Handler σ) (s : Proc ω σ) (q : Path)
    (depth : ℕ) (e : Entry) : Prop :=
  ∃ n v s', dopath K func n s q depth = some (v, s') ∧ s'.cwd = s.cwd
    ∧ lstats s'.trace =
        lstats s.trace ++ lstats (acts (perform func s.data (plan K into s.cwd q depth e)).1)

/-- **The working directory**: the walk keeps its place exactly when a directory that it
opens and cannot change to has nothing in it and is followed by no name, or by one in a
directory that is its own parent, and the last `chdir` leads back. -/
theorem keepsPlace_iff [DecidableEq ω] (K : Kernel ω) (into : ω → Path → ω) (func : Handler σ)
    (s : Proc ω σ) (q : Path) (depth : ℕ) (e : Entry) (hst : Stands K into s.cwd q e) :
    KeepsPlace K into func s q depth e ↔
      (perform func s.data (plan K into s.cwd q depth e)).1.IsChain (Fits K into)
        ∧ landing K into s.cwd q (perform func s.data (plan K into s.cwd q depth e)).1 = s.cwd := by
  obtain ⟨N, hN⟩ := dopath_plan func e depth hst
  constructor
  · rintro ⟨n, v, s', hrun, hcwd, hlstats⟩
    by_cases hchain : (perform func s.data (plan K into s.cwd q depth e)).1.IsChain (Fits K into)
    · refine ⟨hchain, ?_⟩
      have hafter := dopath_unique hrun (hN N le_rfl s rfl hchain)
      exact (congrArg (fun r => r.2.cwd) hafter).symm.trans hcwd
    · exact absurd hlstats (goesAstray e n depth hst s s' v rfl hchain hrun).lstats_ne
  · rintro ⟨hchain, hland⟩
    exact ⟨N, _, _, hN N le_rfl s rfl hchain, hland, List.filterMap_append⟩

/-- From a directory that can be changed to the walk comes back. -/
theorem keepsPlace_iff_one_file :
    KeepsPlace (oneFile true) (fun _ _ => true) counter ⟨false, .zero, []⟩ [115] 0 oneFileTree ↔
      (perform counter .zero (plan (oneFile true) (fun _ _ => true) false [115] 0
          oneFileTree)).1.IsChain (Fits (oneFile true) fun _ _ => true)
        ∧ landing (oneFile true) (fun _ _ => true) false [115] (perform counter .zero
          (plan (oneFile true) (fun _ _ => true) false [115] 0 oneFileTree)).1 = false :=
  keepsPlace_iff (oneFile true) (fun _ _ => true) counter ⟨false, .zero, []⟩ [115] 0 oneFileTree
    (oneFile_stands true)

/-- From one that cannot, its file is looked up outside it. -/
theorem one_file_astray :
    ¬ KeepsPlace (oneFile false) (fun _ _ => true) counter ⟨false, .zero, []⟩ [115] 0
      oneFileTree := by
  rintro ⟨n, v, s', hrun, -, hlstats⟩
  have hturns : dopath (oneFile false) counter 2 ⟨false, .zero, []⟩ [115] 0 =
      some (-1, ⟨false, ⟨0, 1, 0, 0, 0, 0, 0⟩, [.lstat false [115], .indent 0,
        .call [115] (.D ⟨.dir, 1⟩), .lstat false [102], .call [102] .NS]⟩) := rfl
  cases dopath_unique hrun hturns
  exact absurd hlstats (by decide)

end DirWalk

end OperatingSys
