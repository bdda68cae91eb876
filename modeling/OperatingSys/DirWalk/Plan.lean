import OperatingSys.DirWalk.Recursive

/-!
The recursive walk as one list of steps.

The plan of a tree lists, in pre-order, what the walk is to do in it: the `lstat` of each
entry in the directory it is in, the calls of the handler, and the `chdir` into each
directory that could be opened. The handler ends it with its first value that is not `0`
(`perform`). `dopath_plan` says that `dopath` performs the plan of the tree as long as each
`chdir` leads where it should, or fails where it does no harm; so where they all succeed
the handler is called as the plan has it (`dopath_calls`).
-/

namespace OperatingSys

namespace DirWalk

variable {ω σ : Type*}

/-! ### The plan of a tree -/

/-- A step of the plan. -/
inductive Step (ω : Type*) where
  /-- `lstat` of a name that was read from the directory `home`. -/
  | lstat (home : ω) (name : Path)
  | indent (depth : ℕ)
  | call (name : Path) (type : Ftw)
  /-- `chdir` into a directory that was opened, with what it contains. -/
  | enter (home : ω) (name : Path) (es : List Entry)

section Plan

variable (K : Kernel ω) (into : ω → Path → ω)

mutual

/-- What is to be done with an entry that is in the directory `w` under the name `q`, where
`into` says to which directory a name leads. -/
def plan (w : ω) (q : Path) (depth : ℕ) : Entry → List (Step ω)
  | .file _ _ _ =>
      .lstat w q :: match K.lstat w q with
        | none => [.call q .NS]
        | some st => [.indent depth, .call q (.F st)]
  | .dir _ _ es =>
      .lstat w q :: match K.lstat w q with
        | none => [.call q .NS]
        | some st =>
            .indent depth :: .call q (.D st) :: match K.opendir w q with
              | none => [.call q .DNR]
              | some _ => .enter w q es :: planAll (into w q) (depth + 1) es

/-- What is to be done with the entries of the directory `w`. -/
def planAll (w : ω) (depth : ℕ) : List Entry → List (Step ω)
  | [] => []
  | e :: es => plan w e.name depth e ++ planAll w depth es

end

mutual

/-- From the directory `w` the name `q` leads to an entry, as far as the calls succeed. -/
def Stands (w : ω) (q : Path) : Entry → Prop
  | .file name fmt ino => ∀ st, K.lstat w q = some st → st = (Entry.file name fmt ino).stat
  | .dir name ino es =>
      (∀ st, K.lstat w q = some st → st = (Entry.dir name ino es).stat)
        ∧ (∀ names, K.opendir w q = some names → names.filter notDots = es.map Entry.name)
        ∧ (∀ w', K.chdir w q = some w' → w' = into w q) ∧ StandsAll (into w q) es

/-- From the directory `w` the names of its entries lead to them. A directory is another one
than that it is in, and leads back to it by `..` once it was changed to. -/
def StandsAll (w : ω) : List Entry → Prop
  | [] => True
  | e :: es => Stands w e.name e
      ∧ (e.stat.fmt = .dir → Returns K w e.name ∧ into w e.name ≠ w)
      ∧ StandsAll w es

end

end Plan

/-- The steps up to the first call that returns no `0`, the value returned, and what the
handler keeps. -/
def perform (func : Handler σ) : σ → List (Step ω) → List (Step ω) × ℤ × σ
  | d, [] => ([], 0, d)
  | d, .call q t :: ps =>
      let (v, d') := func d q t
      if v ≠ 0 then ([.call q t], v, d')
      else
        let r := perform func d' ps
        (.call q t :: r.1, r.2)
  | d, p :: ps =>
      let r := perform func d ps
      (p :: r.1, r.2)

def Step.isEnter : Step ω → Bool
  | .enter .. => true
  | .lstat .. | .indent .. | .call .. => false

/-- What a step leaves in the record of the program. -/
def Step.act : Step ω → Option (Act ω)
  | .lstat home name => some (.lstat home name)
  | .indent depth => some (.indent depth)
  | .call name t => some (.call name t)
  | .enter .. => none

def acts (ps : List (Step ω)) : List (Act ω) := ps.filterMap Step.act

section Perform

variable {func : Handler σ} {d : σ} {ps qs : List (Step ω)} {q : Path} {t : Ftw}

@[simp] lemma perform_nil : perform func d ([] : List (Step ω)) = ([], 0, d) := rfl

@[simp] lemma perform_lstat {w : ω} : perform func d (.lstat w q :: ps) =
    (.lstat w q :: (perform func d ps).1, (perform func d ps).2) := rfl

@[simp] lemma perform_indent {depth : ℕ} : perform func d (.indent depth :: ps) =
    (.indent depth :: (perform func d ps).1, (perform func d ps).2) := rfl

@[simp] lemma perform_enter {w : ω} {es : List Entry} : perform func d (.enter w q es :: ps) =
    (.enter w q es :: (perform func d ps).1, (perform func d ps).2) := rfl

lemma perform_call_stop (h : (func d q t).1 ≠ 0) :
    perform func d (.call q t :: ps) = ([.call q t], func d q t) := if_pos h

lemma perform_call_go (h : (func d q t).1 = 0) : perform func d (.call q t :: ps) =
    (.call q t :: (perform func (func d q t).2 ps).1, (perform func (func d q t).2 ps).2) :=
  if_neg (not_not.mpr h)

/-- A call that nothing follows returns what it returns. -/
lemma perform_call_last : perform func d ([.call q t] : List (Step ω)) =
    ([.call q t], func d q t) := by
  by_cases h : (func d q t).1 = 0
  · rw [perform_call_go h, perform_nil, ← h]
  · exact perform_call_stop h

/-- What has ended is not gone on with. -/
lemma perform_append_stop (h : (perform func d ps).2.1 ≠ 0) :
    perform func d (ps ++ qs) = perform func d ps := by
  induction ps generalizing d with
  | nil => exact absurd rfl h
  | cons p ps ih =>
      cases p with
      | call q t =>
          by_cases hv : (func d q t).1 = 0
          · rw [perform_call_go hv] at h
            rw [List.cons_append, perform_call_go hv, perform_call_go hv, ih h]
          · rw [List.cons_append, perform_call_stop hv, perform_call_stop hv]
      | lstat w q => exact congrArg (fun r => (Step.lstat w q :: r.1, r.2)) (ih h)
      | indent depth => exact congrArg (fun r => (Step.indent depth :: r.1, r.2)) (ih h)
      | enter w q es => exact congrArg (fun r => (Step.enter w q es :: r.1, r.2)) (ih h)

/-- Steps that go through are followed by the next. -/
lemma perform_append_go (h : (perform func d ps).2.1 = 0) : perform func d (ps ++ qs) =
    ((perform func d ps).1 ++ (perform func (perform func d ps).2.2 qs).1,
      (perform func (perform func d ps).2.2 qs).2) := by
  induction ps generalizing d with
  | nil => rfl
  | cons p ps ih =>
      cases p with
      | call q t =>
          by_cases hv : (func d q t).1 = 0
          · rw [perform_call_go hv] at h
            simp only [List.cons_append, perform_call_go hv, ih h]
          · rw [perform_call_stop hv] at h
            exact absurd h hv
      | lstat w q =>
          rw [perform_lstat] at h
          simp only [List.cons_append, perform_lstat, ih h]
      | indent depth =>
          rw [perform_indent] at h
          simp only [List.cons_append, perform_indent, ih h]
      | enter w q es =>
          rw [perform_enter] at h
          simp only [List.cons_append, perform_enter, ih h]

end Perform

/-! ### Where the process is -/

/-- The directory in which `chdir` to `..` leaves a process. -/
def Kernel.back (K : Kernel ω) (w : ω) : ω := (K.chdir w [46, 46]).getD w

section Places

variable (K : Kernel ω) (into : ω → Path → ω)

/-- The step is no `chdir` that leaves the process elsewhere than in the directory that was
opened. -/
def Step.Entered : Step ω → Prop
  | .enter w q _ => (K.chdir w q).getD w = into w q
  | .lstat .. | .indent .. | .call .. => True

/-- What may come after a `chdir` that has failed: from a directory with nothing in it the
process goes up by one directory too many, which is no harm in one that is its own
parent. -/
def Fits : Step ω → Step ω → Prop
  | .enter w q es, .lstat home _ =>
      (Step.enter w q es).Entered K into ∨ es = [] ∧ K.back home = home
  | _, _ => True

/-- The last step is a `chdir` that has failed. -/
def Strays (ps : List (Step ω)) : Prop := ∃ p ∈ ps.getLast?, ¬ p.Entered K into

variable [DecidableEq ω]

instance (p : Step ω) : Decidable (p.Entered K into) := by
  cases p <;> unfold Step.Entered <;> infer_instance

instance (ps : List (Step ω)) : Decidable (Strays K into ps) := by
  unfold Strays
  cases ps.getLast? <;> simp only [Option.mem_def] <;> infer_instance

/-- Where the process is after the entries of the directory `w`. -/
def left (w : ω) (ps : List (Step ω)) : ω := if Strays K into ps then K.back w else w

/-- Where the process is after an entry that it found in the directory `w`. -/
def landing (w : ω) (q : Path) (ps : List (Step ω)) : ω :=
  if ps.any Step.isEnter then
    if (K.chdir w q).getD w = into w q then K.back (left K into (into w q) ps) else K.back w
  else w

/-- What the program has done when the steps of a plan were performed. -/
def Proc.after (s : Proc ω σ) (cwd : ω) (r : List (Step ω) × ℤ × σ) : ℤ × Proc ω σ :=
  (r.2.1, ⟨cwd, r.2.2, s.trace ++ acts r.1⟩)

end Places

section Lemmas

variable {K : Kernel ω} {into : ω → Path → ω} {ps qs : List (Step ω)} {p : Step ω} {w : ω}
  {q : Path} {depth : ℕ} {e : Entry} {es : List Entry} {func : Handler σ}

@[simp] lemma strays_nil : ¬ Strays K into [] := by simp [Strays]

lemma strays_append (h : qs ≠ []) : Strays K into (ps ++ qs) ↔ Strays K into qs := by
  rw [Strays, List.getLast?_append_of_ne_nil _ h, Strays]

lemma strays_cons (h : ps ≠ []) : Strays K into (p :: ps) ↔ Strays K into ps :=
  by rw [← List.singleton_append, strays_append h]

lemma entered_of_not_enter (h : p.isEnter = false) : p.Entered K into := by
  cases p with
  | enter => cases h
  | lstat | indent | call => trivial

/-- A step that has led where it should does not count. -/
lemma strays_cons_of_entered (h : p.Entered K into) :
    Strays K into (p :: ps) ↔ Strays K into ps := by
  cases ps with
  | nil => simp [Strays, h]
  | cons p' ps => exact strays_cons (List.cons_ne_nil _ _)

lemma left_congr [DecidableEq ω] (h : Strays K into ps ↔ Strays K into qs) :
    left K into w ps = left K into w qs := if_congr h rfl rfl

lemma left_cons [DecidableEq ω] (h : p.Entered K into) :
    left K into w (p :: ps) = left K into w ps := left_congr (strays_cons_of_entered h)

/-- After a call, an `lstat` or an indentation anything may come. -/
lemma fits_of_not_enter (h : p.isEnter = false) (p' : Step ω) : Fits K into p p' := by
  cases p with
  | enter => cases h
  | lstat | indent | call => trivial

lemma isChain_cons_fits (h : p.isEnter = false) :
    (p :: ps).IsChain (Fits K into) ↔ ps.IsChain (Fits K into) := by
  rw [List.isChain_cons]
  exact and_iff_right fun p' _ => fits_of_not_enter h p'

/-- Before an `lstat` in `w` the process is in `w`. -/
lemma left_of_fits [DecidableEq ω] (h : ∀ p ∈ ps.getLast?, Fits K into p (.lstat w q)) :
    left K into w ps = w := by
  by_cases hs : Strays K into ps
  · rw [left, if_pos hs]
    obtain ⟨p, hp, hnot⟩ := hs
    have hfit := h p hp
    cases p with
    | enter => exact (hfit.resolve_left hnot).2
    | lstat | indent | call => exact absurd trivial hnot
  · rw [left, if_neg hs]

/-- The plan of an entry begins with its `lstat`. -/
lemma plan_eq_cons (K : Kernel ω) (into : ω → Path → ω) (w : ω) (q : Path) (depth : ℕ)
    (e : Entry) : ∃ ps, plan K into w q depth e = .lstat w q :: ps := by
  cases e <;> exact ⟨_, rfl⟩

lemma head_planAll {d : σ} : (perform func d (planAll K into w depth (e :: es))).1.head? =
    some (.lstat w e.name) := by
  obtain ⟨ps, hps⟩ := plan_eq_cons K into w e.name depth e
  rw [planAll, hps, List.cons_append, perform_lstat, List.head?_cons]

/-- A directory in which nothing is done has nothing in it. -/
lemma eq_nil_of_perform_planAll {d : σ}
    (h : (perform func d (planAll K into w depth es)).1 = []) : es = [] := by
  cases es with
  | nil => rfl
  | cons e es =>
      have hhead : (perform func d (planAll K into w depth (e :: es))).1.head? =
          some (.lstat w e.name) := head_planAll
      rw [h] at hhead
      cases hhead

/-- What the plan of a directory comes to when it is opened. -/
lemma perform_plan_dir {d : σ} {name : Name} {ino : ℕ} {st : Stat} {names : List Path}
    (h : K.lstat w q = some st) (hgo : (func d q (.D st)).1 = 0)
    (ho : K.opendir w q = some names) :
    perform func d (plan K into w q depth (.dir name ino es)) =
      (.lstat w q :: .indent depth :: .call q (.D st) :: .enter w q es ::
          (perform func (func d q (.D st)).2 (planAll K into (into w q) (depth + 1) es)).1,
        (perform func (func d q (.D st)).2 (planAll K into (into w q) (depth + 1) es)).2) := by
  rw [plan, h, ho, perform_lstat, perform_indent, perform_call_go hgo, perform_enter]

/-- A directory that was opened was entered, or has nothing in it. -/
lemma enter_fits {d : σ} (h : (Step.enter w q es ::
      (perform func d (planAll K into (into w q) depth es)).1).IsChain (Fits K into)) :
    (K.chdir w q).getD w = into w q
        ∧ (perform func d (planAll K into (into w q) depth es)).1.IsChain (Fits K into)
      ∨ (K.chdir w q).getD w ≠ into w q ∧ es = [] := by
  by_cases hen : (K.chdir w q).getD w = into w q
  · exact Or.inl ⟨hen, h.of_cons⟩
  · refine Or.inr ⟨hen, ?_⟩
    cases es with
    | nil => rfl
    | cons e es =>
        have hhead := (List.isChain_cons.mp h).1 _ head_planAll
        rcases hhead with hen' | ⟨hnil, -⟩
        · exact absurd hen' hen
        · cases hnil

/-- An entry that is no directory, or is not opened, is not entered. -/
lemma any_isEnter_perform_plan {d : σ}
    (h : (perform func d (plan K into w q depth e)).1.any Step.isEnter = true) :
    ∃ name ino es st names, e = .dir name ino es ∧ K.lstat w q = some st
      ∧ (func d q (.D st)).1 = 0 ∧ K.opendir w q = some names := by
  cases e with
  | file name fmt ino =>
      rcases hst : K.lstat w q with - | st
      · rw [plan, hst, perform_lstat, perform_call_last] at h
        cases h
      · rw [plan, hst, perform_lstat, perform_indent, perform_call_last] at h
        cases h
  | dir name ino es =>
      rcases hst : K.lstat w q with - | st
      · rw [plan, hst, perform_lstat, perform_call_last] at h
        cases h
      · by_cases hgo : (func d q (.D st)).1 = 0
        · rcases ho : K.opendir w q with - | names
          · rw [plan, hst, ho, perform_lstat, perform_indent, perform_call_go hgo,
              perform_call_last] at h
            cases h
          · exact ⟨name, ino, es, st, names, rfl, rfl, hgo, rfl⟩
        · rw [plan, hst, perform_lstat, perform_indent, perform_call_stop hgo] at h
          cases h

lemma standsAll_iff : StandsAll K into w es ↔
    ∀ e ∈ es, Stands K into w e.name e
      ∧ (e.stat.fmt = .dir → Returns K w e.name ∧ into w e.name ≠ w) := by
  induction es with
  | nil => simp [StandsAll]
  | cons e es ih => simp [StandsAll, ih, and_assoc]

end Lemmas

/-! ### The walk performs the plan -/

section Walk

variable {K : Kernel ω} {into : ω → Path → ω} {func : Handler σ} {s : Proc ω σ} {q : Path}
  {st : Stat} {n depth : ℕ} {names : List Path}

/-- An entry whose `lstat` fails. -/
lemma dopath_ns (h : K.lstat s.cwd q = none) : dopath K func (n + 1) s q depth =
    some ((s.note (.lstat s.cwd q)).call func q .NS) := by
  rw [dopath]
  simp only [Proc.note_cwd, h]

/-- A directory with which the handler ends the walk. -/
lemma dopath_stop (h : K.lstat s.cwd q = some st) (hdir : st.fmt = .dir)
    (hstop : (func s.data q (.D st)).1 ≠ 0) : dopath K func (n + 1) s q depth =
      some (((s.note (.lstat s.cwd q)).note (.indent depth)).call func q (.D st)) := by
  rw [dopath]
  simp only [Proc.note_cwd, Proc.note_data, Proc.call_fst, h, hdir, ne_eq, not_true_eq_false,
    if_false, hstop, not_false_eq_true, if_true]
  rfl

/-- A directory that cannot be opened. -/
lemma dopath_dnr (h : K.lstat s.cwd q = some st) (hdir : st.fmt = .dir)
    (hgo : (func s.data q (.D st)).1 = 0) (ho : K.opendir s.cwd q = none) :
    dopath K func (n + 1) s q depth =
      some ((((s.note (.lstat s.cwd q)).note (.indent depth)).call func q (.D st)).2.call func q
        .DNR) := by
  rw [dopath]
  simp only [Proc.note_cwd, Proc.note_data, Proc.call_fst, Proc.call_cwd, h, hdir, ne_eq,
    not_true_eq_false, if_false, hgo, ho]

/-- A loop that has been ended reads on no more. -/
lemma readNames_stop {visit : Proc ω σ → Path → Option (ℤ × Proc ω σ)} {v : ℤ} (hv : v ≠ 0) :
    readNames visit names v s = some (v, s) := by
  cases names with
  | nil => rfl
  | cons d names => exact if_pos hv

/-- A loop over `.` and `..` alone does nothing. -/
lemma readNames_dots {visit : Proc ω σ → Path → Option (ℤ × Proc ω σ)}
    (h : names.filter notDots = []) : readNames visit names 0 s = some (0, s) := by
  induction names with
  | nil => rfl
  | cons d names ih =>
      have hd : ¬ notDots d = true := List.filter_eq_nil_iff.mp h d List.mem_cons_self
      rw [List.filter_cons_of_neg hd] at h
      rw [readNames, if_neg (by simp), if_neg hd, ih h]

variable [DecidableEq ω] (K into func)

/-- The walk of an entry performs its plan, where the steps fit. -/
def Performs (n : ℕ) (w : ω) (q : Path) (depth : ℕ) (e : Entry) : Prop :=
  ∀ s : Proc ω σ, s.cwd = w →
    (perform func s.data (plan K into w q depth e)).1.IsChain (Fits K into) →
    dopath K func n s q depth =
      some (s.after (landing K into w q (perform func s.data (plan K into w q depth e)).1)
        (perform func s.data (plan K into w q depth e)))

variable {K into func}

/-- An entry that is not entered. -/
lemma performs_file {w : ω} {name : Name} {fmt : {f : Fmt // f ≠ .dir}} {ino : ℕ}
    (hst : Stands K into w q (.file name fmt ino)) :
    Performs K into func (n + 1) w q depth (.file name fmt ino) := by
  rintro s rfl -
  rw [Stands] at hst
  rcases h : K.lstat s.cwd q with - | st
  · rw [dopath_ns h, plan, h, perform_lstat, perform_call_last]
    simp [Proc.after, Proc.call, Proc.note, landing, Step.isEnter, acts, Step.act]
  · obtain rfl := hst st h
    rw [dopath_file h fmt.2, plan, h, perform_lstat, perform_indent, perform_call_last]
    simp [Proc.after, Proc.call, Proc.note, landing, Step.isEnter, acts, Step.act]

/-- What the loop of `dopath` does with the entries of a directory. -/
def ReadsAll (K : Kernel ω) (into : ω → Path → ω) (func : Handler σ) (n : ℕ) (w : ω) (depth : ℕ)
    (es : List Entry) : Prop :=
  ∀ (s : Proc ω σ) (names : List Path), s.cwd = w → names.filter notDots = es.map Entry.name →
    (perform func s.data (planAll K into w depth es)).1.IsChain (Fits K into) →
    readNames (fun s d => dopath K func n s d depth) names 0 s =
      some (s.after (left K into w (perform func s.data (planAll K into w depth es)).1)
        (perform func s.data (planAll K into w depth es)))

/-- A directory, when its entries are walked so. -/
lemma performs_dir {w : ω} {name : Name} {ino : ℕ} {es : List Entry}
    (hst : Stands K into w q (.dir name ino es))
    (hread : ReadsAll K into func n (into w q) (depth + 1) es) :
    Performs K into func (n + 1) w q depth (.dir name ino es) := by
  rintro s rfl hchain
  rw [Stands] at hst
  obtain ⟨hstat, hnames, hinto, -⟩ := hst
  rcases h : K.lstat s.cwd q with - | st
  · -- `lstat` fails
    rw [dopath_ns h, plan, h, perform_lstat, perform_call_last]
    simp [Proc.after, Proc.call, Proc.note, landing, Step.isEnter, acts, Step.act]
  obtain rfl := hstat st h
  by_cases hgo : (func s.data q (.D (Entry.dir name ino es).stat)).1 = 0
  · rcases ho : K.opendir s.cwd q with - | names
    · -- `opendir` fails
      rw [dopath_dnr h rfl hgo ho, plan, h, ho, perform_lstat, perform_indent,
        perform_call_go hgo, perform_call_last]
      simp [Proc.after, Proc.call, Proc.note, landing, Step.isEnter, acts, Step.act]
    · rw [perform_plan_dir h hgo ho] at hchain ⊢
      rw [dopath_dir h rfl hgo ho]
      rw [isChain_cons_fits rfl, isChain_cons_fits rfl, isChain_cons_fits rfl] at hchain
      rcases enter_fits hchain with ⟨hen, hrest⟩ | ⟨hen, rfl⟩
      · -- the process stands in the directory
        rw [hread (s.enter K func q (Entry.dir name ino es).stat depth) names hen (hnames _ ho)
          hrest, Option.map_some]
        have hleft (ps : List (Step ω)) : left K into (into s.cwd q)
            (.lstat s.cwd q :: .indent depth :: .call q (.D (Entry.dir name ino es).stat)
              :: .enter s.cwd q es :: ps) = left K into (into s.cwd q) ps := by
          rw [left_cons (entered_of_not_enter rfl), left_cons (entered_of_not_enter rfl),
            left_cons (entered_of_not_enter rfl),
            left_cons (p := .enter s.cwd q es) hen]
        rw [landing, if_pos (by rfl), if_pos hen, hleft]
        simp [Proc.after, Proc.enter, Proc.call, Proc.note, Proc.chdir, acts, Step.act,
          List.filterMap_cons, Kernel.back]
      · -- `chdir` has failed, and there is nothing in the directory
        have hcd : K.chdir s.cwd q = none := by
          rcases hcd : K.chdir s.cwd q with - | w'
          · rfl
          · rw [hcd, Option.getD_some] at hen
            exact absurd (hinto w' hcd) hen
        rw [readNames_dots (hnames _ ho), Option.map_some, landing, if_pos (by rfl), if_neg hen]
        simp [Proc.after, Proc.enter, Proc.call, Proc.note, Proc.chdir, planAll, acts, Step.act,
          Kernel.back, hcd]
  · -- the handler has ended the walk
    rw [dopath_stop h rfl hgo, plan, h, perform_lstat, perform_indent, perform_call_stop hgo]
    simp [Proc.after, Proc.call, Proc.note, landing, Step.isEnter, acts, Step.act]

/-- After an entry of a directory the process is in that directory, or one too high. -/
lemma landing_eq_left {w : ω} {e : Entry} {d : σ}
    (hback : e.stat.fmt = .dir → Returns K w q ∧ into w q ≠ w)
    (hchain : (perform func d (plan K into w q depth e)).1.IsChain (Fits K into)) :
    landing K into w q (perform func d (plan K into w q depth e)).1 =
      left K into w (perform func d (plan K into w q depth e)).1 := by
  by_cases hany : (perform func d (plan K into w q depth e)).1.any Step.isEnter = true
  · rw [landing, if_pos hany]
    obtain ⟨name, ino, es, st, names, rfl, hst, hgo, ho⟩ := any_isEnter_perform_plan hany
    obtain ⟨hret, hne⟩ := hback rfl
    rw [perform_plan_dir hst hgo ho] at hchain ⊢
    rw [isChain_cons_fits rfl, isChain_cons_fits rfl, isChain_cons_fits rfl] at hchain
    rcases enter_fits hchain with ⟨hen, -⟩ | ⟨hen, rfl⟩
    · -- `..` leads back to where the process was
      have hback : K.back (into w q) = w := by
        rcases hcd : K.chdir w q with - | w'
        · rw [hcd, Option.getD_none] at hen
          exact absurd hen.symm hne
        · rw [hcd, Option.getD_some] at hen
          rw [Kernel.back, ← hen, hret w' hcd, Option.getD_some]
      rw [if_pos hen, left, left]
      split_ifs
      · rw [hback]
      · exact hback
    · -- nothing is in the directory, so the failed `chdir` is the last step
      have hstray : Strays K into (.lstat w q :: .indent depth :: .call q (.D st) ::
          [.enter w q []]) := ⟨_, rfl, hen⟩
      rw [if_neg hen, planAll, perform_nil, left, if_pos hstray]
  · -- only a `chdir` can go astray
    have hno : ¬ Strays K into (perform func d (plan K into w q depth e)).1 := by
      rintro ⟨p, hp, hnot⟩
      refine hnot (entered_of_not_enter (Bool.eq_false_iff.mpr fun hen => hany ?_))
      exact List.any_eq_true.mpr ⟨p, List.mem_of_getLast? hp, hen⟩
    rw [landing, if_neg hany, left, if_neg hno]

/-- The entries of a directory, when each of them is walked so. -/
lemma readsAll {w : ω} {es : List Entry} (h : ∀ e ∈ es, Performs K into func n w e.name depth e)
    (hback : ∀ e ∈ es, e.stat.fmt = .dir → Returns K w e.name ∧ into w e.name ≠ w) :
    ReadsAll K into func n w depth es := by
  intro s names hs hnames hchain
  induction names generalizing es s with
  | nil =>
      obtain rfl : es = [] := List.map_eq_nil_iff.mp hnames.symm
      simp [readNames, planAll, Proc.after, left, acts, ← hs]
  | cons d names ih =>
      rw [readNames, if_neg (by simp)]
      by_cases hd : notDots d = true
      · rw [List.filter_cons_of_pos hd] at hnames
        cases es with
        | nil => cases hnames
        | cons e es =>
            rw [List.map_cons, List.cons.injEq] at hnames
            obtain ⟨rfl, hrest⟩ := hnames
            have hfirst := h e List.mem_cons_self s hs
            have hland : (perform func s.data (plan K into w e.name depth e)).1.IsChain
                (Fits K into) → landing K into w e.name
                (perform func s.data (plan K into w e.name depth e)).1 =
                  left K into w (perform func s.data (plan K into w e.name depth e)).1 :=
              landing_eq_left (hback e List.mem_cons_self)
            rw [if_pos hd]
            rw [planAll] at hchain ⊢
            by_cases hv : (perform func s.data (plan K into w e.name depth e)).2.1 = 0
            · rw [perform_append_go hv] at hchain ⊢
              obtain ⟨hc₁, hc₂, hjoin⟩ := List.isChain_append.mp hchain
              rw [hfirst hc₁, hland hc₁, Option.bind_some, Proc.after, hv]
              cases es with
              | nil =>
                  rw [readNames_dots hrest]
                  simp [planAll, Proc.after]
              | cons e' es =>
                  -- an `lstat` follows, so the process stands in the directory
                  have hcwd := left_of_fits fun p hp => hjoin p hp _ head_planAll
                  rw [ih (fun f hf => h f (List.mem_cons_of_mem _ hf))
                    (fun f hf => hback f (List.mem_cons_of_mem _ hf)) _ hcwd hrest hc₂]
                  have hne : (perform func (perform func s.data (plan K into w e.name depth e)).2.2
                      (planAll K into w depth (e' :: es))).1 ≠ [] := by
                    exact fun hnil => List.cons_ne_nil _ _ (eq_nil_of_perform_planAll hnil)
                  simp only [Proc.after, left_congr (strays_append hne), acts,
                    List.filterMap_append, List.append_assoc]
            · -- the handler has ended the walk
              rw [perform_append_stop hv] at hchain ⊢
              rw [hfirst hchain, hland hchain, Option.bind_some, Proc.after, readNames_stop hv]
      · rw [List.filter_cons_of_neg hd] at hnames
        rw [if_neg hd]
        exact ih h hback s hs hnames hchain

/-- **The recursive walk performs the plan** of the tree it is given, with turns enough,
where the steps of the plan fit. -/
theorem dopath_plan (func : Handler σ) (e : Entry) :
    ∀ {w : ω} {q : Path} (depth : ℕ), Stands K into w q e →
    ∃ N, ∀ n ≥ N, Performs K into func n w q depth e := by
  induction e using Entry.induct with
  | file name fmt ino =>
      intro w q depth h
      refine ⟨1, fun n hn => ?_⟩
      obtain ⟨m, rfl⟩ : ∃ m, n = m + 1 := Nat.exists_eq_succ_of_ne_zero (by omega)
      exact performs_file h
  | dir name ino es ih =>
      intro w q depth h
      have hall : StandsAll K into (into w q) es := by
        rw [Stands] at h
        exact h.2.2.2
      rw [standsAll_iff] at hall
      obtain ⟨N, hN⟩ := exists_turns fun e he => ih e he (depth + 1) (hall e he).1
      refine ⟨N + 1, fun n hn => ?_⟩
      obtain ⟨m, rfl⟩ : ∃ m, n = m + 1 := Nat.exists_eq_succ_of_ne_zero (by omega)
      exact performs_dir h (readsAll (hN m (by omega)) fun e he => (hall e he).2)

end Walk

end DirWalk

end OperatingSys
