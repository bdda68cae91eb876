import OperatingSys.DirWalk.Coverage

/-!
The errors the iterative walk reports.

An entry that cannot be `lstat`-ed is reported, a directory that cannot be opened is passed
over. So the reports are as many as the failures exactly when every directory that the walk
opens, the start among them, can be opened and no report goes outside the `buf` of `err_doit`
(`reports_all_iff`).
-/

namespace OperatingSys

namespace DirWalk

/-- The types with which errors are reported. -/
def Ftw.isError : Ftw → Bool
  | .NS | .DNR => true
  | .F _ | .D _ => false

/-- The number of errors that were reported. -/
def errors (tr : List Event) : ℕ := (calls tr).countP fun c => c.2.isError

variable (F : Files)

/-- An entry that could not be `lstat`-ed. -/
def unstatted (x : Path × Entry) : Bool := (F.lstat x.1).isNone

/-- A directory that was `lstat`-ed and could not be opened. -/
def unopened (x : Path × Entry) : Bool :=
  decide (x.2.stat.fmt = .dir) && (F.lstat x.1).isSome && (F.opendir x.1).isNone

/-- The walk ends, and has reported as many errors as there were entries reached that could
not be `lstat`-ed and directories reached, with the start, that could not be opened. -/
def ReportsAll (A : Malloc) (E : Errors) (start : Path) (es : List Entry) : Prop :=
  ∃ (N : ℕ) (s : World) (L : List (Path × Entry)),
    (∀ n ≥ N, myftwN F A E n none start = some (1, s))
    ∧ (∀ q e, (q, e) ∈ L ↔ Reached F start es q e) ∧ (L.map Prod.fst).Nodup
    ∧ errors s.trace = L.countP (unstatted F)
        + ((if (F.opendir start).isNone then 1 else 0) + L.countP (unopened F))

variable {F}

/-- What is reported as an error is that `lstat` failed. -/
lemma report_isError (q : Path) : (report F q).isError = (F.lstat q).isNone := by
  rw [report]
  cases F.lstat q with
  | none => rfl
  | some st =>
      dsimp only
      split_ifs <;> rfl

/-- The errors among the calls of `myfunc` for some entries. -/
lemma errors_eq {tr : List Event} {L : List (Path × Entry)}
    (h : calls tr = L.map fun x => (x.1, report F x.1)) :
    errors tr = L.countP (unstatted F) := by
  rw [errors, h, List.countP_map]
  exact List.countP_congr fun x _ => by
    simp only [Function.comp_apply, report_isError, unstatted]

/-- No directory that was opened failed to open. -/
lemma unopened_eq_zero_iff {start : Path} {es : List Entry} {L : List (Path × Entry)}
    (hL : ∀ q e, (q, e) ∈ L ↔ Reached F start es q e) :
    (if (F.opendir start).isNone then 1 else 0) + L.countP (unopened F) = 0 ↔
      (F.opendir start).isSome ∧ ∀ q e, Reached F start es q e → e.stat.fmt = .dir →
        (F.lstat q).isSome → (F.opendir q).isSome := by
  rw [Nat.add_eq_zero_iff, List.countP_eq_zero]
  refine and_congr ?_ ⟨fun h q e hq hdir hst => ?_, fun h x hx => ?_⟩
  · cases F.opendir start <;> simp
  · by_contra ho
    refine h (q, e) ((hL q e).mpr hq) ?_
    rw [unopened, hdir, hst, Option.not_isSome_iff_eq_none.mp ho]
    rfl
  · rw [unopened]
    by_contra hun
    simp only [Bool.and_eq_true, decide_eq_true_eq] at hun
    have ho := h x.1 x.2 ((hL _ _).mp hx) hun.1.1 hun.1.2
    rw [Option.isNone_iff_eq_none.mp hun.2] at ho
    cases ho

variable {E : Errors}

/-- A walk that reports all errors has come to its end. -/
lemma ReportsAll.fits {A : Malloc} {start : Path} {es : List Entry}
    (h : ReportsAll F A E start es) (hstat : (F.lstat start).isSome) (hl : Lists F start es) :
    ∀ q e, Reached F start es q e → F.lstat q = none → E.Fits q := by
  obtain ⟨N, s, L, hrun, -⟩ := h
  exact fits_of_returns (hrun N le_rfl) hstat hl

/-- A walk that reports all errors could open every directory. -/
lemma ReportsAll.opens {A : Malloc} {start : Path} {st : Stat} {es : List Entry}
    (h : ReportsAll F A E start es) (hst : F.lstat start = some st) (hl : Lists F start es)
    (honce : ((found F ⟨start, 0, st.ino, es⟩).map Prod.fst).Nodup) :
    (F.opendir start).isSome ∧ ∀ q e, Reached F start es q e → e.stat.fmt = .dir →
      (F.lstat q).isSome → (F.opendir q).isSome := by
  obtain ⟨N, s, hrun, -, hcalls⟩ :=
    myftwN_calls A hst hl (h.fits (Option.isSome_of_eq_some hst) hl)
  obtain ⟨N', s', L, hrun', hL, honce', herr⟩ := h
  obtain rfl : s' = s := by
    have hsame := (hrun' (max N N') (le_max_right _ _)).symm.trans
      (hrun (max N N') (le_max_left _ _))
    exact congrArg Prod.snd (Option.some.inj hsame)
  have hperm : (found F ⟨start, 0, st.ino, es⟩).Perm L := by
    refine (List.perm_ext_iff_of_nodup (.of_map _ honce) (.of_map _ honce')).mpr ?_
    rintro ⟨q, e⟩
    exact mem_found_iff.trans (hL q e).symm
  rw [errors_eq hcalls, hperm.countP_eq] at herr
  refine (unopened_eq_zero_iff hL).mp ?_
  omega

/-- **The errors of the iterative walk** are all reported exactly when every directory that
it opens can be opened and every path of which `lstat` fails is short enough for its report. -/
theorem reports_all_iff (F : Files) (A : Malloc) (E : Errors) (start : Path) (name : Name)
    (ino : ℕ) (es : List Entry) (hserves : Serves F start (.dir name ino es))
    (hstat : (F.lstat start).isSome) (hdist : Distinct (.dir name ino es)) :
    ReportsAll F A E start es ↔
      ((F.opendir start).isSome ∧ ∀ q e, Reached F start es q e → e.stat.fmt = .dir →
        (F.lstat q).isSome → (F.opendir q).isSome)
      ∧ ∀ q e, Reached F start es q e → F.lstat q = none → E.Fits q := by
  obtain ⟨st, hst⟩ := Option.isSome_iff_exists.mp hstat
  rw [Distinct] at hdist
  have honce : ((found F ⟨start, 0, st.ino, es⟩).map Prod.fst).Nodup :=
    found_nodup hdist.1 hdist.2
  refine ⟨fun h => ⟨h.opens hst hserves.lists honce, h.fits hstat hserves.lists⟩, fun h => ?_⟩
  obtain ⟨hopens, hfit⟩ := h
  obtain ⟨N, s, hrun, -, hcalls⟩ := myftwN_calls A hst hserves.lists hfit
  have hzero := (unopened_eq_zero_iff (L := found F ⟨start, 0, st.ino, es⟩)
    fun q e => mem_found_iff).mpr hopens
  exact ⟨N, s, _, hrun, fun q e => mem_found_iff, honce,
    by rw [hzero, errors_eq hcalls, Nat.add_zero]⟩

/-- A start `s` with a directory `d` in it that can be opened or not, and is empty. -/
def barred (opens : Bool) : Files where
  lstat q :=
    if q = [115] then some ⟨.dir, 1⟩ else if q = [115, 47, 100] then some ⟨.dir, 2⟩ else none
  opendir q :=
    if q = [115] then some [[46], [100], [46, 46]]
    else if q = [115, 47, 100] ∧ opens then some [[46], [46, 46]] else none

/-- What `barred` has in its start. -/
def barredEntries : List Entry := [.dir (.single 100 (by decide)) 2 []]

lemma barred_serves (opens : Bool) :
    Serves (barred opens) [115] (.dir (.single 115 (by decide)) 1 barredEntries) := by
  have hd : ∀ names, (barred opens).opendir [115, 47, 100] = some names →
      names.filter notDots = [] := by
    cases opens <;> simp [barred, notDots]
  simp only [Serves, ServesAll, barredEntries, Entry.stat, Entry.name, joinPath, Name.single_bytes,
    List.cons_append, List.nil_append, and_true]
  refine ⟨fun st hst => (Option.some.inj hst).symm, fun names ho => ?_,
    fun st hst => (Option.some.inj hst).symm, hd⟩
  obtain rfl : [[46], [100], [46, 46]] = names := Option.some.inj ho
  rfl

lemma barred_distinct : Distinct (.dir (.single 115 (by decide)) 1 barredEntries) := by
  simp [Distinct, DistinctAll, barredEntries, Entry.name]

/-- The criterion for a directory that can be opened. -/
theorem reports_all_iff_opened : ReportsAll (barred true) .bump denied [115] barredEntries ↔
    (((barred true).opendir [115]).isSome ∧
      ∀ q e, Reached (barred true) [115] barredEntries q e → e.stat.fmt = .dir →
        ((barred true).lstat q).isSome → ((barred true).opendir q).isSome)
    ∧ ∀ q e, Reached (barred true) [115] barredEntries q e → (barred true).lstat q = none →
        denied.Fits q :=
  reports_all_iff (barred true) .bump denied [115] (.single 115 (by decide)) 1 barredEntries
    (barred_serves true) rfl barred_distinct

/-- A directory that cannot be opened is not reported. -/
theorem barred_not_reported : ¬ ReportsAll (barred false) .bump denied [115] barredEntries := by
  intro h
  have hdist := barred_distinct
  rw [Distinct] at hdist
  have hstart : (barred false).lstat [115] = some ⟨.dir, 1⟩ := rfl
  have hopens := h.opens hstart (barred_serves false).lists
    (found_nodup hdist.1 hdist.2)
  have hd := hopens.2 [115, 47, 100] (.dir (.single 100 (by decide)) 2 [])
    (.child rfl (List.mem_singleton_self _)) rfl rfl
  cases hd

end DirWalk

end OperatingSys
