import OperatingSys.DirWalk.Plan

/-!
The calls of the handler in the recursive walk.

Where each `chdir` succeeds the handler is called for the tree in pre-order, up to its
first value that is not `0`, which is what the walk returns (`dopath_calls`).
-/

namespace OperatingSys

namespace DirWalk

variable {ω σ : Type*}

/-- The calls of the handler among what is recorded. -/
def callsOf (tr : List (Act ω)) : List (Path × Ftw) :=
  tr.filterMap fun
    | .call name t => some (name, t)
    | .lstat .. | .indent .. => none

/-- The calls up to the first that returns no `0`, the value returned, and what the handler
keeps. -/
def handled (func : Handler σ) : σ → List (Path × Ftw) → List (Path × Ftw) × ℤ × σ
  | d, [] => ([], 0, d)
  | d, c :: cs =>
      let (v, d') := func d c.1 c.2
      if v ≠ 0 then ([c], v, d')
      else
        let r := handled func d' cs
        (c :: r.1, r.2)

/-- The handler sees of a plan its calls. -/
lemma handled_callsOf (func : Handler σ) (d : σ) (ps : List (Step ω)) :
    handled func d (callsOf (acts ps)) =
      (callsOf (acts (perform func d ps).1), (perform func d ps).2) := by
  induction ps generalizing d with
  | nil => rfl
  | cons p ps ih =>
      cases p with
      | call q t =>
          by_cases hv : (func d q t).1 = 0
          · have hcut : handled func d (callsOf (acts (.call q t :: ps))) =
                ((q, t) :: (handled func (func d q t).2 (callsOf (acts ps))).1,
                  (handled func (func d q t).2 (callsOf (acts ps))).2) := if_neg (not_not.mpr hv)
            rw [hcut, ih, perform_call_go hv]
            rfl
          · have hcut : handled func d (callsOf (acts (.call q t :: ps))) =
                ([(q, t)], func d q t) := if_pos hv
            rw [hcut, perform_call_stop hv]
            rfl
      | lstat w q => exact ih d
      | indent depth => exact ih d
      | enter w q es => exact ih d

/-- The steps performed are steps of the plan. -/
lemma perform_isPrefix (func : Handler σ) (d : σ) (ps : List (Step ω)) :
    (perform func d ps).1 <+: ps := by
  induction ps generalizing d with
  | nil => exact List.prefix_rfl
  | cons p ps ih =>
      cases p with
      | call q t =>
          by_cases hv : (func d q t).1 = 0
          · rw [perform_call_go hv]
            exact List.cons_prefix_cons.mpr ⟨rfl, ih _⟩
          · rw [perform_call_stop hv]
            exact List.cons_prefix_cons.mpr ⟨rfl, List.nil_prefix⟩
      | lstat w q => exact List.cons_prefix_cons.mpr ⟨rfl, ih d⟩
      | indent depth => exact List.cons_prefix_cons.mpr ⟨rfl, ih d⟩
      | enter w q es => exact List.cons_prefix_cons.mpr ⟨rfl, ih d⟩

/-- Where each `chdir` leads where it should, the steps fit. -/
lemma isChain_of_entered {K : Kernel ω} {into : ω → Path → ω} {ps : List (Step ω)}
    (h : ∀ p ∈ ps, p.Entered K into) : ps.IsChain (Fits K into) := by
  induction ps with
  | nil => exact .nil
  | cons p ps ih =>
      refine List.isChain_cons.mpr
        ⟨fun p' _ => ?_, ih fun p' hp' => h p' (List.mem_cons_of_mem _ hp')⟩
      have hp := h p List.mem_cons_self
      cases p with
      | enter w q es => cases p' with
        | lstat home name => exact Or.inl hp
        | indent | call | enter => trivial
      | lstat | indent | call => trivial

/-- **The calls of the handler**: where each directory of the plan can be changed to, the
handler is called as the plan of the tree has it up to the first call that returns no `0`,
and the walk returns that value, or `0` where there is none. -/
theorem dopath_calls (K : Kernel ω) (into : ω → Path → ω) (func : Handler σ) {w : ω} {q : Path}
    {e : Entry} (depth : ℕ) (hst : Stands K into w q e)
    (hcd : ∀ home name es, .enter home name es ∈ plan K into w q depth e →
      K.chdir home name = some (into home name)) :
    ∃ N, ∀ n ≥ N, ∀ s : Proc ω σ, s.cwd = w → ∃ s',
      dopath K func n s q depth =
          some ((handled func s.data (callsOf (acts (plan K into w q depth e)))).2.1, s')
        ∧ callsOf s'.trace = callsOf s.trace
            ++ (handled func s.data (callsOf (acts (plan K into w q depth e)))).1 := by
  classical
  obtain ⟨N, hN⟩ := dopath_plan func e depth hst
  refine ⟨N, fun n hn s hs => ?_⟩
  have hfits : (perform func s.data (plan K into w q depth e)).1.IsChain (Fits K into) := by
    refine isChain_of_entered fun p hp => ?_
    have hplan := (perform_isPrefix func s.data _).subset hp
    cases p with
    | enter home name es => rw [Step.Entered, hcd home name es hplan, Option.getD_some]
    | lstat | indent | call => trivial
  have hrun := hN n hn s hs hfits
  rw [handled_callsOf]
  refine ⟨_, hrun, ?_⟩
  exact List.filterMap_append

/-- A start `s` with the one file `f` in it, which can be changed to or not. Its directory
is `true`, and `false` is the one it is in. -/
def oneFile (searchable : Bool) : Kernel Bool where
  lstat w q :=
    if w = false ∧ q = [115] then some ⟨.dir, 1⟩
    else if w = true ∧ q = [102] then some ⟨.reg, 2⟩ else none
  opendir w q := if w = false ∧ q = [115] then some [[46], [102], [46, 46]] else none
  chdir w q :=
    if w = false ∧ q = [115] ∧ searchable then some true
    else if w = true ∧ q = [46, 46] then some false else none

/-- The tree of `oneFile`. -/
def oneFileTree : Entry :=
  .dir (.single 115 (by decide)) 1 [.file (.single 102 (by decide)) ⟨.reg, by decide⟩ 2]

lemma oneFile_stands (searchable : Bool) :
    Stands (oneFile searchable) (fun _ _ => true) false [115] oneFileTree := by
  simp [oneFileTree, Stands, StandsAll, oneFile, Entry.stat, Entry.name, notDots, eq_comm]

/-- A start `s` with the directory `d`, in which there is a file `b`, and a file `f` that cannot
be `lstat`-ed. The working directory is counted by its depth. -/
def nested : Kernel ℕ where
  lstat w q :=
    if w = 0 ∧ q = [115] then some ⟨.dir, 1⟩ else if w = 1 ∧ q = [100] then some ⟨.dir, 2⟩
    else if w = 2 ∧ q = [98] then some ⟨.reg, 3⟩ else none
  opendir w q :=
    if w = 0 ∧ q = [115] then some [[46], [46, 46], [100], [102]]
    else if w = 1 ∧ q = [100] then some [[46], [98], [46, 46]] else none
  chdir w q :=
    if w = 0 ∧ q = [115] then some 1 else if w = 1 ∧ q = [100] then some 2
    else if q = [46, 46] then some (w - 1) else none

/-- The tree of `nested`. -/
def nestedTree : Entry :=
  .dir (.single 115 (by decide)) 1
    [.dir (.single 100 letter_d) 2 [.file (.single 98 letter_b) ⟨.reg, reg_ne_dir⟩ 3],
      .file (.single 102 (by decide)) ⟨.reg, reg_ne_dir⟩ 4]

/-- The walk of `nested` with `counter`, which ends it at `f`. -/
theorem dopath_calls_nested : ∃ N, ∀ n ≥ N, ∀ s : Proc ℕ Counts, s.cwd = 0 → ∃ s',
    dopath nested counter n s [115] 0 =
        some ((handled counter s.data (callsOf (acts (plan nested (fun w _ => w + 1) 0
          [115] 0 nestedTree)))).2.1, s')
      ∧ callsOf s'.trace = callsOf s.trace ++ (handled counter s.data (callsOf (acts (plan
          nested (fun w _ => w + 1) 0 [115] 0 nestedTree)))).1 :=
  dopath_calls nested (fun w _ => w + 1) counter 0
    (by simp [nestedTree, Stands, StandsAll, nested, Entry.stat, Entry.name, notDots, Returns,
      eq_comm])
    (by
      intro home name es h
      simp only [nestedTree, plan, planAll, nested, Entry.name] at h
      have hplace : home = 0 ∧ name = [115] ∨ home = 1 ∧ name = [100] := by
        simp at h
        tauto
      rcases hplace with ⟨rfl, rfl⟩ | ⟨rfl, rfl⟩ <;> rfl)

end DirWalk

end OperatingSys
