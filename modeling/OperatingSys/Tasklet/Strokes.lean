import OperatingSys.Foundations.Coalesced
import OperatingSys.Tasklet.LifeCycle

/-!
The key strokes that the tasklet prints.

The interrupts leave their bytes in the one global `scancode`, and a tasklet that is scheduled
is not scheduled once more. So the strokes coalesce (`reads_of_run`): a stroke may go unprinted
and may be printed twice, and the last one is printed before the tasklet rests
(`strokes_printed`).
-/

namespace OperatingSys

namespace Tasklet

open WorkQueue (getAscii)

/-- The byte of an interrupt that comes after `tasklet_init`. -/
def stroke (q : Move × LifeEvent) : Option (BitVec 8) :=
  match q with
  | (.interrupt data, .handled) => some data
  | _ => none

/-- What a run of the tasklet prints: nothing for the release of a key. -/
def LifeEvent.printed : LifeEvent → Option (Option (ℕ × Char))
  | .prints out => some out
  | .proceeds | .frees _ | .handled | .stray | .starts => none

/-- The strokes of a run of the module. -/
def strokes (tr : List (Move × LifeEvent)) : List (BitVec 8) := tr.filterMap stroke

/-- What the runs of the tasklet have printed. -/
def prints (tr : List (Move × LifeEvent)) : List (Option (ℕ × Char)) :=
  tr.filterMap fun q => q.2.printed

/-- What a tasklet prints that reads this byte. -/
def shown (data : BitVec 8) : Option (ℕ × Char) :=
  if data.toNat < 103 then some (data.toNat, getAscii (data.setWidth 32)) else none

lemma strokes_snoc (tr : List (Move × LifeEvent)) (q : Move × LifeEvent) :
    strokes (tr ++ [q]) = strokes tr ++ (stroke q).toList :=
  filterMap_snoc _ tr q

lemma prints_snoc (tr : List (Move × LifeEvent)) (q : Move × LifeEvent) :
    prints (tr ++ [q]) = prints tr ++ q.2.printed.toList :=
  filterMap_snoc _ tr q

/-! ### What a step does to the tasklet -/

variable {s s' : Module} {m : Move} {e : LifeEvent}

/-- What a step of the module can be, for the strokes. -/
inductive StrokeStep (s : Module) : Move → LifeEvent → Module → Prop
  /-- The tasklet and `scancode` stay, but for the count. -/
  | quiet {m : Move} {e : LifeEvent} (s' : Module) (hm : stroke (m, e) = none)
      (he : e.printed = none) (hf : s'.tasklet.func = s.tasklet.func)
      (hp : s'.tasklet.scheduled = s.tasklet.scheduled)
      (hr : s'.tasklet.running = s.tasklet.running) (hc : s'.scancode = s.scancode) :
      StrokeStep s m e s'
  | init (ok : Bool) (hf : s.tasklet.func = false) :
      StrokeStep s (.proceed ok) .proceeds { s with tasklet := .init, place := .loaded }
  | stray (data : BitVec 8) (hf : s.tasklet.func = false) : StrokeStep s (.interrupt data) .stray
      { s with scancode := data, tasklet := s.tasklet.schedule }
  | handled (data : BitVec 8) (hf : s.tasklet.func = true) :
      StrokeStep s (.interrupt data) .handled
        { s with scancode := data, tasklet := s.tasklet.schedule }
  | starts (hf : s.tasklet.func = true) (hp : s.tasklet.scheduled = true)
      (hr : s.tasklet.running = false) : StrokeStep s .start .starts
        { s with tasklet := { s.tasklet with scheduled := false, running := true } }
  | finishes (hr : s.tasklet.running = true) :
      StrokeStep s .finish (.prints (myTaskletFunction s))
        { s with tasklet := { s.tasklet with running := false } }

lemma strokeStep_of_proceed {ok : Bool} (hin : InOrder s) (h : proceed s ok = some (e, s')) :
    StrokeStep s (.proceed ok) e s' := by
  rw [proceed] at h
  cases hp : s.place with
  | requestIrq =>
      rw [hp] at h
      cases h
      exact .quiet _ rfl rfl (by cases ok <;> rfl) (by cases ok <;> rfl) (by cases ok <;> rfl)
        (by cases ok <;> rfl)
  | taskletInit =>
      rw [hp] at h
      cases h
      refine .init ok ?_
      rw [InOrder, hp] at hin
      exact congrArg (fun q => q.2.1) hin
  | loaded | failed | gone =>
      rw [hp] at h
      cases h
  | freeIrq | disable | freeIrqDevId =>
      rw [hp] at h
      cases h
      exact .quiet _ rfl rfl rfl rfl rfl rfl
  | unlockWait | kill =>
      rw [hp] at h
      dsimp only at h
      split_ifs at h
      cases h
      exact .quiet _ rfl rfl rfl rfl rfl rfl

lemma strokeStep_of_step (hin : InOrder s) (h : life.step s m = some (e, s')) :
    StrokeStep s m e s' := by
  cases m with
  | proceed ok => exact strokeStep_of_proceed hin h
  | unload =>
      simp only [life] at h
      split_ifs at h
      cases h
      exact .quiet _ rfl rfl rfl rfl rfl rfl
  | interrupt data =>
      simp only [life, interrupt, myIrqHandler] at h
      split_ifs at h with hirqs hf
      · cases h
        exact .handled data hf
      · cases h
        exact .stray data (Bool.eq_false_iff.mpr hf)
  | start =>
      obtain ⟨t, ht, hr⟩ := Option.map_eq_some_iff.mp h
      cases hr
      rw [TaskletStruct.start] at ht
      split_ifs at ht with hgo
      cases ht
      exact .starts hgo.1 hgo.2.1 (Bool.eq_false_iff.mpr hgo.2.2.1)
  | finish =>
      simp only [life] at h
      split_ifs at h with hr
      cases h
      exact .finishes hr

/-- The order of the module is kept by every step. -/
lemma InOrder.step (hin : InOrder s) (h : life.step s m = some (e, s')) : InOrder s' := by
  cases m with
  | proceed ok => exact (hin.proceed h).1
  | interrupt data => exact (hin.interrupt h).1
  | unload | start | finish =>
      obtain ⟨hshape, hp, -⟩ := life_step_other h (by simp)
      rw [InOrder, hshape, hin]
      rcases hp with hp | ⟨hp, hp'⟩
      · rw [hp]
      · rw [hp, hp']
        rfl

/-! ### The strokes coalesce -/

/-- **The invariant**: since `tasklet_init` the strokes have coalesced in `scancode`, and before
it the tasklet has not run. -/
structure Kept (tr : List (Move × LifeEvent)) (s : Module) (ys : List (BitVec 8)) : Prop where
  prints : prints tr = ys.map shown
  reads : s.tasklet.func = true →
    Coalesced (strokes tr) ys s.tasklet.scheduled s.tasklet.running
      ∧ ∀ x ∈ (strokes tr).getLast?, s.scancode = x
  before : s.tasklet.func = false → strokes tr = [] ∧ ys = [] ∧ s.tasklet.running = false

variable {tr : List (Move × LifeEvent)} {ys : List (BitVec 8)}

lemma kept_unloaded : Kept [] unloaded [] := ⟨rfl, nofun, fun _ => ⟨rfl, rfl, rfl⟩⟩

/-- A step that neither takes a stroke nor prints. -/
lemma Kept.snoc (h : Kept tr s ys) (hm : stroke (m, e) = none) (he : e.printed = none) :
    Kept (tr ++ [(m, e)]) s ys := by
  have hstrokes : strokes (tr ++ [(m, e)]) = strokes tr := by
    rw [strokes_snoc, hm, Option.toList_none, List.append_nil]
  refine ⟨?_, ?_, ?_⟩
  · rw [prints_snoc, he, Option.toList_none, List.append_nil, h.prints]
  · rw [hstrokes]
    exact h.reads
  · rw [hstrokes]
    exact h.before

/-- What is kept is read off the tasklet and `scancode`. -/
lemma Kept.of_eq (h : Kept tr s ys) (hf : s'.tasklet.func = s.tasklet.func)
    (hp : s'.tasklet.scheduled = s.tasklet.scheduled)
    (hr : s'.tasklet.running = s.tasklet.running) (hc : s'.scancode = s.scancode) :
    Kept tr s' ys := by
  refine ⟨h.prints, ?_, ?_⟩
  · rw [hf, hp, hr, hc]
    exact h.reads
  · rw [hf, hr]
    exact h.before

/-- A step keeps it. -/
lemma Kept.step (h : Kept tr s ys) (hs : StrokeStep s m e s') :
    ∃ ys', Kept (tr ++ [(m, e)]) s' ys' := by
  cases hs with
  | quiet _ hm he hf hp hr hc => exact ⟨ys, (h.snoc hm he).of_eq hf hp hr hc⟩
  | init ok hf =>
      have hsnoc : Kept (tr ++ [(.proceed ok, .proceeds)]) s ys := h.snoc rfl rfl
      obtain ⟨hnil, rfl, -⟩ := hsnoc.before hf
      refine ⟨[], hsnoc.prints, fun _ => ?_, nofun⟩
      rw [hnil]
      exact ⟨.nil, nofun⟩
  | stray data hf =>
      have hsnoc : Kept (tr ++ [(.interrupt data, .stray)]) s ys := h.snoc rfl rfl
      exact ⟨ys, hsnoc.prints, fun hf' => absurd (hf.symm.trans hf') Bool.false_ne_true,
        fun _ => hsnoc.before hf⟩
  | handled data hf =>
      have hstrokes : strokes (tr ++ [(.interrupt data, .handled)]) = strokes tr ++ [data] :=
        strokes_snoc tr _
      refine ⟨ys, ?_, fun _ => ?_, fun hf' => absurd (hf.symm.trans hf') (by simp)⟩
      · rw [prints_snoc]
        exact (List.append_nil _).trans h.prints
      · rw [hstrokes, List.getLast?_concat]
        exact ⟨(h.reads hf).1.request data, fun x hx => Option.some.inj hx⟩
  | starts hf hp hr =>
      have hsnoc : Kept (tr ++ [(.start, .starts)]) s ys := h.snoc rfl rfl
      obtain ⟨hreads, hlast⟩ := hsnoc.reads hf
      rw [hp, hr] at hreads
      exact ⟨ys, hsnoc.prints, fun _ => ⟨hreads.start, hlast⟩,
        fun hf' => absurd (hf.symm.trans hf') (by simp)⟩
  | finishes hr =>
      have hf : s.tasklet.func = true := by
        by_contra hf
        rw [(h.before (Bool.eq_false_iff.mpr hf)).2.2] at hr
        cases hr
      have hstrokes : strokes (tr ++ [(.finish, .prints (myTaskletFunction s))]) = strokes tr :=
        (strokes_snoc tr _).trans (List.append_nil _)
      obtain ⟨hreads, hlast⟩ := h.reads hf
      rw [hr] at hreads
      -- the tasklet reads the byte of the last stroke
      obtain ⟨xs, x, hx⟩ := hreads.exists_snoc_of_cleared
      rw [hx, List.getLast?_concat] at hlast
      have hscan : s.scancode = x := hlast x rfl
      rw [hx] at hreads
      refine ⟨ys ++ [x], ?_, fun _ => ?_,
        fun hf' => absurd (hf.symm.trans hf') (by simp)⟩
      · rw [prints_snoc, h.prints, List.map_append, myTaskletFunction, hscan]
        rfl
      · rw [hstrokes, hx, List.getLast?_concat]
        exact ⟨hreads.read, hlast⟩

lemma reads_of_run (h : life.Run unloaded tr s) : ∃ ys, Kept tr s ys := by
  have hboth : InOrder s ∧ ∃ ys, Kept tr s ys :=
    h.induct_trace (I := fun tr s => InOrder s ∧ ∃ ys, Kept tr s ys)
      ⟨inOrder_unloaded, [], kept_unloaded⟩ fun tr s m e s' ⟨hin, ys, hk⟩ hs =>
        ⟨hin.step hs, hk.step (strokeStep_of_step hin hs)⟩
  exact hboth.2

/-- **The strokes that are printed**: in every run of the module the tasklet prints the strokes
since `tasklet_init` in their order, each of them at most twice and in all not more often than
there are strokes, and a tasklet at rest has printed the last one. -/
theorem strokes_printed (h : life.Run unloaded tr s) :
    ∃ c : List ℕ, c.length = (strokes tr).length
      ∧ prints tr = timesOver ((strokes tr).map shown) c ∧ (∀ n ∈ c, n ≤ 2)
      ∧ c.sum ≤ (strokes tr).length
      ∧ (s.tasklet.scheduled = false → s.tasklet.running = false →
        ∀ n ∈ c.getLast?, 1 ≤ n) := by
  obtain ⟨ys, hk⟩ := reads_of_run h
  cases hf : s.tasklet.func with
  | true =>
      obtain ⟨c, hlen, hys, htwice, hsum, hlast⟩ := (hk.reads hf).1.exists_counts
      refine ⟨c, hlen, ?_, htwice, hsum, hlast⟩
      rw [hk.prints, hys, map_timesOver]
  | false =>
      obtain ⟨hnil, rfl, -⟩ := hk.before hf
      refine ⟨[], ?_, ?_, nofun, Nat.zero_le _, nofun⟩
      · rw [hnil]
        rfl
      · rw [hk.prints, hnil]
        rfl

/-- The second of three keys is pressed while the tasklet runs for the first, and the third
before it runs again. -/
theorem strokes_printed_three : ∃ tr s, life.Run unloaded tr s
    ∧ prints tr = [some (0x30, 'b'), some (0x2e, 'c')] ∧ ∃ c : List ℕ, c.length = 3
      ∧ prints tr = timesOver ((strokes tr).map shown) c ∧ ∀ n ∈ c.getLast?, 1 ≤ n := by
  obtain ⟨tr, s, h, hp⟩ := Machine.exists_run (show (life.exec [.proceed true, .proceed true,
    .interrupt 0x1e, .start, .interrupt 0x30, .finish, .interrupt 0x2e, .start, .finish]
    unloaded).any (fun r => prints r.1 = [some (0x30, 'b'), some (0x2e, 'c')]
      && strokes r.1 = [0x1e, 0x30, 0x2e] && r.2.tasklet.scheduled = false
      && r.2.tasklet.running = false) = true by decide +kernel)
  simp only [Bool.and_eq_true, decide_eq_true_eq] at hp
  obtain ⟨⟨⟨hprints, hstrokes⟩, hsched⟩, hrun⟩ := hp
  obtain ⟨c, hlen, hspread, -, -, hlast⟩ := strokes_printed h
  rw [hstrokes] at hlen
  exact ⟨tr, s, h, hprints, c, hlen, hspread, hlast hsched hrun⟩

end Tasklet

end OperatingSys
