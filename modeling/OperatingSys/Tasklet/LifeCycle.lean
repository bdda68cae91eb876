import OperatingSys.WorkQueue.Basic

/-!
The life of the module `os_02/lab_09/src/tasklet/tasklet.c`, from `my_tasklet_init` to the
end of `my_tasklet_exit`.

The interrupt is requested before the tasklet is initialised. The exit releases the
interrupt, disables the tasklet and then waits in `tasklet_kill` until it is no longer
scheduled; after that it releases an interrupt that was never requested. So a run is sound
exactly when no interrupt comes before `tasklet_init`, the tasklet is not scheduled when
`tasklet_disable` returns, and the last statement of the exit is not come to
(`tasklet_sound_iff`).

The module decodes scan codes with a `get_ascii` of its own, the same one as that of
`workseq.c`.
-/

namespace OperatingSys

namespace Tasklet

open WorkQueue (getAscii IRQ)

/-! ### The tasklet and the handler -/

/-- What is passed as `dev_id`: the address of the handler, or that of `dev_id`. -/
inductive DevId where
  | myIrqHandler | devId
  deriving DecidableEq, Repr

/-- `struct tasklet_struct`: whether it has been initialised with its function, the two
bits of its state, and its count. -/
structure TaskletStruct where
  func : Bool
  scheduled : Bool
  running : Bool
  count : ℕ

namespace TaskletStruct

/-- `tasklet_init`. -/
def init : TaskletStruct := ⟨true, false, false, 0⟩

/-- `tasklet_schedule`. -/
def schedule (t : TaskletStruct) : TaskletStruct := { t with scheduled := true }

/-- The count goes up in `tasklet_disable`. -/
def disable (t : TaskletStruct) : TaskletStruct := { t with count := t.count + 1 }

/-- The tasklet is started: it was scheduled and is not disabled. -/
def start (t : TaskletStruct) : Option TaskletStruct :=
  if t.func ∧ t.scheduled ∧ ¬ t.running ∧ t.count = 0 then
    some { t with scheduled := false, running := true }
  else none

end TaskletStruct

/-- The statements of `my_tasklet_init` and `my_tasklet_exit`. -/
inductive Place where
  | requestIrq | taskletInit
  /-- `my_tasklet_init` has returned `0`. -/
  | loaded
  | freeIrq | disable
  /-- `tasklet_disable` waits until the tasklet does not run. -/
  | unlockWait
  | kill
  /-- The second `free_irq`. -/
  | freeIrqDevId
  /-- `my_tasklet_init` has returned an error. -/
  | failed
  /-- `my_tasklet_exit` has returned. -/
  | gone
  deriving DecidableEq, Repr

/-- A state of the module: the next statement, the `dev_id`s with which its handler is
registered, the tasklet and the global `scancode`. -/
structure Module where
  place : Place
  irqs : List DevId
  tasklet : TaskletStruct
  scancode : BitVec 8

/-- `my_irq_handler`: whether the interrupt is handled, and the state afterwards. -/
def myIrqHandler (irq : ℕ) (data : BitVec 8) (s : Module) : Bool × Module :=
  if irq = IRQ then (true, { s with scancode := data, tasklet := s.tasklet.schedule })
  else (false, s)

/-- `my_tasklet_function`: the scan code and the character printed, if it is below 103. -/
def myTaskletFunction (s : Module) : Option (ℕ × Char) :=
  if s.scancode.toNat < 103 then some (s.scancode.toNat, getAscii (s.scancode.setWidth 32))
  else none

/-! ### The machine -/

/-- The next statement, with whether the call in it succeeds, the start of
`my_tasklet_exit`, an interrupt, the start of the tasklet, or its end. -/
inductive Move where
  | proceed (ok : Bool)
  | unload
  | interrupt (data : BitVec 8)
  | start
  | finish

inductive LifeEvent where
  | proceeds
  /-- `free_irq`, and whether there was a registration with its `dev_id`. -/
  | frees (found : Bool)
  | handled
  /-- The handler has scheduled the tasklet before it was initialised. -/
  | stray
  | starts
  | prints (out : Option (ℕ × Char))

/-- `free_irq` with a `dev_id`. -/
def freeIrq (s : Module) (dev : DevId) (next : Place) : LifeEvent × Module :=
  (.frees (decide (dev ∈ s.irqs)), { s with irqs := s.irqs.erase dev, place := next })

/-- The next statement of the initialisation or the exit. -/
def proceed (s : Module) (ok : Bool) : Option (LifeEvent × Module) :=
  match s.place with
  | .requestIrq =>
      some (.proceeds, if ok then { s with irqs := .myIrqHandler :: s.irqs, place := .taskletInit }
        else { s with place := .failed })
  | .taskletInit => some (.proceeds, { s with tasklet := .init, place := .loaded })
  | .loaded => none
  | .freeIrq => some (freeIrq s .myIrqHandler .disable)
  | .disable => some (.proceeds, { s with tasklet := s.tasklet.disable, place := .unlockWait })
  | .unlockWait => if s.tasklet.running then none else some (.proceeds, { s with place := .kill })
  | .kill =>
      if s.tasklet.scheduled ∨ s.tasklet.running then none
      else some (.proceeds, { s with place := .freeIrqDevId })
  | .freeIrqDevId => some (freeIrq s .devId .gone)
  | .failed => none
  | .gone => none

/-- An interrupt, possible while the handler is registered. -/
def interrupt (s : Module) (data : BitVec 8) : Option (LifeEvent × Module) :=
  if s.irqs = [] then none
  else some (if s.tasklet.func then .handled else .stray, (myIrqHandler IRQ data s).2)

/-- The life of the module. -/
def life : Machine Module Move LifeEvent where
  step s
    | .proceed ok => proceed s ok
    | .unload => if s.place = .loaded then some (.proceeds, { s with place := .freeIrq }) else none
    | .interrupt data => interrupt s data
    | .start => s.tasklet.start.map fun t => (.starts, { s with tasklet := t })
    | .finish =>
        if s.tasklet.running then
          some (.prints (myTaskletFunction s),
            { s with tasklet := { s.tasklet with running := false } })
        else none

/-- The module before its initialisation, its static variables zero. -/
def unloaded : Module := ⟨.requestIrq, [], ⟨false, false, false, 0⟩, 0⟩

/-! ### Sound runs -/

/-- `tasklet_kill` waits for a tasklet that is scheduled and disabled. -/
def Stuck (s : Module) : Prop :=
  s.place = .kill ∧ s.tasklet.scheduled = true ∧ s.tasklet.count ≠ 0

/-- The handler has scheduled the tasklet only after its initialisation, the exit does not
wait for a tasklet that cannot run, and each `free_irq` has released a registration. -/
structure SoundAt (tr : List (Move × LifeEvent)) (s : Module) : Prop where
  no_stray : ∀ q ∈ tr, q.2 ≠ .stray
  not_stuck : ¬ Stuck s
  released : ∀ q ∈ tr, q.2 ≠ .frees false

/-- All states a schedule leads through are sound. -/
def Sound (is : List Move) : Prop := life.Throughout SoundAt is unloaded

/-- The move is no interrupt before `tasklet_init`, no return of `tasklet_disable` while
the tasklet is scheduled, and not the second `free_irq`. -/
def Harmless (s : Module) : Move → Prop
  | .proceed _ => s.place ≠ .freeIrqDevId
      ∧ (s.place = .unlockWait → s.tasklet.running = false → s.tasklet.scheduled = false)
  | .interrupt _ => s.place ≠ .taskletInit
  | .unload | .start | .finish => True

/-- What the place says of the registrations, of the function and of the count. -/
def Place.shape : Place → List DevId × Bool × ℕ
  | .requestIrq | .failed => ([], false, 0)
  | .taskletInit => ([.myIrqHandler], false, 0)
  | .loaded | .freeIrq => ([.myIrqHandler], true, 0)
  | .disable => ([], true, 0)
  | .unlockWait | .kill | .freeIrqDevId | .gone => ([], true, 1)

def Module.shape (s : Module) : List DevId × Bool × ℕ :=
  (s.irqs, s.tasklet.func, s.tasklet.count)

/-- The place says what is registered, initialised and disabled. -/
def InOrder (s : Module) : Prop := s.shape = s.place.shape

lemma inOrder_unloaded : InOrder unloaded := rfl

/-! ### One step -/

variable {s s' t : Module} {m : Move} {e : LifeEvent} {data : BitVec 8} {ok : Bool}

/-- A statement keeps the order. It never calls the handler; a `free_irq` that finds
nothing is the second one; and it leaves the exit waiting for a tasklet that cannot run
when `tasklet_disable` returns while that is scheduled. -/
lemma InOrder.proceed (h : InOrder s) (hs : proceed s ok = some (e, s')) :
    InOrder s' ∧ e ≠ .stray ∧ (e = .frees false ↔ s.place = .freeIrqDevId)
      ∧ (Stuck s' ↔ s.place = .unlockWait ∧ s.tasklet.scheduled = true) := by
  obtain ⟨place, irqs, ⟨func, scheduled, running, count⟩, scancode⟩ := s
  simp only [InOrder, Module.shape] at h
  cases place <;> simp [Tasklet.proceed, freeIrq, Place.shape] at h hs
  all_goals obtain ⟨rfl, rfl, rfl⟩ := h
  case requestIrq =>
    obtain ⟨rfl, rfl⟩ := hs
    cases ok <;> simp [InOrder, Module.shape, Place.shape, Stuck]
  case unlockWait =>
    obtain ⟨-, rfl, rfl⟩ := hs
    simp [InOrder, Module.shape, Place.shape, Stuck]
  case kill =>
    obtain ⟨-, rfl, rfl⟩ := hs
    simp [InOrder, Module.shape, Place.shape, Stuck]
  all_goals
    obtain ⟨rfl, rfl⟩ := hs
    simp [InOrder, Module.shape, Place.shape, Stuck, TaskletStruct.init, TaskletStruct.disable]

/-- An interrupt leaves the order, and strays exactly before `tasklet_init`. -/
lemma InOrder.interrupt (h : InOrder s) (hs : interrupt s data = some (e, s')) :
    InOrder s' ∧ (e = .stray ↔ s.place = .taskletInit) ∧ e ≠ .frees false ∧ ¬ Stuck s' := by
  obtain ⟨place, irqs, ⟨func, scheduled, running, count⟩, scancode⟩ := s
  simp only [InOrder, Module.shape] at h
  cases place <;> simp [Tasklet.interrupt, myIrqHandler, Place.shape] at h hs
  all_goals
    obtain ⟨rfl, rfl, rfl⟩ := h
    simp at hs
  all_goals
    obtain ⟨rfl, rfl⟩ := hs
    simp [InOrder, Module.shape, Place.shape, Stuck, TaskletStruct.schedule]

/-- What a move other than a statement and an interrupt does: the place, the registrations
and what the tasklet waits for stay. -/
lemma life_step_other (hs : life.step s m = some (e, s'))
    (hm : m = .unload ∨ m = .start ∨ m = .finish) :
    s'.shape = s.shape ∧ (s'.place = s.place ∨ (s.place = .loaded ∧ s'.place = .freeIrq))
      ∧ (s'.tasklet.scheduled = true → s.tasklet.scheduled = true)
      ∧ e ≠ .stray ∧ e ≠ .frees false := by
  rcases hm with rfl | rfl | rfl
  · simp only [life] at hs
    split_ifs at hs with hp
    cases hs
    exact ⟨rfl, Or.inr ⟨hp, rfl⟩, id, nofun, nofun⟩
  · obtain ⟨t, ht, hr⟩ := Option.map_eq_some_iff.mp hs
    cases hr
    rw [TaskletStruct.start] at ht
    split_ifs at ht
    cases ht
    exact ⟨rfl, Or.inl rfl, nofun, nofun, nofun⟩
  · simp only [life] at hs
    split_ifs at hs
    cases hs
    exact ⟨rfl, Or.inl rfl, id, nofun, nofun⟩

/-- An exit that waits for a tasklet that cannot run waits for good. -/
theorem Stuck.reachable (h : Stuck s) (ho : InOrder s) (hr : life.Reachable s t) : Stuck t := by
  refine (Machine.Reachable.invariant (I := fun t => Stuck t ∧ InOrder t) ⟨h, ho⟩
    (fun s m e s' hI hs => ?_) hr).1
  obtain ⟨⟨hp, hsched, hcount⟩, ho⟩ := hI
  cases m with
  | proceed ok => simp [life, Tasklet.proceed, hp, hsched] at hs
  | interrupt data =>
      have hirqs : s.irqs = [] := by
        rw [InOrder, hp] at ho
        exact congrArg Prod.fst ho
      simp [life, Tasklet.interrupt, hirqs] at hs
  | unload => simp [life, hp] at hs
  | start => simp [life, TaskletStruct.start, hcount] at hs
  | finish =>
      simp only [life] at hs
      split_ifs at hs
      cases hs
      exact ⟨⟨hp, hsched, hcount⟩, ho⟩

/-! ### Sound runs are the harmless ones -/

variable {tr : List (Move × LifeEvent)}

lemma SoundAt.snoc (h : SoundAt tr s) (hstray : e ≠ .stray) (hfree : e ≠ .frees false)
    (hstuck : ¬ Stuck s') : SoundAt (tr ++ [(m, e)]) s' where
  no_stray := List.forall_mem_append.mpr ⟨h.no_stray, List.forall_mem_singleton.mpr hstray⟩
  not_stuck := hstuck
  released := List.forall_mem_append.mpr ⟨h.released, List.forall_mem_singleton.mpr hfree⟩

/-- A harmless move keeps a run sound. -/
lemma soundAt_step (h : SoundAt tr s) (ho : InOrder s) (hm : Harmless s m)
    (hs : life.step s m = some (e, s')) : SoundAt (tr ++ [(m, e)]) s' ∧ InOrder s' := by
  cases m with
  | proceed ok =>
      obtain ⟨ho', hstray, hfree, hstuck⟩ := ho.proceed hs
      refine ⟨h.snoc hstray (fun he => hm.1 (hfree.mp he)) fun hst => ?_, ho'⟩
      obtain ⟨hp, hsched⟩ := hstuck.mp hst
      -- the module waits here as long as the tasklet runs
      have hrun : s.tasklet.running = false := by
        by_contra hrun
        simp [life, Tasklet.proceed, hp, hrun] at hs
      rw [hm.2 hp hrun] at hsched
      cases hsched
  | interrupt data =>
      obtain ⟨ho', hstray, hfree, hstuck⟩ := ho.interrupt hs
      exact ⟨h.snoc (fun he => hm (hstray.mp he)) hfree hstuck, ho'⟩
  | unload | start | finish =>
      obtain ⟨hshape, hp, hsched, hstray, hfree⟩ := life_step_other hs (by simp)
      rcases hp with hp | ⟨hp, hp'⟩
      · refine ⟨h.snoc hstray hfree fun hst => h.not_stuck ⟨hp ▸ hst.1, hsched hst.2.1, ?_⟩, ?_⟩
        · rw [← show s'.tasklet.count = s.tasklet.count from congrArg (fun x => x.2.2) hshape]
          exact hst.2.2
        · rw [InOrder, hshape, hp]
          exact ho
      · refine ⟨h.snoc hstray hfree fun hst => ?_, ?_⟩
        · rw [Stuck, hp'] at hst
          exact absurd hst.1 (by decide)
        · rw [InOrder, hshape, ho, hp, hp']
          rfl

/-- A move that is not harmless can be made, and the run is not sound behind it. -/
lemma not_soundAt_step (ho : InOrder s) (hm : ¬ Harmless s m) :
    ∃ e s', life.step s m = some (e, s') ∧ ¬ SoundAt (tr ++ [(m, e)]) s' := by
  cases m with
  | proceed ok =>
      rw [Harmless, not_and_or, not_not] at hm
      rcases hm with hp | hm
      · -- the second `free_irq` finds nothing to free
        have hs : life.step s (.proceed ok) = some (freeIrq s .devId .gone) := by
          simp [life, Tasklet.proceed, hp]
        refine ⟨_, _, hs, fun h => ?_⟩
        exact h.released _ (List.mem_append_right _ (List.mem_singleton_self _))
          ((ho.proceed hs).2.2.1.mpr hp)
      · obtain ⟨hp, hrun, hsched⟩ : s.place = .unlockWait ∧ s.tasklet.running = false
            ∧ ¬ s.tasklet.scheduled = false := by
          simpa only [Classical.not_imp] using hm
        -- the module goes on to kill a tasklet that is scheduled and cannot run
        have hs : life.step s (.proceed ok) = some (.proceeds, { s with place := .kill }) := by
          simp [life, Tasklet.proceed, hp, hrun]
        refine ⟨_, _, hs, fun h => h.not_stuck ?_⟩
        exact (ho.proceed hs).2.2.2.mpr ⟨hp, by simpa using hsched⟩
  | interrupt data =>
      rw [Harmless, not_not] at hm
      -- the handler is registered, and there is no function yet
      have hirqs : s.irqs ≠ [] := by
        have hshape : s.irqs = [.myIrqHandler] := by
          rw [InOrder, hm] at ho
          exact congrArg Prod.fst ho
        rw [hshape]
        exact List.cons_ne_nil _ _
      have hs : life.step s (.interrupt data) = some
          (if s.tasklet.func then .handled else .stray, (myIrqHandler IRQ data s).2) :=
        if_neg hirqs
      refine ⟨_, _, hs, fun h => ?_⟩
      exact h.no_stray _ (List.mem_append_right _ (List.mem_singleton_self _))
        ((ho.interrupt hs).2.1.mpr hm)
  | unload => exact absurd trivial hm
  | start => exact absurd trivial hm
  | finish => exact absurd trivial hm

/-- **The life cycle of the module**: a run is sound exactly when no interrupt comes before
`tasklet_init`, the tasklet is not scheduled when `tasklet_disable` returns, and the second
`free_irq` is not come to. -/
theorem tasklet_sound_iff (is : List Move) : Sound is ↔ life.Meets Harmless is unloaded :=
  Machine.throughout_iff_meets (I := fun _ s => InOrder s)
    ⟨⟨nofun, fun h => by simp [Stuck, unloaded] at h, nofun⟩, inOrder_unloaded⟩
    (fun _ _ _ _ _ hS hI hm hs => soundAt_step hS hI hm hs)
    (fun _ _ _ _ hI hm => not_soundAt_step hI hm)

/-- A key is pressed before the module is unloaded, and the exit waits for the tasklet it
has scheduled. -/
theorem unload_stuck : ¬ ∀ is, Sound is := by
  intro h
  have hat := h [.proceed true, .proceed true, .interrupt 0x1e, .unload, .proceed true,
    .proceed true, .proceed true] _ List.prefix_rfl _ _ rfl
  exact hat.not_stuck ⟨rfl, rfl, by decide⟩

end Tasklet

end OperatingSys
