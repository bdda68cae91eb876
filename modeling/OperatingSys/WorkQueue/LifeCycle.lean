import OperatingSys.WorkQueue.Basic

/-!
The life of the module `workseq.c`, from `work_queue_init` to the end of
`work_queue_exit`.

The interrupt is requested before the queue is created and the works are initialised,
and freed after the queue has been destroyed; and when `proc_create` fails nothing is
taken down. So a run is sound, the handler queueing its works only while it may and a
failed initialisation leaving nothing behind, exactly when no interrupt comes at one of
these places and `proc_create` does not fail (`registered_sound_iff`).
-/

namespace OperatingSys

namespace WorkQueue

/-! ### The statements -/

/-- The statements of `work_queue_init` and `work_queue_exit`. -/
inductive Place where
  | requestIrq | createQueue
  /-- `free_irq` after the queue could not be created. -/
  | freeIrqFailed
  | initFir | initSec | procCreate
  /-- `work_queue_init` has returned `0`. -/
  | loaded
  | flush | destroy | freeIrq | removeEntry
  /-- `work_queue_init` has returned an error. -/
  | failed
  /-- `work_queue_exit` has returned. -/
  | gone
  deriving DecidableEq, Repr

/-- A state of the module: the next statement, whether the interrupt is registered,
the queue exists and the two works are initialised, and the queue's content. -/
structure Module where
  place : Place
  irq : Bool
  queue : Bool
  firReady : Bool
  secReady : Bool
  keys : Keys

/-- The next statement, with whether the call in it succeeds, the start of
`work_queue_exit`, an interrupt, or a step of the worker. -/
inductive Move where
  | proceed (ok : Bool)
  | unload
  | interrupt (data : BitVec 8)
  | worker

inductive LifeEvent where
  | proceeds
  | handled
  /-- The handler calls `queue_work` without the queue or with a work that is not
  initialised. -/
  | stray
  | works (e : Event)

/-- The next statement of the initialisation or the exit. The queue is flushed and
destroyed when it is drained. -/
def proceed (s : Module) (ok : Bool) : Option Module :=
  match s.place with
  | .requestIrq =>
      some (if ok then { s with irq := true, place := .createQueue }
        else { s with place := .failed })
  | .createQueue =>
      some (if ok then { s with queue := true, place := .initFir }
        else { s with place := .freeIrqFailed })
  | .freeIrqFailed => some { s with irq := false, place := .failed }
  | .initFir => some { s with firReady := true, place := .initSec }
  | .initSec => some { s with secReady := true, place := .procCreate }
  | .procCreate => some (if ok then { s with place := .loaded } else { s with place := .failed })
  | .loaded => none
  | .flush => if Drained s.keys then some { s with place := .destroy } else none
  | .destroy => if Drained s.keys then some { s with queue := false, place := .freeIrq } else none
  | .freeIrq => some { s with irq := false, place := .removeEntry }
  | .removeEntry => some { s with place := .gone }
  | .failed => none
  | .gone => none

/-- An interrupt, possible while it is registered. -/
def interrupt (s : Module) (data : BitVec 8) : Option (LifeEvent × Module) :=
  if s.irq then
    if s.queue ∧ s.firReady ∧ s.secReady then
      some (.handled, { s with keys := (handler IRQ data s.keys).2 })
    else some (.stray, { s with keys := { s.keys with scancode := data } })
  else none

/-- The life of the module. -/
def life : Machine Module Move LifeEvent where
  step s
    | .proceed ok => (proceed s ok).map (.proceeds, ·)
    | .unload => if s.place = .loaded then some (.proceeds, { s with place := .flush }) else none
    | .interrupt data => interrupt s data
    | .worker => (worker s.keys).map fun (e, k) => (.works e, { s with keys := k })

/-- The module before its initialisation. -/
def unloaded : Module := ⟨.requestIrq, false, false, false, false, initial⟩

/-! ### Sound runs -/

/-- The handler has queued its works only while it may, and an initialisation that
failed has left neither the interrupt nor the queue. -/
structure SoundAt (tr : List (Move × LifeEvent)) (s : Module) : Prop where
  no_stray : ∀ q ∈ tr, q.2 ≠ .stray
  failed : s.place = .failed → s.irq = false ∧ s.queue = false

/-- All states a schedule leads through are sound. -/
def Sound (is : List Move) : Prop :=
  ∀ js, js <+: is → ∀ tr s, life.exec js unloaded = some (tr, s) → SoundAt tr s

/-- Between the request of the interrupt and the end of the initialisation of the
works, and between the destruction of the queue and the release of the interrupt. -/
def Place.open : Place → Bool
  | .createQueue | .freeIrqFailed | .initFir | .initSec | .freeIrq => true
  | .requestIrq | .procCreate | .loaded | .flush | .destroy | .removeEntry | .failed | .gone =>
      false

/-- The move is no interrupt at an open place, and no `proc_create` that fails. -/
def Harmless (s : Module) : Move → Prop
  | .proceed ok => s.place = .procCreate → ok = true
  | .unload => True
  | .interrupt _ => s.place.open = false
  | .worker => True

/-- What exists at a place: the interrupt, the queue, and the two works. -/
def Place.flags : Place → Bool × Bool × Bool × Bool
  | .requestIrq | .failed => (false, false, false, false)
  | .createQueue | .freeIrqFailed => (true, false, false, false)
  | .initFir => (true, true, false, false)
  | .initSec => (true, true, true, false)
  | .procCreate | .loaded | .flush | .destroy => (true, true, true, true)
  | .freeIrq => (true, false, true, true)
  | .removeEntry | .gone => (false, false, true, true)

def Module.flags (s : Module) : Bool × Bool × Bool × Bool :=
  (s.irq, s.queue, s.firReady, s.secReady)

/-- The place says what exists. -/
def InOrder (s : Module) : Prop := s.flags = s.place.flags

lemma inOrder_unloaded : InOrder unloaded := rfl

/-- A statement leaves what exists in order, but for a failed `proc_create`. -/
lemma InOrder.proceed {s s' : Module} {ok : Bool} (h : InOrder s) (hs : proceed s ok = some s') :
    InOrder s' ∨ (s.place = .procCreate ∧ ok = false ∧ s'.place = .failed
      ∧ s'.flags = (true, true, true, true)) := by
  obtain ⟨place, irq, queue, fir, sec, k⟩ := s
  simp only [InOrder, Module.flags] at h
  cases place <;> cases ok <;> simp [WorkQueue.proceed, Place.flags] at h hs
  all_goals
    obtain ⟨rfl, rfl, rfl, rfl⟩ := h
    -- the flush and the destruction of the queue wait until it is drained
    first | subst hs | obtain ⟨-, rfl⟩ := hs
    simp [InOrder, Module.flags, Place.flags]

/-- An interrupt and a step of the worker leave the place and what exists. -/
lemma interrupt_same {s s' : Module} {data : BitVec 8} {e : LifeEvent}
    (hs : interrupt s data = some (e, s')) :
    s'.place = s.place ∧ s'.flags = s.flags ∧ s.irq = true
      ∧ (e = .stray ↔ ¬ (s.queue ∧ s.firReady ∧ s.secReady)) := by
  rw [interrupt] at hs
  split_ifs at hs with hirq hready
  · cases hs
    exact ⟨rfl, rfl, hirq, by simp [hready]⟩
  · cases hs
    exact ⟨rfl, rfl, hirq, by simp [hready]⟩

/-- What one move does to the place and to what exists. -/
lemma life_step {s s' : Module} {m : Move} {e : LifeEvent} (h : InOrder s)
    (hs : life.step s m = some (e, s')) :
    InOrder s' ∨ (s.place = .procCreate ∧ m = .proceed false ∧ s'.place = .failed
      ∧ s'.flags = (true, true, true, true)) := by
  cases m with
  | proceed ok =>
      obtain ⟨t, ht, hr⟩ := Option.map_eq_some_iff.mp hs
      cases hr
      exact (h.proceed ht).imp_right fun ⟨hp, hok, hf⟩ => ⟨hp, by rw [hok], hf⟩
  | unload =>
      simp only [life] at hs
      split_ifs at hs with hp
      cases hs
      simp only [InOrder, hp] at h ⊢
      exact Or.inl h
  | interrupt data =>
      obtain ⟨hp, hf, -, -⟩ := interrupt_same hs
      left
      rw [InOrder, hp, hf]
      exact h
  | worker =>
      obtain ⟨⟨e, k⟩, -, hr⟩ := Option.map_eq_some_iff.mp hs
      cases hr
      exact Or.inl h

/-- Where the module is in order, the interrupt is registered at every open place, and
something its handler needs is missing there and at no other place where it is. -/
lemma InOrder.open_iff {s : Module} (h : InOrder s) :
    s.place.open = true ↔ s.irq = true ∧ ¬ (s.queue ∧ s.firReady ∧ s.secReady) := by
  obtain ⟨place, irq, queue, fir, sec, k⟩ := s
  simp only [InOrder, Module.flags] at h
  cases place <;> simp [Place.open, Place.flags] at h ⊢ <;> simp [h]

/-! ### Sound runs are the harmless ones -/

/-- A move that is not harmless can be made, and the run is not sound behind it. -/
lemma not_soundAt_step {tr : List (Move × LifeEvent)} {s : Module} {m : Move} (h : InOrder s)
    (hm : ¬ Harmless s m) :
    ∃ e s', life.step s m = some (e, s') ∧ ¬ SoundAt (tr ++ [(m, e)]) s' := by
  cases m with
  | proceed ok =>
      rw [Harmless, Classical.not_imp, Bool.not_eq_true] at hm
      obtain ⟨hp, rfl⟩ := hm
      have hs : life.step s (.proceed false) = some (.proceeds, { s with place := .failed }) := by
        simp [life, WorkQueue.proceed, hp]
      refine ⟨_, _, hs, fun hat => ?_⟩
      -- the interrupt of the registered module is still there
      have hirq : s.irq = true := by
        rw [InOrder, hp] at h
        exact congrArg Prod.fst h
      rw [(hat.failed rfl).1] at hirq
      cases hirq
  | interrupt data =>
      rw [Harmless, Bool.not_eq_false] at hm
      obtain ⟨hirq, hready⟩ := h.open_iff.mp hm
      have hs : life.step s (.interrupt data)
          = some (.stray, { s with keys := { s.keys with scancode := data } }) := by
        simp only [life, interrupt, if_pos hirq, if_neg hready]
      refine ⟨_, _, hs, fun hat => ?_⟩
      exact hat.no_stray _ (List.mem_append_right _ (List.mem_singleton_self _)) rfl
  | unload => exact absurd trivial hm
  | worker => exact absurd trivial hm

/-- A harmless move queues no work that is missing. -/
lemma ne_stray {s s' : Module} {m : Move} {e : LifeEvent} (h : InOrder s) (hm : Harmless s m)
    (hs : life.step s m = some (e, s')) : e ≠ .stray := by
  cases m with
  | interrupt data =>
      obtain ⟨-, -, hirq, hstray⟩ := interrupt_same hs
      intro he
      have hopen := h.open_iff.mpr ⟨hirq, hstray.mp he⟩
      rw [show s.place.open = false from hm] at hopen
      cases hopen
  | proceed ok =>
      obtain ⟨t, -, hr⟩ := Option.map_eq_some_iff.mp hs
      cases hr
      exact LifeEvent.noConfusion
  | unload =>
      simp only [life] at hs
      split_ifs at hs
      cases hs
      exact LifeEvent.noConfusion
  | worker =>
      obtain ⟨⟨e, k⟩, -, hr⟩ := Option.map_eq_some_iff.mp hs
      cases hr
      exact LifeEvent.noConfusion

/-- A state reached by harmless moves is in order and sound. -/
lemma soundAt_step {tr : List (Move × LifeEvent)} {s s' : Module} {m : Move} {e : LifeEvent}
    (h : SoundAt tr s ∧ InOrder s) (hm : Harmless s m) (hs : life.step s m = some (e, s')) :
    SoundAt (tr ++ [(m, e)]) s' ∧ InOrder s' := by
  have horder : InOrder s' := (life_step h.2 hs).resolve_right fun ⟨hp, hm', _⟩ => by
    subst hm'
    exact absurd (hm hp) (by decide)
  refine ⟨⟨?_, fun hp => ?_⟩, horder⟩
  · exact List.forall_mem_append.mpr
      ⟨h.1.no_stray, List.forall_mem_singleton.mpr (ne_stray h.2 hm hs)⟩
  · rw [InOrder, hp] at horder
    simp only [Module.flags, Place.flags, Prod.mk.injEq] at horder
    exact ⟨horder.1, horder.2.1⟩

/-- **The life cycle of the module**: a run is sound exactly when no interrupt comes at
an open place and `proc_create` does not fail. -/
theorem registered_sound_iff (is : List Move) : Sound is ↔ life.Meets Harmless is unloaded :=
  Machine.throughout_iff_meets (I := fun _ s => InOrder s)
    ⟨⟨by simp, fun hp => by cases hp⟩, inOrder_unloaded⟩
    (fun _ _ _ _ _ hS hI hm hs => soundAt_step ⟨hS, hI⟩ hm hs)
    (fun _ _ _ _ hI hm => not_soundAt_step hI hm)

/-- A key is pressed between the request of the interrupt and the creation of the
queue. -/
theorem early_interrupt_stray : ¬ ∀ is, Sound is := by
  intro h
  have hat := h [.proceed true, .interrupt 0x1e] _ List.prefix_rfl _ _ rfl
  exact hat.no_stray (.interrupt 0x1e, .stray) (List.mem_cons_of_mem _ List.mem_cons_self) rfl

end WorkQueue

end OperatingSys
