import OperatingSys.Foundations.Machine
import OperatingSys.Fortune.Added

/-!
The life of a fortune module, from `module_init` to the end of its cleanup.

The two modules are set up and taken down by the same statements but for what they do
to the memory and to their offsets; `Driver` is what they have in common, with the
statements at the end of the initialisation as a list. Handlers may be called whenever
the proc file exists, between any two statements.

The file is created before the offsets are reset and removed after the memory has been
freed. So a run is sound, no handler touching memory it does not have and nothing
stored being discarded, exactly when no reset comes upon something stored that it
discards and no call that uses the pot comes between `vfree` and the removal of the
file (`Driver.sound_iff`).
-/

namespace OperatingSys

namespace Fortune

/-- What `vmalloc(MAX_COOKIE_LEN)` brings, with the content it happens to have. -/
def Page : Type := {m : List UInt8 // m.length = PAGE_SIZE}

/-- A statement at the end of the initialisation, and when it discards nothing that is
stored. -/
structure Reset (σ : Type) where
  apply : σ → σ
  keeps : σ → Prop

/-- The bytes stored, as a read finds them: at the start of the pot, up to the write
offset. -/
def Readable (pot : List UInt8) (writeOffset : ℤ) (bytes : List UInt8) : Prop :=
  (∃ rest, pot = bytes ++ rest) ∧ writeOffset = bytes.length

/-- **A fortune module**: its static variables `σ` and the calls `κ` of its handlers.
A pot that is not allocated has no bytes. -/
structure Driver (σ κ : Type) where
  handlers : Machine σ κ (ℤ × List UInt8)
  /-- The static variables of the module when it is loaded. -/
  vars : σ
  pot : σ → List UInt8
  setPot : List UInt8 → σ → σ
  writeOffset : σ → ℤ
  /-- The message of a write. -/
  message : κ → Option (List UInt8)
  /-- The call touches the pot. -/
  uses : σ → κ → Prop
  /-- What is done to the new memory before the proc file exists. -/
  prepare : Page → Page
  /-- The statements between `proc_symlink` and `return 0`. -/
  resets : List (Reset σ)
  pot_vars : pot vars = []
  writeOffset_vars : writeOffset vars = 0
  pot_setPot : ∀ m s, pot (setPot m s) = m
  writeOffset_setPot : ∀ m s, writeOffset (setPot m s) = writeOffset s
  length_step : ∀ s k e s', handlers.step s k = some (e, s') → (pot s').length = (pot s).length
  uses_iff : ∀ s k, pot s = [] → (handlers.step s k = none ↔ uses s k)
  readable_step : ∀ s k e s' bytes, (pot s).length = PAGE_SIZE → Closed bytes →
    Readable (pot s) (writeOffset s) bytes → handlers.step s k = some (e, s') →
    Readable (pot s') (writeOffset s') (bytes ++ ((message k).elim [] (added · e.1)))
  length_reset : ∀ r ∈ resets, ∀ s, (pot s).length = PAGE_SIZE →
    (pot (r.apply s)).length = PAGE_SIZE
  readable_reset_iff : ∀ r ∈ resets, ∀ s bytes, (pot s).length = PAGE_SIZE →
    Readable (pot s) (writeOffset s) bytes →
    (Readable (pot (r.apply s)) (writeOffset (r.apply s)) bytes ↔ r.keeps s)

/-! ### The machine -/

/-- The statements of the initialisation and of the cleanup. -/
inductive Place where
  | vmalloc | mkdir | create | symlink | reset (n : ℕ)
  /-- The initialisation has returned `0`. -/
  | loaded
  | vfree | removeSymlink | removeFile | removeDir
  | gone
  deriving DecidableEq, Repr

/-- The cleanup has not started. -/
def Place.live : Place → Bool
  | .vmalloc | .mkdir | .create | .symlink | .reset _ | .loaded => true
  | .vfree | .removeSymlink | .removeFile | .removeDir | .gone => false

/-- A state of a module: the next statement, the static variables, and whether the pot
is allocated and the proc file exists. -/
structure Life (σ : Type) where
  place : Place
  vars : σ
  allocated : Bool
  file : Bool

/-- A move: the next statement, with whether the call in it succeeds, the start of the
cleanup of a loaded module, or a call of a handler. -/
inductive Move (κ : Type) where
  | proceed (ok : Bool)
  | unload
  | call (k : κ)

/-- What a move shows. -/
inductive LifeEvent (κ : Type) where
  | proceeds
  | returns (k : κ) (e : ℤ × List UInt8)
  /-- A handler accesses memory that is not allocated. -/
  | stray (k : κ)

namespace Driver

variable {σ κ : Type} (D : Driver σ κ) (page : Page)

/-- The next statement of the initialisation or the cleanup. -/
def proceed (s : Life σ) (ok : Bool) : Option (Life σ) :=
  match s.place with
  | .vmalloc => some (
      if ok then
        { s with vars := D.setPot (D.prepare page).1 s.vars, allocated := true, place := .mkdir }
      else { s with place := .gone })
  | .mkdir => some (
      if ok then { s with place := .create } else { s with place := .vfree })
  | .create => some (
      if ok then { s with file := true, place := .symlink } else { s with place := .vfree })
  | .symlink => some (
      if ok then { s with place := .reset 0 } else { s with place := .vfree })
  | .reset n => some (
      match D.resets[n]? with
      | some r => { s with vars := r.apply s.vars, place := .reset (n + 1) }
      | none => { s with place := .loaded })
  | .loaded => none
  | .vfree =>
      some { s with vars := D.setPot [] s.vars, allocated := false, place := .removeSymlink }
  | .removeSymlink => some { s with place := .removeFile }
  | .removeFile => some { s with file := false, place := .removeDir }
  | .removeDir => some { s with place := .gone }
  | .gone => none

/-- A call of a handler, possible while the proc file exists. -/
def callHandler (s : Life σ) (k : κ) : Option (LifeEvent κ × Life σ) :=
  if s.file then
    match D.handlers.step s.vars k with
    | some (e, v) => some (.returns k e, { s with vars := v })
    | none => if s.allocated then none else some (.stray k, s)
  else none

/-- The life of the module. -/
def life : Machine (Life σ) (Move κ) (LifeEvent κ) where
  step s
    | .proceed ok => (D.proceed page s ok).map (.proceeds, ·)
    | .unload => if s.place = .loaded then some (.proceeds, { s with place := .vfree }) else none
    | .call k => D.callHandler s k

/-- The module before its initialisation. -/
def unloaded : Life σ := ⟨.vmalloc, D.vars, false, false⟩

/-! ### Sound runs -/

/-- What the writes of a run that returned success have stored. -/
def written (tr : List (Move κ × LifeEvent κ)) : List UInt8 :=
  tr.flatMap fun q =>
    match q.2 with
    | .returns k e => (D.message k).elim [] (added · e.1)
    | .proceeds | .stray _ => []

/-- No handler has accessed memory that is not allocated, and what has been stored is
readable until the cleanup starts. -/
structure SoundAt (tr : List (Move κ × LifeEvent κ)) (s : Life σ) : Prop where
  no_stray : ∀ q ∈ tr, ∀ k, q.2 ≠ .stray k
  readable : s.place.live = true → Readable (D.pot s.vars) (D.writeOffset s.vars) (D.written tr)

/-- All states a schedule leads through are sound. -/
def Sound (is : List (Move κ)) : Prop :=
  ∀ js, js <+: is → ∀ tr s, (D.life page).exec js D.unloaded = some (tr, s) → D.SoundAt tr s

/-- No call that uses the pot is made while it is not allocated, and no reset comes upon
something stored that it discards. -/
def Harmless (s : Life σ) : Move κ → Prop
  | .proceed _ => ∀ n r, s.place = .reset n → D.resets[n]? = some r → r.keeps s.vars
  | .unload => True
  | .call k => s.file = true → s.allocated = false → ¬ D.uses s.vars k

variable {D page}

/-- What holds in every reachable state: the pot has its size while it is allocated, and
no bytes otherwise. -/
structure InOrder (D : Driver σ κ) (s : Life σ) : Prop where
  size : s.allocated = true → (D.pot s.vars).length = PAGE_SIZE
  nil : s.allocated = false → D.pot s.vars = []
  live : s.place.live = true → s.place = .vmalloc ∨ s.allocated = true
  early : s.place = .vmalloc → s.file = false ∧ s.allocated = false

lemma inOrder_unloaded (D : Driver σ κ) : InOrder D D.unloaded where
  size := fun h => (Bool.false_ne_true h).elim
  nil := fun _ => D.pot_vars
  live := fun _ => Or.inl rfl
  early := fun _ => ⟨rfl, rfl⟩

/-- A reset is made with the memory there. -/
lemma InOrder.size_of_reset {s : Life σ} (h : InOrder D s) {n : ℕ} (hp : s.place = .reset n) :
    s.allocated = true := by
  rcases h.live (by rw [hp]; rfl) with h0 | h0
  · rw [hp] at h0
    cases h0
  · exact h0

lemma inOrder_proceed {s s' : Life σ} {ok : Bool} (h : InOrder D s)
    (hs : D.proceed page s ok = some s') : InOrder D s' := by
  have hlive := h.live
  unfold proceed at hs
  cases hp : s.place with
  | vmalloc =>
      simp only [hp, Option.some.injEq] at hs
      subst hs
      split_ifs
      · -- a fresh pot, which is prepared
        refine ⟨fun _ => ?_, fun h0 => (Bool.false_ne_true h0.symm).elim, fun _ => Or.inr rfl,
          by simp⟩
        rw [D.pot_setPot]
        exact (D.prepare page).2
      · -- `vmalloc` has failed
        exact ⟨h.size, h.nil, by simp [Place.live], by simp⟩
  | mkdir | create | symlink =>
      have hall : s.allocated = true := (hlive (by rw [hp]; rfl)).resolve_left (by simp [hp])
      simp only [hp, Option.some.injEq] at hs
      subst hs
      split_ifs <;> exact ⟨h.size, h.nil, fun _ => Or.inr hall, by simp⟩
  | reset n =>
      have hall := h.size_of_reset hp
      simp only [hp, Option.some.injEq] at hs
      subst hs
      cases hr : D.resets[n]? with
      | none => exact ⟨h.size, h.nil, fun _ => Or.inr hall, by simp⟩
      | some r =>
          refine ⟨fun _ => ?_, fun h0 => ?_, fun _ => Or.inr hall, by simp⟩
          · exact D.length_reset r (List.mem_of_getElem? hr) s.vars (h.size hall)
          · rw [hall] at h0
            cases h0
  | vfree =>
      simp only [hp, Option.some.injEq] at hs
      subst hs
      exact ⟨fun h0 => (Bool.false_ne_true h0).elim, fun _ => D.pot_setPot _ _,
        by simp [Place.live], by simp⟩
  | removeSymlink | removeFile | removeDir =>
      simp only [hp, Option.some.injEq] at hs
      subst hs
      exact ⟨h.size, h.nil, by simp [Place.live], by simp⟩
  | loaded | gone => simp [hp] at hs

/-- What a call of a handler can be. -/
lemma callHandler_cases {s s' : Life σ} {k : κ} {ev : LifeEvent κ}
    (h : D.callHandler s k = some (ev, s')) : s.file = true
      ∧ ((∃ e v, D.handlers.step s.vars k = some (e, v) ∧ ev = .returns k e
          ∧ s' = { s with vars := v })
        ∨ (D.handlers.step s.vars k = none ∧ s.allocated = false ∧ ev = .stray k ∧ s' = s)) := by
  by_cases hf : s.file = true
  · rw [callHandler, if_pos hf] at h
    refine ⟨hf, ?_⟩
    cases hk : D.handlers.step s.vars k with
    | some q =>
        obtain ⟨e, v⟩ := q
        simp only [hk, Option.some.injEq, Prod.mk.injEq] at h
        exact Or.inl ⟨e, v, rfl, h.1.symm, h.2.symm⟩
    | none =>
        simp only [hk] at h
        split_ifs at h with ha
        simp only [Option.some.injEq, Prod.mk.injEq] at h
        exact Or.inr ⟨rfl, by simpa using ha, h.1.symm, h.2.symm⟩
  · rw [callHandler, if_neg hf] at h
    cases h

lemma inOrder_step {s s' : Life σ} {i : Move κ} {ev : LifeEvent κ} (h : InOrder D s)
    (hs : (D.life page).step s i = some (ev, s')) : InOrder D s' := by
  cases i with
  | proceed ok =>
      obtain ⟨s₁, hp, he⟩ := Option.map_eq_some_iff.mp hs
      obtain ⟨-, rfl⟩ := Prod.mk.injEq .. ▸ he
      exact inOrder_proceed h hp
  | unload =>
      simp only [life] at hs
      split_ifs at hs with hp
      simp only [Option.some.injEq, Prod.mk.injEq] at hs
      obtain ⟨-, rfl⟩ := hs
      exact ⟨h.size, h.nil, by simp [Place.live], by simp⟩
  | call k =>
      obtain ⟨-, ⟨e, v, hk, -, rfl⟩ | ⟨-, -, -, rfl⟩⟩ := callHandler_cases hs
      · have hlen := D.length_step s.vars k e v hk
        exact ⟨fun ha => by rw [hlen, h.size ha],
          fun ha => List.length_eq_zero_iff.mp (by rw [hlen, h.nil ha]; rfl), h.live, h.early⟩
      · exact h

/-! ### When a run is sound -/

lemma closed_written (D : Driver σ κ) (tr : List (Move κ × LifeEvent κ)) :
    Closed (D.written tr) := by
  induction tr with
  | nil => exact closed_nil
  | cons q tr ih =>
      rw [written, List.flatMap_cons]
      refine Closed.append ?_ ih
      cases q.2 with
      | proceeds | stray => exact closed_nil
      | returns k e =>
          dsimp only
          cases D.message k with
          | none => exact closed_nil
          | some buf => exact closed_added buf e.1

@[simp] lemma written_nil (D : Driver σ κ) : D.written [] = [] := rfl

@[simp] lemma written_snoc (D : Driver σ κ) (tr : List (Move κ × LifeEvent κ)) (i : Move κ)
    (ev : LifeEvent κ) : D.written (tr ++ [(i, ev)]) = D.written tr ++ D.written [(i, ev)] := by
  simp [written]

lemma soundAt_unloaded (D : Driver σ κ) : D.SoundAt [] D.unloaded where
  no_stray := by simp
  readable := fun _ => ⟨⟨[], by simp [unloaded, D.pot_vars]⟩, D.writeOffset_vars⟩

/-- One more move that is not astray. -/
lemma SoundAt.snoc {tr : List (Move κ × LifeEvent κ)} {s s' : Life σ} {i : Move κ}
    {ev : LifeEvent κ} (h : D.SoundAt tr s) (hev : ∀ k, ev ≠ .stray k)
    (hr : s'.place.live = true → Readable (D.pot s'.vars) (D.writeOffset s'.vars)
      (D.written tr ++ D.written [(i, ev)])) : D.SoundAt (tr ++ [(i, ev)]) s' where
  no_stray := List.forall_mem_append.mpr ⟨h.no_stray, List.forall_mem_singleton.mpr hev⟩
  readable := fun hl => by
    rw [written_snoc]
    exact hr hl

/-- A statement that shows nothing keeps what is written. -/
lemma SoundAt.proceeds {tr : List (Move κ × LifeEvent κ)} {s s' : Life σ} {i : Move κ}
    (h : D.SoundAt tr s) (hr : s'.place.live = true →
      Readable (D.pot s'.vars) (D.writeOffset s'.vars) (D.written tr)) :
    D.SoundAt (tr ++ [(i, .proceeds)]) s' :=
  h.snoc (by simp) fun hl => by simpa [written] using hr hl

/-- A harmless statement keeps a run sound. -/
lemma soundAt_proceed {tr : List (Move κ × LifeEvent κ)} {s s' : Life σ} {ok : Bool}
    (h : D.SoundAt tr s) (ho : InOrder D s) (hc : D.Harmless s (.proceed ok))
    (hs : D.proceed page s ok = some s') :
    D.SoundAt (tr ++ [(.proceed ok, .proceeds)]) s' := by
  refine h.proceeds fun hl => ?_
  unfold proceed at hs
  cases hp : s.place with
  | vmalloc =>
      obtain ⟨⟨rest, hrest⟩, hoff⟩ := h.readable (by rw [hp]; rfl)
      -- nothing can have been written yet
      rw [ho.nil (ho.early hp).2] at hrest
      obtain ⟨hnil, -⟩ := List.append_eq_nil_iff.mp hrest.symm
      rw [hnil] at hoff ⊢
      simp only [hp, Option.some.injEq] at hs
      subst hs
      split_ifs at hl ⊢
      · exact ⟨⟨_, rfl⟩, by rw [D.writeOffset_setPot, hoff]⟩
      · simp [Place.live] at hl
  | mkdir | create | symlink =>
      have hr := h.readable (by rw [hp]; rfl)
      simp only [hp, Option.some.injEq] at hs
      subst hs
      split_ifs at hl ⊢ <;> exact hr
  | reset n =>
      have hr := h.readable (by rw [hp]; rfl)
      have hsize := ho.size (ho.size_of_reset hp)
      simp only [hp, Option.some.injEq] at hs
      subst hs
      cases hn : D.resets[n]? with
      | none => exact hr
      | some r =>
          exact (D.readable_reset_iff r (List.mem_of_getElem? hn) s.vars _ hsize hr).mpr
            (hc n r hp hn)
  | vfree | removeSymlink | removeFile | removeDir =>
      simp only [hp, Option.some.injEq] at hs
      subst hs
      simp [Place.live] at hl
  | loaded | gone => simp [hp] at hs

/-- A harmless call keeps a run sound. -/
lemma soundAt_call {tr : List (Move κ × LifeEvent κ)} {s s' : Life σ} {k : κ} {ev : LifeEvent κ}
    (h : D.SoundAt tr s) (ho : InOrder D s) (hc : D.Harmless s (.call k))
    (hs : D.callHandler s k = some (ev, s')) : D.SoundAt (tr ++ [(.call k, ev)]) s' := by
  obtain ⟨hf, ⟨e, v, hk, rfl, rfl⟩ | ⟨hk, ha, -, -⟩⟩ := callHandler_cases hs
  · refine h.snoc (by simp) fun hl => ?_
    have hall : s.allocated = true := by
      refine (ho.live hl).resolve_left fun hp => ?_
      rw [(ho.early hp).1] at hf
      cases hf
    simpa [written] using D.readable_step s.vars k e v _ (ho.size hall) (closed_written D tr)
      (h.readable hl) hk
  · exact absurd ((D.uses_iff s.vars k (ho.nil ha)).mp hk) (hc hf ha)

/-- A harmless move keeps a run sound. -/
lemma soundAt_step {tr : List (Move κ × LifeEvent κ)} {s s' : Life σ} {i : Move κ}
    {ev : LifeEvent κ} (h : D.SoundAt tr s) (ho : InOrder D s) (hc : D.Harmless s i)
    (hs : (D.life page).step s i = some (ev, s')) : D.SoundAt (tr ++ [(i, ev)]) s' := by
  cases i with
  | proceed ok =>
      obtain ⟨s₁, hp, he⟩ := Option.map_eq_some_iff.mp hs
      obtain ⟨rfl, rfl⟩ := Prod.mk.injEq .. ▸ he
      exact soundAt_proceed h ho hc hp
  | unload =>
      simp only [life] at hs
      split_ifs at hs with hp
      simp only [Option.some.injEq, Prod.mk.injEq] at hs
      obtain ⟨rfl, rfl⟩ := hs
      exact h.proceeds (by simp [Place.live])
  | call k => exact soundAt_call h ho hc hs

/-- A move that is not harmless can be made, and the run is not sound behind it. -/
lemma not_soundAt_step {tr : List (Move κ × LifeEvent κ)} {s : Life σ} {i : Move κ}
    (h : D.SoundAt tr s) (ho : InOrder D s) (hc : ¬ D.Harmless s i) :
    ∃ ev s', (D.life page).step s i = some (ev, s') ∧ ¬ D.SoundAt (tr ++ [(i, ev)]) s' := by
  cases i with
  | unload => exact absurd trivial hc
  | proceed ok =>
      -- a reset that discards something leaves it unreadable
      simp only [Harmless, not_forall] at hc
      obtain ⟨n, r, hp, hn, hkeeps⟩ := hc
      have hstep : (D.life page).step s (.proceed ok)
          = some (.proceeds, { s with vars := r.apply s.vars, place := .reset (n + 1) }) := by
        simp [life, proceed, hp, hn]
      refine ⟨_, _, hstep, fun hat => hkeeps ?_⟩
      have hnext := hat.readable rfl
      rw [written_snoc] at hnext
      exact (D.readable_reset_iff r (List.mem_of_getElem? hn) s.vars _
        (ho.size (ho.size_of_reset hp)) (h.readable (by rw [hp]; rfl))).mp
          (by simpa [written] using hnext)
  | call k =>
      simp only [Harmless, not_forall, not_not] at hc
      obtain ⟨hf, ha, huse⟩ := hc
      have hk := (D.uses_iff s.vars k (ho.nil ha)).mpr huse
      have hstep : (D.life page).step s (.call k) = some (.stray k, s) := by
        simp [life, callHandler, hf, ha, hk]
      refine ⟨_, _, hstep, fun hat => ?_⟩
      exact hat.no_stray _ (List.mem_append_right _ (List.mem_singleton_self _)) k rfl

/-- **When a run is sound**: exactly when all its moves are harmless. -/
lemma sound_iff (D : Driver σ κ) (page : Page) (is : List (Move κ)) :
    D.Sound page is ↔ (D.life page).Meets D.Harmless is D.unloaded :=
  Machine.throughout_iff_meets (I := fun _ s => InOrder D s)
    ⟨soundAt_unloaded D, inOrder_unloaded D⟩
    (fun _ _ _ _ _ hS hI hc hs => ⟨soundAt_step hS hI hc hs, inOrder_step hI hs⟩)
    (fun _ _ _ hS hI hc => not_soundAt_step hS hI hc)

end Driver

end Fortune

end OperatingSys
