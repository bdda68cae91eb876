import OperatingSys.Myfs.Basic

/-!
Loads, mounts, unmounts and unloads when calls of the kernel fail.

A load that fails after `register_filesystem` leaves the file system registered; a mount
whose `new_inode` fails dereferences the null pointer it got; one whose `d_make_root` fails
releases an inode that is gone; and a failing `kmem_cache_alloc` is recorded as an entry. So
a run is sound exactly when its moves are not of these kinds (`failing_sound_iff`).
-/

namespace OperatingSys

namespace Myfs

/-! ### Sound runs -/

/-- The file system is registered while the module is loaded and nothing is allocated while
it is not; a mount has come back with a root or with `-ENOMEM`; and what an unload passes to
`kmem_cache_free` has been allocated. -/
structure SoundAt (tr : List (Move × FsEvent)) (fs : Fs) : Prop where
  registered_iff : fs.registered = fs.loaded
  clean : fs.loaded = false →
    fs.ptrsAllocated = false ∧ fs.cacheCreated = false ∧ fs.infos = []
  mount_returns : ∀ q ∈ tr, ∀ newInode alloc dMakeRoot iput,
    q.1 = .mount newInode alloc dMakeRoot iput →
      (∃ root, q.2 = .mounts root) ∨ q.2 = .mountFails (-ENOMEM)
  allocated : ∀ p ∈ freeOwnIcache fs, ∃ a ∈ fs.infos, p = some a

/-- All states a schedule leads through are sound. -/
def Sound (mem : ℕ → Option ℕ) (is : List Move) : Prop := life.Throughout SoundAt is (unloaded mem)

/-- A load that registers the file system gets its memory; a mount gets an inode, and an
entry if there is room for it, and comes back from the second release of its root if
`d_make_root` fails. -/
def Harmless (fs : Fs) : Move → Prop
  | .load register kmalloc create =>
      fs.loaded = false → register = true → kmalloc = true ∧ create = true
  | .mount newInode alloc dMakeRoot iput =>
      fs.registered = true → newInode ≠ none
        ∧ (fs.inodePtrs.length ≠ MYFS_MAX_CACHE → alloc ≠ none)
        ∧ (dMakeRoot = false → iput = true)
  | .unmount _ | .unload => True

variable {tr : List (Move × FsEvent)} {fs fs' : Fs} {m : Move} {e : FsEvent}
  {newInode alloc : Option Fresh} {register kmalloc create dMakeRoot iput : Bool}
  {mem : ℕ → Option ℕ}

lemma soundAt_unloaded : SoundAt [] (unloaded mem) :=
  ⟨rfl, fun _ => ⟨rfl, rfl, rfl⟩, nofun, nofun⟩

/-- One more move, with what it leaves. -/
lemma SoundAt.snoc (h : SoundAt tr fs) (hr : fs'.registered = fs'.loaded)
    (hc : fs'.loaded = false →
      fs'.ptrsAllocated = false ∧ fs'.cacheCreated = false ∧ fs'.infos = [])
    (hm : ∀ newInode alloc dMakeRoot iput, m = .mount newInode alloc dMakeRoot iput →
      (∃ root, e = .mounts root) ∨ e = .mountFails (-ENOMEM))
    (ha : ∀ p ∈ freeOwnIcache fs', ∃ a ∈ fs'.infos, p = some a) :
    SoundAt (tr ++ [(m, e)]) fs' where
  registered_iff := hr
  clean := hc
  mount_returns := List.forall_mem_append.mpr
    ⟨h.mount_returns, List.forall_mem_singleton.mpr hm⟩
  allocated := ha

/-- What a sound run knows of its last move. -/
lemma SoundAt.last_returns (h : SoundAt (tr ++ [(.mount newInode alloc dMakeRoot iput, e)]) fs) :
    (∃ root, e = .mounts root) ∨ e = .mountFails (-ENOMEM) :=
  h.mount_returns _ (List.mem_append_right _ (List.mem_singleton_self _)) _ _ _ _ rfl

lemma not_soundAt (hr : fs.registered = true) (hl : fs.loaded = false) : ¬ SoundAt tr fs := by
  intro h
  rw [h.registered_iff, hl] at hr
  cases hr

/-! ### One move -/

/-- A load of a sound state. -/
lemma SoundAt.load_iff (h : SoundAt tr fs) (ho : InOrder fs) (hd : fs.dead = false)
    (hl : fs.loaded = false) : ∃ e fs', life.step fs (.load register kmalloc create) = some (e, fs')
      ∧ fs'.dead = false ∧ (SoundAt (tr ++ [(.load register kmalloc create, e)]) fs' ↔
        (register = true → kmalloc = true ∧ create = true)) := by
  have hreg : fs.registered = false := h.registered_iff.trans hl
  obtain ⟨hpa, hcc, hinfos⟩ := h.clean hl
  obtain ⟨hptrs, -, -, -⟩ := ho.empty hl
  have hmount : ∀ {e : FsEvent} newInode alloc dMakeRoot iput,
      Move.load register kmalloc create = .mount newInode alloc dMakeRoot iput →
      (∃ root, e = .mounts root) ∨ e = .mountFails (-ENOMEM) := by
    intro e _ _ _ _ h
    cases h
  refine ⟨_, _, Myfs.load_iff.mpr ⟨hd, hl, rfl, rfl⟩, ?_, ?_⟩
  · rw [hreg]
    cases register <;> cases kmalloc <;> cases create <;> exact hd
  · rw [hreg]
    cases register with
    | false => exact iff_of_true (h.snoc hreg (fun _ => ⟨hpa, hcc, hinfos⟩) hmount
        (by simp [myfsInit, freeOwnIcache, hptrs])) fun hr => absurd hr (by decide)
    | true =>
        cases kmalloc with
        -- where memory is missing, the name stays registered
        | false => exact iff_of_false (not_soundAt rfl rfl) (by simp)
        | true =>
            cases create with
            | false => exact iff_of_false (not_soundAt rfl rfl) (by simp)
            | true => exact iff_of_true (h.snoc rfl (fun hf => Bool.noConfusion hf) hmount
                fun p hp => absurd hp List.not_mem_nil) fun _ => ⟨rfl, rfl⟩

/-- What `cache_get_inode` records has been allocated, unless it found room and
`kmem_cache_alloc` failed. -/
lemma cacheGetInode_allocated_iff (alloc : Option Fresh)
    (h : ∀ p ∈ freeOwnIcache fs, ∃ a ∈ fs.infos, p = some a) :
    (∀ p ∈ freeOwnIcache (cacheGetInode alloc fs).2,
        ∃ a ∈ (cacheGetInode alloc fs).2.infos, p = some a) ↔
      (fs.inodePtrs.length ≠ MYFS_MAX_CACHE → alloc ≠ none) := by
  by_cases hfull : fs.inodePtrs.length = MYFS_MAX_CACHE
  · rw [cacheGetInode_full hfull]
    exact iff_of_true h fun hne => absurd hfull hne
  · rw [cacheGetInode_room hfull]
    cases alloc with
    | none =>
        refine iff_of_false (fun hall => ?_) fun hne => hne hfull rfl
        obtain ⟨a, -, ha⟩ := hall none (List.mem_append_right _ (List.mem_singleton_self _))
        cases ha
    | some a =>
        refine iff_of_true (fun p hp => ?_) fun _ => nofun
        rcases List.mem_append.mp hp with hp | hp
        · obtain ⟨b, hb, rfl⟩ := h p hp
          exact ⟨b, List.mem_append_left _ hb, rfl⟩
        · rw [List.mem_singleton.mp hp]
          exact ⟨_, List.mem_append_right _ (List.mem_singleton_self _), rfl⟩

/-- A mount that gets an inode: what it comes to, and what it leaves of the cache. -/
lemma myfsFillSuper_some (n : Fresh) (alloc : Option Fresh) (dMakeRoot iput : Bool) (fs : Fs) :
    ∃ ptr inodes,
    myfsFillSuper (some n) alloc dMakeRoot iput fs =
      (if dMakeRoot then .mounts ⟨n.pick (fs.inodes.map Inode.addr), 2, (cacheGetInode alloc fs).1⟩
        else if iput then .mountFails (-ENOMEM) else .badIput,
        { (cacheGetInode alloc fs).2 with
          inodePtr := ptr, inodes := inodes, dead := fs.dead || (!dMakeRoot && !iput) }) := by
  obtain ⟨ptrs, infos, hframe⟩ := cacheGetInode_frame alloc fs
  rcases hget : cacheGetInode alloc fs with ⟨own, fs₁⟩
  rw [hget] at hframe
  subst hframe
  cases own <;> cases dMakeRoot <;> cases iput <;>
    simp [myfsFillSuper, myfsGetInode, hget, Fs.setInodePtr]

/-- A mount in a sound state. -/
lemma SoundAt.mount_iff (h : SoundAt tr fs) (hd : fs.dead = false) (hl : fs.loaded = true) :
    ∃ e fs', life.step fs (.mount newInode alloc dMakeRoot iput) = some (e, fs')
      ∧ (SoundAt (tr ++ [(.mount newInode alloc dMakeRoot iput, e)]) fs' ↔
        newInode ≠ none ∧ (fs.inodePtrs.length ≠ MYFS_MAX_CACHE → alloc ≠ none)
          ∧ (dMakeRoot = false → iput = true))
      ∧ (newInode ≠ none → (dMakeRoot = false → iput = true) → fs'.dead = false) := by
  have hstep : life.step fs (.mount newInode alloc dMakeRoot iput) =
      some (myfsFillSuper newInode alloc dMakeRoot iput fs) :=
    Myfs.mount_iff.mpr ⟨hd, h.registered_iff.trans hl, Or.inl ⟨hl, rfl⟩⟩
  cases newInode with
  | none =>
      -- without an inode the mount does not return
      refine ⟨_, _, hstep, iff_of_false (fun hs => ?_) fun hne => hne.1 rfl,
        fun hne => absurd rfl hne⟩
      rcases hs.last_returns with ⟨root, hr⟩ | hr <;> cases hr
  | some n =>
      obtain ⟨ptr, inodes, heq⟩ := myfsFillSuper_some n alloc dMakeRoot iput fs
      obtain ⟨ptrs, infos, hframe⟩ := cacheGetInode_frame alloc fs
      have hall := cacheGetInode_allocated_iff alloc h.allocated
      rw [heq] at hstep
      refine ⟨_, _, hstep, ⟨fun hs => ⟨nofun, hall.mp hs.allocated, ?_⟩, fun hok => ?_⟩, ?_⟩
      · -- the second `iput` has to return
        rintro rfl
        by_contra hi
        rcases hs.last_returns with ⟨root, hr⟩ | hr <;> simp [hi] at hr
      · refine h.snoc ?_ ?_ ?_ (hall.mpr hok.2.1)
        · rw [hframe]
          exact h.registered_iff
        · rw [hframe]
          exact fun hl' => absurd (hl.symm.trans hl') (by decide)
        · intro _ _ _ _ _
          cases dMakeRoot with
          | true => exact Or.inl ⟨_, rfl⟩
          | false =>
              rw [hok.2.2 rfl]
              exact Or.inr rfl
      · intro _ hi
        cases dMakeRoot with
        | true => simpa using hd
        | false => simpa [hi rfl] using hd

/-- An unmount and an unload keep a state sound. -/
lemma SoundAt.leave (h : SoundAt tr fs) (ho : InOrder fs)
    (hm : m = .unload ∨ ∃ root, m = .unmount root)
    (hs : life.step fs m = some (e, fs')) :
    SoundAt (tr ++ [(m, e)]) fs' ∧ fs'.dead = false := by
  rcases hm with rfl | ⟨root, rfl⟩
  · obtain ⟨hd, hl, -, hr⟩ := unload_iff.mp hs
    have hinfos := ho.exit_infos
    rw [hr] at hinfos
    cases hr
    exact ⟨h.snoc rfl (fun _ => ⟨rfl, rfl, hinfos⟩) nofun nofun, hd⟩
  · obtain ⟨hd, -, rfl, rfl⟩ := unmount_iff.mp hs
    exact ⟨h.snoc h.registered_iff h.clean nofun h.allocated, hd⟩

/-! ### Sound runs are the harmless ones -/

/-- **Failing kernel calls**: a run is sound exactly when no load fails after the file
system is registered, every mount gets an inode, an entry where there is room for one, and
comes back when `d_make_root` fails. -/
theorem failing_sound_iff (mem : ℕ → Option ℕ) (is : List Move) :
    Sound mem is ↔ life.Meets Harmless is (unloaded mem) := by
  refine Machine.throughout_iff_meets (I := fun _ fs => InOrder fs ∧ fs.dead = false)
    ⟨soundAt_unloaded, inOrder_unloaded mem, rfl⟩ ?_ ?_
  · -- a harmless move keeps the run sound
    rintro tr fs m e fs' h ⟨ho, hd⟩ hm hs
    have ho' := ho.step hs
    cases m with
    | load register kmalloc create =>
        have hl := (Myfs.load_iff.mp hs).2.1
        obtain ⟨e₁, fs₁, hs₁, hd₁, hiff⟩ := h.load_iff ho hd hl
        cases hs.symm.trans hs₁
        exact ⟨hiff.mpr (hm hl), ho', hd₁⟩
    | mount newInode alloc dMakeRoot iput =>
        have hr := (Myfs.mount_iff.mp hs).2.1
        obtain ⟨e₁, fs₁, hs₁, hiff, hd₁⟩ := h.mount_iff hd (h.registered_iff.symm.trans hr)
        cases hs.symm.trans hs₁
        exact ⟨hiff.mpr (hm hr), ho', hd₁ (hm hr).1 (hm hr).2.2⟩
    | unmount root =>
        obtain ⟨hsound, hd'⟩ := h.leave ho (Or.inr ⟨root, rfl⟩) hs
        exact ⟨hsound, ho', hd'⟩
    | unload =>
        obtain ⟨hsound, hd'⟩ := h.leave ho (Or.inl rfl) hs
        exact ⟨hsound, ho', hd'⟩
  · -- any other can be made, and is not sound
    rintro tr fs m h ⟨ho, hd⟩ hm
    cases m with
    | load register kmalloc create =>
        rw [Harmless, Classical.not_imp] at hm
        obtain ⟨e, fs', hs, -, hiff⟩ := h.load_iff ho hd hm.1
        exact ⟨e, fs', hs, fun hsound => hm.2 (hiff.mp hsound)⟩
    | mount newInode alloc dMakeRoot iput =>
        rw [Harmless, Classical.not_imp] at hm
        obtain ⟨e, fs', hs, hiff, -⟩ := h.mount_iff hd (h.registered_iff.symm.trans hm.1)
        exact ⟨e, fs', hs, fun hsound => hm.2 (hiff.mp hsound)⟩
    | unmount root => exact absurd trivial hm
    | unload => exact absurd trivial hm

/-- A mount for which `new_inode` has no memory does not come back. -/
theorem mount_null :
    ¬ Sound (fun _ => none) [.load true true true, .mount none none true true] := by
  intro h
  rcases (h _ List.prefix_rfl _ _ rfl).mount_returns (.mount none none true true, .nullDeref)
    (by simp) _ _ _ _ rfl with ⟨root, hr⟩ | hr <;> cases hr

end Myfs

end OperatingSys
