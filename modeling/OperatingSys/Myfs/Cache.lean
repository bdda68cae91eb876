import OperatingSys.Myfs.Basic

/-!
The entries of the inode cache over a life of mounts and unmounts in which every allocation
succeeds.

The first `MYFS_MAX_CACHE` inodes created since the load get an entry each, and a live one
has an entry of its own that points back to it; later inodes get none. Entries are not given
back before the unload, which frees each of them once (`cache_kept`). So the bound is one on
the inodes created, not on those live at once (`cache_wears_out`).
-/

namespace OperatingSys

namespace Myfs

/-- Every allocation of the operation succeeds, and it is a mount or an unmount. -/
def Move.Served : Move → Prop
  | .mount newInode alloc dMakeRoot _ => newInode.isSome ∧ alloc.isSome ∧ dMakeRoot = true
  | .unmount _ => True
  | .load .. | .unload => False

instance (m : Move) : Decidable m.Served := by
  cases m <;> unfold Move.Served <;> infer_instance

/-- The inode an operation has created. -/
def FsEvent.root : FsEvent → Option Inode
  | .mounts root => some root
  | _ => none

/-- The inodes created in a run, in their order. -/
def created (tr : List (Move × FsEvent)) : List Inode := tr.filterMap fun q => q.2.root

lemma created_snoc (tr : List (Move × FsEvent)) (m : Move) (e : FsEvent) :
    created (tr ++ [(m, e)]) = created tr ++ e.root.toList := by
  cases h : e.root <;> simp [created, h]

/-! ### A mount whose allocations succeed -/

section Mount

variable {fs : Fs} {n a : Fresh} {iput : Bool}

/-- A mount while the table is full: the inode gets no entry. -/
lemma myfsFillSuper_full (h : fs.inodePtrs.length = MYFS_MAX_CACHE) :
    myfsFillSuper (some n) (some a) true iput fs =
      (.mounts ⟨n.pick (fs.inodes.map Inode.addr), 2, none⟩,
        { fs with inodes := fs.inodes ++ [⟨n.pick (fs.inodes.map Inode.addr), 2, none⟩] }) := by
  simp [myfsFillSuper, myfsGetInode, cacheGetInode_full h, Fs.setInodePtr]

/-- A mount while the table has room: the next entry is for the inode. -/
lemma myfsFillSuper_room (h : fs.inodePtrs.length ≠ MYFS_MAX_CACHE) :
    myfsFillSuper (some n) (some a) true iput fs =
      (.mounts ⟨n.pick (fs.inodes.map Inode.addr), 2, some (a.pick fs.infos)⟩,
        { fs with
          inodePtrs := fs.inodePtrs ++ [some (a.pick fs.infos)]
          infos := fs.infos ++ [a.pick fs.infos]
          inodePtr := Function.update fs.inodePtr (a.pick fs.infos)
            (some (n.pick (fs.inodes.map Inode.addr)))
          inodes := fs.inodes ++
            [⟨n.pick (fs.inodes.map Inode.addr), 2, some (a.pick fs.infos)⟩] }) := by
  simp [myfsFillSuper, myfsGetInode, cacheGetInode_room h, Fs.setInodePtr]

end Mount

/-! ### The entries of a run -/

/-- The entries after a run: the first `MYFS_MAX_CACHE` inodes created have got one, that of
a live inode is its own and points back, and the unload frees each of them once. -/
structure CacheKept (tr : List (Move × FsEvent)) (fs : Fs) : Prop where
  entry_iff : ∀ k x, (created tr)[k]? = some x → (x.iPrivate ≠ none ↔ k < MYFS_MAX_CACHE)
  live_created : ∀ x ∈ fs.inodes, x ∈ created tr
  points_back : ∀ x ∈ fs.inodes, ∀ a, x.iPrivate = some a →
    some a ∈ fs.inodePtrs ∧ fs.inodePtr a = some x.addr
  own : ∀ x ∈ fs.inodes, ∀ y ∈ fs.inodes, ∀ a, x.iPrivate = some a → y.iPrivate = some a → x = y
  freed_once : ∀ e u, life.step fs .unload = some (e, u) →
    e = .unloads (fs.infos.map some) ∧ fs.infos.Nodup ∧ u.infos = []

/-- What the runs of mounts and unmounts keep besides the order: the table is as long as
there were inodes to record, and has no null pointer. -/
structure Filled (tr : List (Move × FsEvent)) (fs : Fs) : Prop where
  loaded : fs.loaded = true
  length_ptrs : fs.inodePtrs.length = min MYFS_MAX_CACHE (created tr).length
  ptrs_eq : fs.inodePtrs = fs.infos.map some
  entry_iff : ∀ k x, (created tr)[k]? = some x → (x.iPrivate ≠ none ↔ k < MYFS_MAX_CACHE)
  live_created : ∀ x ∈ fs.inodes, x ∈ created tr
  points_back : ∀ x ∈ fs.inodes, ∀ a, x.iPrivate = some a →
    a ∈ fs.infos ∧ fs.inodePtr a = some x.addr
  own : ∀ x ∈ fs.inodes, ∀ y ∈ fs.inodes, ∀ a, x.iPrivate = some a → y.iPrivate = some a → x = y

variable {tr : List (Move × FsEvent)} {fs fs' : Fs} {m : Move} {e : FsEvent}
  {mem : ℕ → Option ℕ}

lemma filled_loadedFs : Filled [] (loadedFs mem) :=
  ⟨rfl, rfl, rfl, nofun, nofun, nofun, nofun⟩

/-- One more inode is created, and gets an entry exactly if there is room. -/
lemma Filled.entry_snoc (h : Filled tr fs) {x : Inode}
    (hx : x.iPrivate ≠ none ↔ (created tr).length < MYFS_MAX_CACHE) (k : ℕ) (y : Inode)
    (hy : (created tr ++ [x])[k]? = some y) : y.iPrivate ≠ none ↔ k < MYFS_MAX_CACHE := by
  rcases Nat.lt_trichotomy k (created tr).length with hk | rfl | hk
  · rw [List.getElem?_append_left hk] at hy
    exact h.entry_iff k y hy
  · rw [List.getElem?_concat_length, Option.some.injEq] at hy
    rwa [← hy]
  · rw [List.getElem?_eq_none (by simpa using hk)] at hy
    cases hy

lemma Filled.live_snoc (h : Filled tr fs) (x y : Inode) (hy : y ∈ fs.inodes ++ [x]) :
    y ∈ created tr ++ [x] := by
  rcases List.mem_append.mp hy with hy | hy
  · exact List.mem_append_left _ (h.live_created y hy)
  · exact List.mem_append_right _ hy

/-- An inode with no entry, or with one that was not in use, takes nobody's. -/
lemma Filled.own_snoc (h : Filled tr fs) {x : Inode}
    (hx : ∀ a, x.iPrivate = some a → a ∉ fs.infos) (y : Inode) (hy : y ∈ fs.inodes ++ [x])
    (z : Inode) (hz : z ∈ fs.inodes ++ [x]) (a : ℕ) (hya : y.iPrivate = some a)
    (hza : z.iPrivate = some a) : y = z := by
  rcases List.mem_append.mp hy with hy | hy <;> rcases List.mem_append.mp hz with hz | hz
  · exact h.own y hy z hz a hya hza
  · rw [List.mem_singleton.mp hz] at hza
    exact absurd (h.points_back y hy a hya).1 (hx a hza)
  · rw [List.mem_singleton.mp hy] at hya
    exact absurd (h.points_back z hz a hza).1 (hx a hya)
  · rw [List.mem_singleton.mp hy, List.mem_singleton.mp hz]

/-- A mount. -/
lemma Filled.mount (h : Filled tr fs) (n a : Fresh) (iput : Bool) :
    Filled (tr ++ [(m, (myfsFillSuper (some n) (some a) true iput fs).1)])
      (myfsFillSuper (some n) (some a) true iput fs).2 := by
  have hlen := h.length_ptrs
  by_cases hfull : fs.inodePtrs.length = MYFS_MAX_CACHE
  · -- the cache is full, and the inode gets no entry
    rw [myfsFillSuper_full hfull]
    have hmax : MYFS_MAX_CACHE ≤ (created tr).length := by
      rw [hfull] at hlen
      exact min_eq_left_iff.mp hlen.symm
    refine ⟨h.loaded, ?_, h.ptrs_eq, ?_, ?_, fun x hx b hb => ?_, h.own_snoc nofun⟩
    · rw [created_snoc, hlen]
      simp only [FsEvent.root, Option.toList_some, List.length_append, List.length_singleton]
      omega
    · rw [created_snoc]
      exact h.entry_snoc (iff_of_false (fun hn => hn rfl) (by omega))
    · rw [created_snoc]
      exact h.live_snoc _
    · rcases List.mem_append.mp hx with hx | hx
      · exact h.points_back x hx b hb
      · rw [List.mem_singleton.mp hx] at hb
        cases hb
  · -- the inode gets a new entry
    rw [myfsFillSuper_room hfull]
    have hnew : a.pick fs.infos ∉ fs.infos := a.pick_notMem _
    have hlt : (created tr).length < MYFS_MAX_CACHE := by
      by_contra hge
      exact hfull (hlen.trans (min_eq_left (not_lt.mp hge)))
    refine ⟨h.loaded, ?_, by simp [h.ptrs_eq], ?_, ?_, fun x hx b hb => ?_, h.own_snoc ?_⟩
    · rw [created_snoc]
      simp only [FsEvent.root, Option.toList_some, List.length_append, List.length_singleton]
      omega
    · rw [created_snoc]
      exact h.entry_snoc (iff_of_true nofun hlt)
    · rw [created_snoc]
      exact h.live_snoc _
    · rcases List.mem_append.mp hx with hx | hx
      · obtain ⟨hin, hptr⟩ := h.points_back x hx b hb
        refine ⟨List.mem_append_left _ hin, ?_⟩
        exact (Function.update_of_ne (ne_of_mem_of_not_mem hin hnew) _ _).trans hptr
      · rw [List.mem_singleton.mp hx] at hb ⊢
        cases hb
        exact ⟨List.mem_append_right _ (List.mem_singleton_self _), Function.update_self ..⟩
    · rintro b ⟨⟩
      exact hnew

/-- An unmount. -/
lemma Filled.unmount (h : Filled tr fs) (root : ℕ) :
    Filled (tr ++ [(m, .unmounts)])
      { fs with inodes := fs.inodes.filter fun x => x.addr ≠ root } := by
  have hcr : created (tr ++ [(m, .unmounts)]) = created tr := by
    rw [created_snoc]
    exact List.append_nil _
  have hsub : ∀ x ∈ fs.inodes.filter (fun x => x.addr ≠ root), x ∈ fs.inodes :=
    fun x hx => List.mem_of_mem_filter hx
  exact ⟨h.loaded, hcr ▸ h.length_ptrs, h.ptrs_eq, hcr ▸ h.entry_iff,
    fun x hx => hcr ▸ h.live_created x (hsub x hx), fun x hx => h.points_back x (hsub x hx),
    fun x hx y hy => h.own x (hsub x hx) y (hsub y hy)⟩

lemma Filled.step (h : Filled tr fs) (hm : m.Served)
    (hs : life.step fs m = some (e, fs')) : Filled (tr ++ [(m, e)]) fs' := by
  cases m with
  | load => exact hm.elim
  | unload => exact hm.elim
  | mount newInode alloc dMakeRoot iput =>
      obtain ⟨hn, ha, rfl⟩ := hm
      obtain ⟨n, rfl⟩ := Option.isSome_iff_exists.mp hn
      obtain ⟨a, rfl⟩ := Option.isSome_iff_exists.mp ha
      obtain ⟨-, -, ⟨-, hr⟩ | ⟨hl, -⟩⟩ := mount_iff.mp hs
      · have hmount : Filled (tr ++ [(.mount (some n) (some a) true iput, _)]) _ :=
          h.mount n a iput
        rwa [hr] at hmount
      · rw [h.loaded] at hl
        cases hl
  | unmount root =>
      obtain ⟨-, -, rfl, rfl⟩ := unmount_iff.mp hs
      exact h.unmount root

lemma Filled.cacheKept (h : Filled tr fs) (ho : InOrder fs) : CacheKept tr fs where
  entry_iff := h.entry_iff
  live_created := h.live_created
  points_back x hx a ha := by
    obtain ⟨hin, hptr⟩ := h.points_back x hx a ha
    rw [h.ptrs_eq]
    exact ⟨List.mem_map_of_mem hin, hptr⟩
  own := h.own
  freed_once e u hs := by
    obtain ⟨-, -, -, hr⟩ := unload_iff.mp hs
    have hinfos := ho.exit_infos
    rw [hr] at hinfos
    refine ⟨?_, ho.nodup, hinfos⟩
    rw [← h.ptrs_eq]
    exact (congrArg Prod.fst hr).symm

/-- A load that returns `0` leaves the tables empty, whatever has come before it. -/
lemma eq_loadedFs {register kmalloc create : Bool} (ho : InOrder fs)
    (hs : life.step fs (.load register kmalloc create) = some (.loads 0, fs')) :
    fs' = loadedFs fs.inodePtr := by
  obtain ⟨hd, hl, hret, rfl⟩ := load_iff.mp hs
  obtain ⟨hptrs, hin, -, -⟩ := ho.empty hl
  have hinfos : fs.infos = [] := by rw [ho.paired, hptrs, List.reduceOption_nil]
  replace hret := FsEvent.loads.inj hret
  cases hreg : register && !fs.registered with
  | false => simp [hreg, myfsInit, EBUSY] at hret
  | true =>
      cases kmalloc <;> cases create <;> simp [hreg, myfsInit, ENOMEM] at hret
      simp [myfsInit, loadedFs, hinfos, hin, hd]

/-- **The entries of the inode cache**: after a load, in every run of mounts and unmounts
whose allocations succeed, the first `MYFS_MAX_CACHE` inodes created have got an entry, a
live inode's entry is its own and points back to it, and an unload frees each entry that was
allocated once. -/
theorem cache_kept {mem : ℕ → Option ℕ} {fs₀ fs₁ : Fs} {register kmalloc create : Bool}
    (hreach : life.Reachable (unloaded mem) fs₀)
    (hload : life.step fs₀ (.load register kmalloc create) = some (.loads 0, fs₁))
    (hrun : life.Run fs₁ tr fs) (hserved : ∀ q ∈ tr, q.1.Served) : CacheKept tr fs := by
  have ho : InOrder fs₀ := (inOrder_unloaded mem).reachable hreach
  have hfilled : (∀ q ∈ tr, q.1.Served) → Filled tr fs ∧ InOrder fs := by
    refine hrun.induct_trace (I := fun tr fs => (∀ q ∈ tr, q.1.Served) → Filled tr fs ∧ InOrder fs)
      (fun _ => ?_) fun tr fs m e fs' ih hs hserved => ?_
    · refine ⟨?_, ho.step hload⟩
      rw [eq_loadedFs ho hload]
      exact filled_loadedFs
    · rw [List.forall_mem_append, List.forall_mem_singleton] at hserved
      obtain ⟨hfilled, ho⟩ := ih hserved.1
      exact ⟨hfilled.step hserved.2 hs, ho.step hs⟩
  exact (hfilled hserved).1.cacheKept (hfilled hserved).2

/-! ### Mounted three times, and thirteen times -/

/-- An allocator that goes above what is in use. -/
def above (k : ℕ) : Fresh where
  pick l := l.sum + k + 1
  pick_notMem l hl := by
    have := List.le_sum_of_mem hl
    omega

def mountAbove (k : ℕ) : Move := .mount (some (above k)) (some (above 0)) true true

/-- Three mounts, the first of which has been unmounted. -/
theorem cache_kept_three : ∃ tr fs, life.Run (loadedFs fun _ => none) tr fs
    ∧ fs.inodes = [⟨2, 2, some 2⟩, ⟨3, 2, some 4⟩] ∧ CacheKept tr fs := by
  obtain ⟨tr, fs, h, hp⟩ := Machine.exists_run (show ((life.exec
    [mountAbove 0, mountAbove 0, .unmount 1, mountAbove 0] (loadedFs fun _ => none)).any
      fun r => (r.1.all fun q => q.1.Served)
        && r.2.inodes = [⟨2, 2, some 2⟩, ⟨3, 2, some 4⟩]) = true by decide)
  simp only [Bool.and_eq_true, List.all_eq_true, decide_eq_true_eq] at hp
  obtain ⟨hserved, hinodes⟩ := hp
  have hload : life.step (unloaded fun _ => none) (.load true true true)
      = some (.loads 0, loadedFs fun _ => none) := rfl
  exact ⟨tr, fs, h, hinodes, cache_kept (.refl (unloaded fun _ => none)) hload h hserved⟩

/-- Every live inode has an entry of its own that points back to it. -/
def OwnEntries (fs : Fs) : Prop :=
  ∀ x ∈ fs.inodes, ∃ a, x.iPrivate = some a ∧ some a ∈ fs.inodePtrs
    ∧ fs.inodePtr a = some x.addr ∧ ∀ y ∈ fs.inodes, y.iPrivate = some a → y = x

/-- No entry points to an inode that was evicted. -/
def NoStale (fs : Fs) : Prop :=
  ∀ a, some a ∈ fs.inodePtrs → ∃ x ∈ fs.inodes, fs.inodePtr a = some x.addr

/-- Twelve mounts, each followed by its unmount, and one more mount. -/
def wearOut : List Move :=
  ((List.range MYFS_MAX_CACHE).flatMap fun k => [mountAbove k, .unmount (k + 1)])
    ++ [mountAbove MYFS_MAX_CACHE]

/-- With no more than one inode live at a time, the thirteenth has no entry, and the entries
point to inodes that were evicted. -/
theorem cache_wears_out : (∀ m ∈ wearOut, m.Served)
    ∧ life.Throughout (fun _ fs => fs.inodes.length ≤ MYFS_MAX_CACHE) wearOut
        (loadedFs fun _ => none)
    ∧ ∃ tr fs, life.exec wearOut (loadedFs fun _ => none) = some (tr, fs)
        ∧ ¬ OwnEntries fs ∧ ¬ NoStale fs := by
  refine ⟨by decide, fun js hjs tr fs he => ?_, ?_⟩
  · have hlive : ∀ js ∈ wearOut.inits, ((life.exec js (loadedFs fun _ => none)).all
        fun r => r.2.inodes.length ≤ MYFS_MAX_CACHE) = true := by decide
    have hjs := hlive js ((List.mem_inits js _).mpr hjs)
    rw [he] at hjs
    exact of_decide_eq_true hjs
  · have hend : ((life.exec wearOut (loadedFs fun _ => none)).any
        fun r => r.2.inodes = [⟨13, 2, none⟩] ∧ some 1 ∈ r.2.inodePtrs
          ∧ r.2.inodePtr 1 = some 1) = true := by decide
    obtain ⟨⟨tr, fs⟩, he, hend⟩ := (Option.any_eq_true _ _).mp hend
    obtain ⟨hin, hmem, hptr⟩ := of_decide_eq_true hend
    refine ⟨tr, fs, he, fun hown => ?_, fun hstale => ?_⟩
    · obtain ⟨a, ha, -⟩ := hown ⟨13, 2, none⟩ (by rw [hin]; exact List.mem_singleton_self _)
      cases ha
    · obtain ⟨x, hx, hxp⟩ := hstale 1 hmem
      rw [hin] at hx
      rw [List.mem_singleton.mp hx, hptr] at hxp
      exact absurd hxp (by decide)

end Myfs

end OperatingSys
