import Mathlib.Data.List.Nodup
import Mathlib.Data.List.ReduceOption
import Mathlib.Logic.Function.Basic
import OperatingSys.Foundations.Machine

/-!
The file system module `os_02/lab_07/src/myfs.c`: loading, mounting, unmounting and
unloading, with the entries it keeps for its inodes.

A move is one of these operations with the answers the kernel gives to the calls made in
it. The only inode of a mounted file system is its root, which the unmount evicts through
functions of the kernel; the module does not see it. Operations are taken one at a time.
-/

namespace OperatingSys

namespace Myfs

def MYFS_MAX_CACHE : ℕ := 12

def ENOMEM : ℤ := 12

def EBUSY : ℤ := 16

/-- An allocator's choice of an address, given those in use. -/
structure Fresh where
  pick : List ℕ → ℕ
  pick_notMem : ∀ l, pick l ∉ l

/-- `struct inode`: its address, its links and the entry of the module it points to. -/
structure Inode where
  addr : ℕ
  iNlink : ℕ
  iPrivate : Option ℕ
  deriving DecidableEq

/-- The module and what the kernel holds of it. -/
structure Fs where
  /-- `myfs_fs_type` is in the kernel's list of file systems. -/
  registered : Bool
  loaded : Bool
  /-- The memory of `inode_ptrs` is allocated. -/
  ptrsAllocated : Bool
  /-- `inode_cache` exists. -/
  cacheCreated : Bool
  /-- `inode_ptrs` below `cached_count`, `none` for a null pointer. -/
  inodePtrs : List (Option ℕ)
  /-- The entries allocated from `inode_cache`. -/
  infos : List ℕ
  /-- The field `inode_ptr` of an entry. -/
  inodePtr : ℕ → Option ℕ
  /-- The inodes that are live. -/
  inodes : List Inode
  /-- The kernel has come to code or memory that is no longer there. -/
  dead : Bool

/-! ### The functions of the module -/

/-- `cache_get_inode`, with the answer of `kmem_cache_alloc`. -/
def cacheGetInode (alloc : Option Fresh) (fs : Fs) : Option ℕ × Fs :=
  if fs.inodePtrs.length = MYFS_MAX_CACHE then (none, fs)
  else
    let entry := alloc.map fun a => a.pick fs.infos
    (entry, { fs with
      inodePtrs := fs.inodePtrs ++ [entry], infos := fs.infos ++ entry.toList })

/-- `own_cache->inode_ptr = inode`, where `own_cache` is not null. -/
def Fs.setInodePtr (fs : Fs) (own : Option ℕ) (addr : ℕ) : Fs :=
  match own with
  | none => fs
  | some e => { fs with inodePtr := Function.update fs.inodePtr e (some addr) }

/-- `myfs_get_inode` for a directory, with the answers of `new_inode` and
`kmem_cache_alloc`. -/
def myfsGetInode (newInode alloc : Option Fresh) (fs : Fs) : Option Inode × Fs :=
  match newInode with
  | none => (none, fs)
  | some a =>
      let addr := a.pick (fs.inodes.map Inode.addr)
      let (own, fs) := cacheGetInode alloc fs
      let fs := fs.setInodePtr own addr
      -- a new inode has one link, and a directory gets another
      let inode : Inode := ⟨addr, 2, own⟩
      (some inode, { fs with inodes := fs.inodes ++ [inode] })

/-- What an operation comes to. -/
inductive FsEvent where
  /-- `myfs_init` has returned. -/
  | loads (ret : ℤ)
  /-- `myfs_fill_super` has returned `0`, with this root. -/
  | mounts (root : Inode)
  | mountFails (ret : ℤ)
  /-- The null pointer `root_inode` has been dereferenced. -/
  | nullDeref
  /-- An inode that was released already has been released once more, and the kernel does
  not come back from it. -/
  | badIput
  /-- `myfs_mount` has been called when the module was not there any more. -/
  | gone
  | unmounts
  /-- `myfs_exit` has returned: the pointers it has passed to `kmem_cache_free`. -/
  | unloads (freed : List (Option ℕ))
  deriving DecidableEq

/-- `myfs_fill_super`, with the answers of `new_inode`, `kmem_cache_alloc` and
`d_make_root`, and whether the kernel comes back from releasing a released inode. -/
def myfsFillSuper (newInode alloc : Option Fresh) (dMakeRoot iput : Bool) (fs : Fs) :
    FsEvent × Fs :=
  match myfsGetInode newInode alloc fs with
  -- `printk` reads `root_inode->i_nlink` before the pointer is tested
  | (none, fs) => (.nullDeref, { fs with dead := true })
  | (some root, fs) =>
      if dMakeRoot then (.mounts root, fs)
      else
        -- `d_make_root` releases the inode when it fails, and `iput` does it again
        let fs := { fs with inodes := fs.inodes.erase root }
        if iput then (.mountFails (-ENOMEM), fs) else (.badIput, { fs with dead := true })

/-- `free_own_icache`: the pointers it passes to `kmem_cache_free`. -/
def freeOwnIcache (fs : Fs) : List (Option ℕ) := fs.inodePtrs

/-- `myfs_init`, with the answers of `register_filesystem`, `kmalloc` and
`kmem_cache_create`. The static variables of the module are zero. -/
def myfsInit (register kmalloc create : Bool) (fs : Fs) : ℤ × Fs :=
  if register then
    let fs := { fs with registered := true, inodePtrs := [] }
    if kmalloc then
      let fs := { fs with ptrsAllocated := true }
      if create then (0, { fs with cacheCreated := true })
      else (-ENOMEM, { fs with ptrsAllocated := false })
    else (-ENOMEM, fs)
  else (-EBUSY, fs)

/-- `myfs_exit`. -/
def myfsExit (fs : Fs) : FsEvent × Fs :=
  (.unloads (freeOwnIcache fs),
    { fs with
      infos := fs.infos.filter fun e => some e ∉ freeOwnIcache fs, cacheCreated := false
      ptrsAllocated := false, registered := false, loaded := false, inodePtrs := [] })

/-! ### The machine -/

/-- An operation with the kernel's answers. -/
inductive Move where
  | load (register kmalloc create : Bool)
  | mount (newInode alloc : Option Fresh) (dMakeRoot iput : Bool)
  /-- The inode with this address is evicted. -/
  | unmount (root : ℕ)
  | unload

/-- A module that is loaded is not loaded again, and is not unloaded while it is mounted.
What is registered is not registered again, and what is not cannot be mounted. -/
def life : Machine Fs Move FsEvent where
  step fs m :=
    if fs.dead then none
    else
      match m with
      | .load register kmalloc create =>
          if fs.loaded then none
          else
            let (ret, fs) := myfsInit (register && !fs.registered) kmalloc create fs
            some (.loads ret, { fs with loaded := decide (ret = 0) })
      | .mount newInode alloc dMakeRoot iput =>
          if fs.registered then
            if fs.loaded then some (myfsFillSuper newInode alloc dMakeRoot iput fs)
            else some (.gone, { fs with dead := true })
          else none
      | .unmount root =>
          if root ∈ fs.inodes.map Inode.addr then
            some (.unmounts, { fs with inodes := fs.inodes.filter fun x => x.addr ≠ root })
          else none
      | .unload => if fs.loaded ∧ fs.inodes = [] then some (myfsExit fs) else none

/-- The machine before the first load, with any contents of memory. -/
def unloaded (mem : ℕ → Option ℕ) : Fs :=
  ⟨false, false, false, false, [], [], mem, [], false⟩

/-- The state a successful load leaves. -/
def loadedFs (mem : ℕ → Option ℕ) : Fs := ⟨true, true, true, true, [], [], mem, [], false⟩

/-! ### What an operation does -/

section Steps

variable {fs fs' : Fs} {e : FsEvent} {newInode alloc : Option Fresh}
  {register kmalloc create dMakeRoot iput : Bool} {root : ℕ}

lemma load_iff : life.step fs (.load register kmalloc create) = some (e, fs') ↔
    fs.dead = false ∧ fs.loaded = false
      ∧ .loads (myfsInit (register && !fs.registered) kmalloc create fs).1 = e
      ∧ { (myfsInit (register && !fs.registered) kmalloc create fs).2 with
          loaded := decide ((myfsInit (register && !fs.registered) kmalloc create fs).1 = 0) }
        = fs' := by
  cases hd : fs.dead <;> cases hl : fs.loaded <;> simp [life, hd, hl]

lemma mount_iff : life.step fs (.mount newInode alloc dMakeRoot iput) = some (e, fs') ↔
    fs.dead = false ∧ fs.registered = true
      ∧ (fs.loaded = true ∧ myfsFillSuper newInode alloc dMakeRoot iput fs = (e, fs')
        ∨ fs.loaded = false ∧ .gone = e ∧ { fs with dead := true } = fs') := by
  cases hd : fs.dead <;> cases hr : fs.registered <;> cases hl : fs.loaded <;>
    simp [life, hd, hr, hl]

lemma unmount_iff : life.step fs (.unmount root) = some (e, fs') ↔
    fs.dead = false ∧ root ∈ fs.inodes.map Inode.addr ∧ .unmounts = e
      ∧ { fs with inodes := fs.inodes.filter fun x => x.addr ≠ root } = fs' := by
  cases hd : fs.dead <;> by_cases hr : root ∈ fs.inodes.map Inode.addr <;>
    simp only [life, hd, hr, if_true, if_false, Bool.false_eq_true] <;> simp

lemma unload_iff : life.step fs .unload = some (e, fs') ↔
    fs.dead = false ∧ fs.loaded = true ∧ fs.inodes = [] ∧ myfsExit fs = (e, fs') := by
  cases hd : fs.dead <;> cases hl : fs.loaded <;> by_cases hi : fs.inodes = [] <;>
    simp [life, hd, hl, hi]

end Steps

/-! ### What every run keeps -/

/-- The entries are the pointers of the table that are not null, once each; no two live
inodes share an address; and a module that is not loaded has nothing. -/
structure InOrder (fs : Fs) : Prop where
  paired : fs.infos = fs.inodePtrs.reduceOption
  nodup : fs.infos.Nodup
  addrs : (fs.inodes.map Inode.addr).Nodup
  empty : fs.loaded = false →
    fs.inodePtrs = [] ∧ fs.inodes = [] ∧ fs.ptrsAllocated = false ∧ fs.cacheCreated = false

lemma inOrder_unloaded (mem : ℕ → Option ℕ) : InOrder (unloaded mem) :=
  ⟨rfl, List.nodup_nil, List.nodup_nil, fun _ => ⟨rfl, rfl, rfl, rfl⟩⟩

variable {fs fs' : Fs} {newInode alloc : Option Fresh}

/-- A full table gives no entry. -/
lemma cacheGetInode_full (h : fs.inodePtrs.length = MYFS_MAX_CACHE) :
    cacheGetInode alloc fs = (none, fs) := if_pos h

/-- A table with room gives what the allocator gives, and records it. -/
lemma cacheGetInode_room (h : fs.inodePtrs.length ≠ MYFS_MAX_CACHE) :
    cacheGetInode alloc fs = (alloc.map fun a => a.pick fs.infos,
      { fs with
        inodePtrs := fs.inodePtrs ++ [alloc.map fun a => a.pick fs.infos]
        infos := fs.infos ++ (alloc.map fun a => a.pick fs.infos).toList }) := if_neg h

/-- What `cache_get_inode` leaves alone. -/
lemma cacheGetInode_frame (alloc : Option Fresh) (fs : Fs) : ∃ ptrs infos,
    (cacheGetInode alloc fs).2 = { fs with inodePtrs := ptrs, infos := infos } := by
  by_cases hfull : fs.inodePtrs.length = MYFS_MAX_CACHE
  · exact ⟨_, _, by rw [cacheGetInode_full hfull]⟩
  · exact ⟨_, _, by rw [cacheGetInode_room hfull]⟩

@[simp] lemma cacheGetInode_loaded : (cacheGetInode alloc fs).2.loaded = fs.loaded := by
  obtain ⟨ptrs, infos, h⟩ := cacheGetInode_frame alloc fs
  rw [h]

@[simp] lemma cacheGetInode_inodes : (cacheGetInode alloc fs).2.inodes = fs.inodes := by
  obtain ⟨ptrs, infos, h⟩ := cacheGetInode_frame alloc fs
  rw [h]

/-- An entry is taken in order. -/
lemma InOrder.cacheGetInode (h : InOrder fs) (hl : fs.loaded = true) :
    InOrder (cacheGetInode alloc fs).2 := by
  by_cases hfull : fs.inodePtrs.length = MYFS_MAX_CACHE
  · rwa [cacheGetInode_full hfull]
  · rw [cacheGetInode_room hfull]
    refine ⟨?_, ?_, h.addrs, fun hl' => absurd (hl.symm.trans hl') (by decide)⟩
    · dsimp only
      rw [← List.concat_eq_append, List.reduceOption_concat, h.paired]
    · cases alloc with
      | none => simpa using h.nodup
      | some a =>
          rw [Option.map_some, Option.toList_some, List.nodup_append]
          refine ⟨h.nodup, List.nodup_singleton _, fun e he e' he' hee => ?_⟩
          rw [List.mem_singleton.mp he'] at hee
          exact a.pick_notMem _ (hee ▸ he)

lemma InOrder.setInodePtr (h : InOrder fs) (own : Option ℕ) (addr : ℕ) :
    InOrder (fs.setInodePtr own addr) := by
  cases own <;> exact ⟨h.paired, h.nodup, h.addrs, h.empty⟩

@[simp] lemma setInodePtr_loaded (own : Option ℕ) (addr : ℕ) :
    (fs.setInodePtr own addr).loaded = fs.loaded := by cases own <;> rfl

@[simp] lemma setInodePtr_inodes (own : Option ℕ) (addr : ℕ) :
    (fs.setInodePtr own addr).inodes = fs.inodes := by cases own <;> rfl

/-- An inode at a new address. -/
lemma InOrder.addInode (h : InOrder fs) (hl : fs.loaded = true) {x : Inode}
    (hx : x.addr ∉ fs.inodes.map Inode.addr) :
    InOrder { fs with inodes := fs.inodes ++ [x] } where
  paired := h.paired
  nodup := h.nodup
  addrs := by
    rw [List.map_append, List.nodup_append]
    refine ⟨h.addrs, List.nodup_singleton _, fun a ha b hb hab => hx ?_⟩
    rw [← List.mem_singleton.mp hb, ← hab]
    exact ha
  empty hl' := absurd (hl.symm.trans hl') (by decide)

/-- Fewer inodes. -/
lemma InOrder.sublist (h : InOrder fs) {l : List Inode} (hl : l.Sublist fs.inodes) :
    InOrder { fs with inodes := l } where
  paired := h.paired
  nodup := h.nodup
  addrs := h.addrs.sublist (hl.map _)
  empty hl' := by
    obtain ⟨hptrs, hin, hrest⟩ := h.empty hl'
    rw [hin] at hl
    exact ⟨hptrs, List.sublist_nil.mp hl, hrest⟩

lemma InOrder.die (h : InOrder fs) : InOrder { fs with dead := true } :=
  ⟨h.paired, h.nodup, h.addrs, h.empty⟩

lemma InOrder.myfsGetInode (h : InOrder fs) (hl : fs.loaded = true)
    (newInode alloc : Option Fresh) : InOrder (myfsGetInode newInode alloc fs).2 := by
  cases newInode with
  | none => exact h
  | some a =>
      refine ((h.cacheGetInode hl).setInodePtr _ _).addInode ?_ ?_
      · simpa using hl
      · simpa using a.pick_notMem (fs.inodes.map Inode.addr)

lemma InOrder.myfsFillSuper (h : InOrder fs) (hl : fs.loaded = true)
    (newInode alloc : Option Fresh) (dMakeRoot iput : Bool) :
    InOrder (myfsFillSuper newInode alloc dMakeRoot iput fs).2 := by
  have hget := h.myfsGetInode hl newInode alloc
  rw [Myfs.myfsFillSuper]
  split
  · next heq =>
      rw [heq] at hget
      exact hget.die
  · next root fs' heq =>
      rw [heq] at hget
      have herase : InOrder { fs' with inodes := fs'.inodes.erase root } :=
        hget.sublist (List.erase_sublist)
      cases dMakeRoot <;> cases iput
      · exact herase.die
      · exact herase
      · exact hget
      · exact hget

/-- The entries are all given back by `myfs_exit`. -/
lemma InOrder.exit_infos (h : InOrder fs) : (myfsExit fs).2.infos = [] := by
  refine List.filter_eq_nil_iff.mpr fun e he => ?_
  rw [h.paired, List.reduceOption_mem_iff] at he
  exact fun hne => of_decide_eq_true hne he

/-- Every operation keeps the order. -/
lemma InOrder.step {m : Move} {e : FsEvent} (h : InOrder fs)
    (hs : life.step fs m = some (e, fs')) : InOrder fs' := by
  cases m with
  | load register kmalloc create =>
      obtain ⟨-, hl, -, rfl⟩ := load_iff.mp hs
      obtain ⟨hptrs, hin, hpa, hcc⟩ := h.empty hl
      have hinfos : fs.infos = [] := by rw [h.paired, hptrs, List.reduceOption_nil]
      rw [myfsInit]
      cases (register && !fs.registered) <;> cases kmalloc <;> cases create <;>
        refine ⟨?_, h.nodup, h.addrs, ?_⟩ <;>
        simp [hptrs, hin, hinfos, hpa, hcc, EBUSY, ENOMEM]
  | mount newInode alloc dMakeRoot iput =>
      obtain ⟨-, -, ⟨hl, hr⟩ | ⟨-, -, rfl⟩⟩ := mount_iff.mp hs
      · have := h.myfsFillSuper hl newInode alloc dMakeRoot iput
        rwa [hr] at this
      · exact h.die
  | unmount root =>
      obtain ⟨-, -, -, rfl⟩ := unmount_iff.mp hs
      exact h.sublist List.filter_sublist
  | unload =>
      obtain ⟨-, -, hin, hr⟩ := unload_iff.mp hs
      have hinfos := h.exit_infos
      rw [hr] at hinfos
      cases hr
      refine ⟨hinfos, ?_, h.addrs, fun _ => ⟨rfl, hin, rfl, rfl⟩⟩
      rw [hinfos]
      exact List.nodup_nil

theorem InOrder.reachable (h : InOrder fs) (hr : life.Reachable fs fs') : InOrder fs' :=
  Machine.Reachable.invariant h (fun _ _ _ _ hI hs => hI.step hs) hr

end Myfs

end OperatingSys
