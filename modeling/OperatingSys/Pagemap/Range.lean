import OperatingSys.Pagemap.Basic

/-!
The pages of an address range, `print_page` and `handle_virtual_range`.

The addresses are 64-bit values and a page's entry in `/proc/pid/pagemap` is the 8 bytes at
8 times its number. The loop may go on for ever when its bound is not the address of a
page, so it is a function of the number of turns it is given. Between addresses of pages
it ends, and makes the turns that the same addresses as natural numbers call for, each of
which prints what the entry of its page holds (`PageLine.Describes`, `range_visited`). What
`perror` reports is left out.
-/

namespace OperatingSys

namespace Pagemap

/-- `#define PAGE_SIZE 0x1000`. -/
def PAGE_SIZE : UInt64 := 0x1000

/-- The line `print_page` prints. -/
structure PageLine where
  address : UInt64
  pfn : UInt64
  softDirty : UInt64
  fileShared : UInt64
  swapped : UInt64
  present : UInt64
  library : List UInt8
  deriving DecidableEq

/-- `print_page`. -/
def printPage (address data : UInt64) (libName : List UInt8) : PageLine where
  address := address
  pfn := data &&& 0x7fffffffffffff
  softDirty := (data >>> 55) &&& 1
  fileShared := (data >>> 61) &&& 1
  swapped := (data >>> 62) &&& 1
  present := (data >>> 63) &&& 1
  library := libName

/-- **What a line is to say**: the address of the page and the name of its mapping, and of the
entry `data` the frame number, in its bits `0` to `54`, and the bits `55` and `61` to `63`. -/
structure PageLine.Describes (line : PageLine) (address data : UInt64) (libName : List UInt8) :
    Prop where
  address : line.address = address
  pfn : line.pfn.toNat = data.toNat % 2 ^ 55
  softDirty : line.softDirty.toNat = data.toNat / 2 ^ 55 % 2
  fileShared : line.fileShared.toNat = data.toNat / 2 ^ 61 % 2
  swapped : line.swapped.toNat = data.toNat / 2 ^ 62 % 2
  present : line.present.toNat = data.toNat / 2 ^ 63 % 2
  library : line.library = libName

/-- A bit of an entry. -/
lemma toNat_bit (data k : UInt64) (hk : k.toNat < 64) :
    ((data >>> k) &&& 1).toNat = data.toNat / 2 ^ k.toNat % 2 := by
  rw [UInt64.toNat_and, UInt64.toNat_shiftRight, Nat.mod_eq_of_lt hk, Nat.shiftRight_eq_div_pow]
  exact Nat.and_one_is_mod _

lemma printPage_describes (address data : UInt64) (libName : List UInt8) :
    (printPage address data libName).Describes address data libName where
  address := rfl
  pfn := by
    rw [printPage, UInt64.toNat_and]
    exact Nat.and_two_pow_sub_one_eq_mod data.toNat 55
  softDirty := toNat_bit data 55 (by decide)
  fileShared := toNat_bit data 61 (by decide)
  swapped := toNat_bit data 62 (by decide)
  present := toNat_bit data 63 (by decide)
  library := rfl

/-- A turn of the loop: the address, the offset `pread` was given, and what was printed. -/
structure PageTurn where
  address : UInt64
  index : UInt64
  printed : Option PageLine
  deriving DecidableEq

section Loop

variable (pread : UInt64 → Option UInt64) (endAddress : UInt64) (libName : List UInt8)

/-- `for(uint64_t i = ..; i < end_address; i += 0x1000)`, from the address `i` on: the turns
it makes, `none` when it has not ended after so many. `pread` gives the 8 bytes at an
offset, `none` when it does not return 8. -/
def pageLoop : ℕ → UInt64 → Option (List PageTurn)
  | 0, _ => none
  | n + 1, i =>
      if i < endAddress then
        let index := (i / PAGE_SIZE) * 8
        match pread index with
        | none => some [⟨i, index, none⟩]
        | some data =>
            (pageLoop n (i + 0x1000)).map (⟨i, index, some (printPage i data libName)⟩ :: ·)
      else some []

/-- `handle_virtual_range`. -/
def handleVirtualRange (startAddress : UInt64) (n : ℕ) : Option (List PageTurn) :=
  pageLoop pread endAddress libName n startAddress

end Loop

/-! ### The pages as numbers -/

/-- The addresses from `low` on below `high`, a page apart. -/
def pageAddresses (low high : ℕ) : List ℕ := List.range' low ((high - low) / 4096) 4096

/-- The offset of a page's entry. -/
def entryOffset (p : ℕ) : ℕ := 8 * (p / 4096)

/-- The entry of a page can be read. -/
def readable (pread : UInt64 → Option UInt64) (p : ℕ) : Bool :=
  (pread (UInt64.ofNat (entryOffset p))).isSome

/-- The pages before the first one that cannot be read, and this one. -/
def visited (pread : UInt64 → Option UInt64) (pages : List ℕ) : List ℕ :=
  pages.takeWhile (readable pread) ++ (pages.dropWhile (readable pread)).take 1

lemma visited_cons (pread : UInt64 → Option UInt64) (p : ℕ) (pages : List ℕ) :
    visited pread (p :: pages) = p :: if readable pread p then visited pread pages else [] := by
  rw [visited, List.takeWhile_cons, List.dropWhile_cons]
  split_ifs <;> rfl

/-! ### The loop -/

variable {pread : UInt64 → Option UInt64} {endAddress i : UInt64} {libName : List UInt8}

lemma toNat_index (i : UInt64) : ((i / PAGE_SIZE) * 8).toNat = entryOffset i.toNat := by
  have hi := i.toNat_lt
  rw [UInt64.toNat_mul, UInt64.toNat_div, entryOffset]
  change i.toNat / 4096 * 8 % 2 ^ 64 = _
  omega

lemma readable_toNat (pread : UInt64 → Option UInt64) (i : UInt64) :
    readable pread i.toNat = (pread ((i / PAGE_SIZE) * 8)).isSome := by
  rw [readable, ← toNat_index, UInt64.ofNat_toNat]

/-- What a turn does at its address. -/
structure PageTurn.Proper (pread : UInt64 → Option UInt64) (libName : List UInt8)
    (t : PageTurn) : Prop where
  index : t.index.toNat = entryOffset t.address.toNat
  printed : t.printed = (pread t.index).map fun data => printPage t.address data libName

/-- The loop from an address that is some pages below the bound. -/
lemma pageLoop_eq {k : ℕ} (h : i.toNat + 4096 * k = endAddress.toNat) :
    ∃ turns, (∀ n, k < n → pageLoop pread endAddress libName n i = some turns)
      ∧ turns.map (fun t => t.address.toNat) = visited pread (List.range' i.toNat k 4096)
      ∧ ∀ t ∈ turns, t.Proper pread libName := by
  induction k generalizing i with
  | zero =>
      have hge : ¬ i < endAddress := by
        rw [UInt64.lt_iff_toNat_lt]
        omega
      refine ⟨[], fun n hn => ?_, rfl, by simp⟩
      obtain ⟨n, rfl⟩ := Nat.exists_eq_succ_of_ne_zero (Nat.ne_of_gt hn)
      rw [pageLoop, if_neg hge]
  | succ k ih =>
      have hlt : i < endAddress := by
        rw [UInt64.lt_iff_toNat_lt]
        omega
      -- the next address is at most the bound, so the addition does not wrap
      have hend := endAddress.toNat_lt
      have hnext : (i + 0x1000).toNat = i.toNat + 4096 := by
        rw [UInt64.toNat_add]
        change (i.toNat + 4096) % 2 ^ 64 = _
        omega
      rw [List.range'_succ, visited_cons, readable_toNat]
      cases hread : pread ((i / PAGE_SIZE) * 8) with
      | none =>
          refine ⟨[⟨i, (i / PAGE_SIZE) * 8, none⟩], fun n hn => ?_, rfl, ?_⟩
          · obtain ⟨n, rfl⟩ := Nat.exists_eq_succ_of_ne_zero (Nat.ne_zero_of_lt hn)
            simp only [pageLoop, if_pos hlt, hread]
          · rintro t (_ | ⟨_, ht⟩)
            · exact ⟨toNat_index i, by rw [hread]; rfl⟩
            · cases ht
      | some data =>
          obtain ⟨turns, hloop, hmap, hall⟩ := ih (i := i + 0x1000) (by omega)
          refine ⟨⟨i, (i / PAGE_SIZE) * 8, some (printPage i data libName)⟩ :: turns,
            fun n hn => ?_, ?_, ?_⟩
          · obtain ⟨n, rfl⟩ := Nat.exists_eq_succ_of_ne_zero (Nat.ne_zero_of_lt hn)
            simp only [pageLoop, if_pos hlt, hread, hloop n (Nat.lt_of_succ_lt_succ hn),
              Option.map_some]
          · rw [List.map_cons, hmap, hnext]
            rfl
          · rintro t (_ | ⟨_, ht⟩)
            · exact ⟨toNat_index i, by rw [hread]; rfl⟩
            · exact hall t ht

/-- **The pages of a range**: between two addresses of pages the loop ends, after the same
turns however long it is watched. The addresses of the turns are those of the pages, in
ascending order, up to the first that cannot be read; each reads the entry of its page
and prints what it has read, and the line says what the entry holds. -/
theorem range_visited (pread : UInt64 → Option UInt64) (startAddress endAddress : UInt64)
    (libName : List UInt8) (hstart : 4096 ∣ startAddress.toNat) (hend : 4096 ∣ endAddress.toNat)
    (hle : startAddress ≤ endAddress) :
    ∃ turns n₀, (∀ n, n₀ ≤ n →
        handleVirtualRange pread endAddress libName startAddress n = some turns)
      ∧ turns.map (fun t => t.address.toNat)
        = visited pread (pageAddresses startAddress.toNat endAddress.toNat)
      ∧ ∀ t ∈ turns, t.index.toNat = 8 * (t.address.toNat / 4096)
        ∧ t.printed = (pread t.index).map (fun data => printPage t.address data libName)
        ∧ ∀ line, t.printed = some line → ∃ data, pread t.index = some data
          ∧ line.Describes t.address data libName := by
  have hnat : startAddress.toNat ≤ endAddress.toNat := UInt64.le_iff_toNat_le.mp hle
  have hk : startAddress.toNat + 4096 * ((endAddress.toNat - startAddress.toNat) / 4096)
      = endAddress.toNat := by omega
  obtain ⟨turns, hloop, hmap, hall⟩ := @pageLoop_eq pread _ _ libName _ hk
  refine ⟨turns, (endAddress.toNat - startAddress.toNat) / 4096 + 1, hloop, hmap, ?_⟩
  refine fun t ht => ⟨(hall t ht).index, (hall t ht).printed, fun line hline => ?_⟩
  obtain ⟨data, hdata, rfl⟩ := Option.map_eq_some_iff.mp ((hall t ht).printed.symm.trans hline)
  exact ⟨data, hdata, printPage_describes t.address data libName⟩

/-- The entries of a process in which one can be read, of the page `0xffffffffffffd000`. -/
def topEntry (index : UInt64) : Option UInt64 :=
  if index = 0x7fffffffffffe8 then some 0xa080000000000005 else none

/-- The last two pages of the address space but one, the second of which cannot be read. -/
theorem range_visited_top : ∃ turns n₀, (∀ n, n₀ ≤ n →
      handleVirtualRange topEntry 0xfffffffffffff000 [108, 105, 98] 0xffffffffffffd000 n
        = some turns)
    ∧ turns.map (fun t => t.address.toNat)
      = visited topEntry
        (pageAddresses (0xffffffffffffd000 : UInt64).toNat (0xfffffffffffff000 : UInt64).toNat)
    ∧ ∀ t ∈ turns, t.index.toNat = 8 * (t.address.toNat / 4096)
      ∧ t.printed = (topEntry t.index).map (fun data => printPage t.address data [108, 105, 98])
      ∧ ∀ line, t.printed = some line → ∃ data, topEntry t.index = some data
        ∧ line.Describes t.address data [108, 105, 98] :=
  range_visited _ _ _ _ (by decide) (by decide) (by decide)

end Pagemap

end OperatingSys
