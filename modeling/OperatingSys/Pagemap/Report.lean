import OperatingSys.Pagemap.Range
import OperatingSys.Pagemap.Reads

/-!
The report of a process: `pagemap_info` from the maps file to the lines it prints.

`parse_maps` calls `handle_virtual_range` for the lines of the maps file, and this prints a
line for each page of the range up to the first that cannot be read. For a file of mappings in
ascending order the report has one line for each of these pages, in ascending order, with what
its entry holds and with the name of its mapping (`report_of_maps`).
-/

namespace OperatingSys

namespace Pagemap

/-- What the calls of `handle_virtual_range` print, in loops of so many turns. -/
def printRanges (pread : UInt64 → Option UInt64) (n : ℕ) :
    List VirtualRange → Option (List PageLine)
  | [] => some []
  | c :: cs => do
      let turns ← handleVirtualRange pread c.high c.libName c.low n
      let rest ← printRanges pread n cs
      return turns.filterMap PageTurn.printed ++ rest

/-- `pagemap_info`: what is printed when `read` brings `reads` of the maps file and `pread` the
entries of the pagemap file. -/
def pagemapInfo (pread : UInt64 → Option UInt64) (n : ℕ) (b : Buffer)
    (reads : List ReadResult) : Option (List PageLine) :=
  (parseMaps b reads).bind (printRanges pread n)

/-! ### The lines of a range -/

/-- The entry of a page, if it can be read. -/
def entry (pread : UInt64 → Option UInt64) (p : ℕ) : UInt64 :=
  (pread (UInt64.ofNat (entryOffset p))).getD 0

/-- The lines for the pages of a range. -/
def pageLines (pread : UInt64 → Option UInt64) (libName : List UInt8) (pages : List ℕ) :
    List PageLine :=
  (pages.takeWhile (readable pread)).map fun p =>
    printPage (UInt64.ofNat p) (entry pread p) libName

variable {pread : UInt64 → Option UInt64} {libName : List UInt8}

/-- The line of a turn, from the address of its page. -/
lemma PageTurn.Proper.printed_eq {t : PageTurn} (h : t.Proper pread libName) :
    t.printed = (pread (UInt64.ofNat (entryOffset t.address.toNat))).map fun data =>
      printPage (UInt64.ofNat t.address.toNat) data libName := by
  rw [h.printed, ← h.index, UInt64.ofNat_toNat, UInt64.ofNat_toNat]

lemma readable_eq_true {p : ℕ} (h : readable pread p = true) :
    pread (UInt64.ofNat (entryOffset p)) = some (entry pread p) := by
  obtain ⟨data, hdata⟩ := Option.isSome_iff_exists.mp h
  rw [entry, hdata, Option.getD_some]

/-- What the turns of a range print. -/
lemma filterMap_printed {turns : List PageTurn} {pages : List ℕ}
    (hmap : turns.map (fun t => t.address.toNat) = visited pread pages)
    (hall : ∀ t ∈ turns, t.Proper pread libName) :
    turns.filterMap PageTurn.printed = pageLines pread libName pages := by
  -- a turn prints the line of its page
  have hprinted : turns.filterMap PageTurn.printed
      = (visited pread pages).filterMap fun p => (pread (UInt64.ofNat (entryOffset p))).map
        fun data => printPage (UInt64.ofNat p) data libName := by
    rw [← hmap, List.filterMap_map]
    exact List.filterMap_congr fun t ht => (hall t ht).printed_eq
  -- in front are the pages that can be read
  have hfront : (pages.takeWhile (readable pread)).filterMap (fun p =>
      (pread (UInt64.ofNat (entryOffset p))).map fun data =>
        printPage (UInt64.ofNat p) data libName) = pageLines pread libName pages := by
    rw [pageLines, ← List.filterMap_eq_map]
    refine List.filterMap_congr fun p hp => ?_
    rw [readable_eq_true (List.mem_takeWhile_imp hp)]
    rfl
  -- then comes at most one that cannot
  have hlast : ((pages.dropWhile (readable pread)).take 1).filterMap (fun p =>
      (pread (UInt64.ofNat (entryOffset p))).map fun data =>
        printPage (UInt64.ofNat p) data libName) = [] := by
    cases hrest : pages.dropWhile (readable pread) with
    | nil => rfl
    | cons p rest =>
        have hp : ¬ readable pread p = true := by
          have hhead := List.head_dropWhile_not (readable pread) (l := pages) (by simp [hrest])
          simpa [hrest] using hhead
        have hnone : pread (UInt64.ofNat (entryOffset p)) = none := by
          simpa [readable] using hp
        simp [hnone]
  rw [hprinted, visited, List.filterMap_append, hfront, hlast, List.append_nil]

/-! ### The lines of the file -/

namespace MapsLine

/-- The mapping of a line lies between two addresses of pages. -/
structure Paged (l : MapsLine) : Prop where
  low : 4096 ∣ hexNat l.low
  high : 4096 ∣ hexNat l.high
  le : hexNat l.low ≤ hexNat l.high

/-- The pages of a mapping. -/
def pages (l : MapsLine) : List ℕ := pageAddresses (hexNat l.low) (hexNat l.high)

lemma mem_pages {l : MapsLine} {p : ℕ} (h : l.Paged) (hp : p ∈ l.pages) :
    hexNat l.low ≤ p ∧ p < hexNat l.high := by
  obtain ⟨i, hi, rfl⟩ := List.mem_range'.mp hp
  have hhigh := h.high
  have hlow := h.low
  omega

end MapsLine

/-- The call for a line prints the lines of its pages. -/
lemma handleVirtualRange_range (pread : UInt64 → Option UInt64) {l : MapsLine} (h : l.Paged) :
    ∃ turns n₀, (∀ n, n₀ ≤ n →
      handleVirtualRange pread l.range.high l.range.libName l.range.low n = some turns)
      ∧ turns.filterMap PageTurn.printed = pageLines pread l.name l.pages := by
  have hlow : l.range.low.toNat = hexNat l.low := l.isHex_low.toNat
  have hhigh : l.range.high.toNat = hexNat l.high := l.isHex_high.toNat
  have hk : l.range.low.toNat + 4096 * ((hexNat l.high - hexNat l.low) / 4096)
      = l.range.high.toNat := by
    have hdl := h.low
    have hdh := h.high
    have hle := h.le
    rw [hlow, hhigh]
    omega
  obtain ⟨turns, hloop, hmap, hall⟩ := @pageLoop_eq pread _ _ l.name _ hk
  rw [hlow] at hmap
  exact ⟨turns, _, hloop, filterMap_printed hmap hall⟩

/-- The calls for the lines of a file. -/
lemma printRanges_ranges (pread : UInt64 → Option UInt64) {ls : List MapsLine}
    (h : ∀ l ∈ ls, l.Paged) : ∃ n₀, ∀ n, n₀ ≤ n → printRanges pread n (ls.map MapsLine.range)
      = some (ls.flatMap fun l => pageLines pread l.name l.pages) := by
  induction ls with
  | nil => exact ⟨0, fun _ _ => rfl⟩
  | cons l ls ih =>
      obtain ⟨n₁, hrest⟩ := ih fun l' hl' => h l' (List.mem_cons_of_mem l hl')
      obtain ⟨turns, n₂, hturns, hprinted⟩ := handleVirtualRange_range pread
        (h l List.mem_cons_self)
      refine ⟨max n₁ n₂, fun n hn => ?_⟩
      rw [List.map_cons, printRanges, hturns n (le_of_max_le_right hn),
        hrest n (le_of_max_le_left hn), List.flatMap_cons, ← hprinted]
      rfl

/-- Pages of mappings in ascending order, taken from each in their order. -/
lemma pairwise_pages {ls : List MapsLine} (h : ∀ l ∈ ls, l.Paged)
    (hasc : ls.Pairwise fun l l' => hexNat l.high ≤ hexNat l'.low) {f : MapsLine → List ℕ}
    (hf : ∀ l, (f l).Sublist l.pages) : (ls.flatMap f).Pairwise (· < ·) := by
  rw [List.pairwise_flatMap]
  refine ⟨fun l _ => (List.pairwise_lt_range' 4096 (by omega)).sublist (hf l), ?_⟩
  refine hasc.imp_of_mem fun {l l'} hl hl' hle p hp q hq => ?_
  exact (MapsLine.mem_pages (h l hl) ((hf l).subset hp)).2.trans_le
    (hle.trans (MapsLine.mem_pages (h l' hl') ((hf l').subset hq)).1)

lemma toNat_address {l : MapsLine} (h : l.Paged) {p : ℕ} (hp : p ∈ l.pages) :
    (UInt64.ofNat p).toNat = p := by
  rw [UInt64.toNat_ofNat']
  exact Nat.mod_eq_of_lt ((MapsLine.mem_pages h hp).2.trans l.isHex_high.hexNat_lt)

/-- The pages that the report has a line for, each with the line of its mapping. -/
def readablePages (pread : UInt64 → Option UInt64) (ls : List MapsLine) : List (MapsLine × ℕ) :=
  ls.flatMap fun l => (l.pages.takeWhile (readable pread)).map (Prod.mk l)

/-- The addresses of the pages in the report ascend. -/
lemma pairwise_readablePages {ls : List MapsLine} (h : ∀ l ∈ ls, l.Paged)
    (hasc : ls.Pairwise fun l l' => hexNat l.high ≤ hexNat l'.low) :
    ((readablePages pread ls).map Prod.snd).Pairwise (· < ·) := by
  have hpages : (readablePages pread ls).map Prod.snd
      = ls.flatMap fun l => l.pages.takeWhile (readable pread) := by
    rw [readablePages, List.map_flatMap]
    refine List.flatMap_congr fun l _ => ?_
    rw [List.map_map]
    exact List.map_id _
  rw [hpages]
  exact pairwise_pages h hasc fun l => List.takeWhile_sublist _

/-- The lines for the pages of all mappings say what is to be said of them. -/
lemma forall₂_describes (pread : UInt64 → Option UInt64) {ls : List MapsLine}
    (h : ∀ l ∈ ls, l.Paged) :
    List.Forall₂ (fun line q => line.address.toNat = q.2
        ∧ line.Describes (UInt64.ofNat q.2) (entry pread q.2) q.1.name)
      (ls.flatMap fun l => pageLines pread l.name l.pages) (readablePages pread ls) := by
  have hmap : (ls.flatMap fun l => pageLines pread l.name l.pages)
      = (readablePages pread ls).map fun q =>
        printPage (UInt64.ofNat q.2) (entry pread q.2) q.1.name := by
    rw [readablePages, List.map_flatMap]
    refine List.flatMap_congr fun l _ => ?_
    rw [List.map_map]
    rfl
  rw [hmap, List.forall₂_map_left_iff, List.forall₂_same]
  intro q hq
  obtain ⟨l, hl, hq⟩ := List.mem_flatMap.mp hq
  obtain ⟨p, hp, rfl⟩ := List.mem_map.mp hq
  exact ⟨toNat_address (h l hl) ((List.takeWhile_sublist _).subset hp),
    printPage_describes _ _ _⟩

/-- **The report of a process**: for reads of whole lines, with mappings between addresses of
pages in ascending order, `pagemap_info` ends. It prints one line for each page of a mapping up
to the first that cannot be read, and the line says the address of the page, what its entry
holds and the name of the mapping; no address comes twice, and they ascend. -/
theorem report_of_maps (pread : UInt64 → Option UInt64) (b : Buffer) {reads : List ReadResult}
    {runs : List (List MapsLine)} (hreads : WholeLines reads runs)
    (hpaged : ∀ l ∈ runs.flatten, l.Paged)
    (hasc : runs.flatten.Pairwise fun l l' => hexNat l.high ≤ hexNat l'.low) :
    ∃ lines n₀, (∀ n, n₀ ≤ n → pagemapInfo pread n b reads = some lines)
      ∧ List.Forall₂ (fun line q => line.address.toNat = q.2
          ∧ line.Describes (UInt64.ofNat q.2) (entry pread q.2) q.1.name)
        lines (readablePages pread runs.flatten)
      ∧ (lines.map fun line => line.address.toNat).Pairwise (· < ·) := by
  obtain ⟨n₀, hprint⟩ := printRanges_ranges pread hpaged
  have hlines := forall₂_describes pread hpaged
  refine ⟨_, n₀, fun n hn => ?_, hlines, ?_⟩
  · rw [pagemapInfo, parseMaps_wholeLines b hreads, Option.bind_some]
    exact hprint n hn
  · have haddress : (runs.flatten.flatMap fun l => pageLines pread l.name l.pages).map
        (fun line => line.address.toNat) = (readablePages pread runs.flatten).map Prod.snd := by
      rw [← List.forall₂_eq_eq_eq, List.forall₂_map_left_iff, List.forall₂_map_right_iff]
      exact hlines.imp fun line q hline => hline.1
    rw [haddress]
    exact pairwise_readablePages hpaged hasc

/-- The line `"3000-4000 r 0 0 0 "`. -/
def onePage : MapsLine := { sampleLine with
  low := [51, 48, 48, 48]
  high := [52, 48, 48, 48]
  isHex_low := namedLine.isHex_high
  isHex_high := ⟨by simp [hexAlphabet], by decide⟩ }

/-- The entries of a process, of which the one at the offset 16 cannot be read. -/
def sampleEntries (index : UInt64) : Option UInt64 :=
  if index = 16 then none else some (0x8080000000000000 + index)

/-- A mapping of two pages with a name, the second of which cannot be read, and a mapping of one
page without a name in another read. -/
theorem report_of_maps_two_reads : ∃ lines n₀,
    (∀ n, n₀ ≤ n → pagemapInfo sampleEntries n .zeros
      [⟨namedLine.text, by decide, by decide⟩, ⟨onePage.text, by decide, by decide⟩] = some lines)
    ∧ List.Forall₂ (fun line q => line.address.toNat = q.2
        ∧ line.Describes (UInt64.ofNat q.2) (entry sampleEntries q.2) q.1.name)
      lines [(namedLine, 0x1000), (onePage, 0x3000)]
    ∧ (lines.map fun line => line.address.toNat).Pairwise (· < ·) :=
  report_of_maps sampleEntries .zeros
    (show WholeLines [⟨namedLine.text, by decide, by decide⟩, ⟨onePage.text, by decide, by decide⟩]
      [[namedLine], [onePage]] from rfl)
    (by simpa using ⟨⟨by decide, by decide, by decide⟩, by decide, by decide, by decide⟩)
    (by decide)

end Pagemap

end OperatingSys
