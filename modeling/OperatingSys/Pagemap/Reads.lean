import OperatingSys.Pagemap.Lines

/-!
The calls the maps parser makes on a file of well-formed lines.

A read that brings whole lines makes one call for each (`pieces_file`), so reads
that do make the calls of the file, whatever the buffer held before
(`parseMaps_lines`).

A line that a read boundary divides is not put together again: `offset` stays `0`
and the next piece is stored over the first half. Reads that bring whole lines
agree with each other, and on every file that is not empty there are others that do
not agree with them (`parseMaps_independent_iff`).
-/

namespace OperatingSys

namespace Pagemap

open MapsLine (file)

/-- Indices without a newline make no call. -/
lemma turns_quiet {b : Buffer} {i n : ℕ}
    (h : ∀ j < n, ∃ c, b.bytes[i + j]? = some c ∧ (c ≠ newline ∨ i + j = 0)) :
    ∃ tr, turns.exec (List.range' i n) b = some (tr, b) ∧ calls tr = [] := by
  induction n generalizing i with
  | zero => exact ⟨[], rfl, rfl⟩
  | succ n ih =>
      obtain ⟨c, hc, hq⟩ := h 0 (Nat.succ_pos n)
      have hturn : turns.step b i = some ([], b) := by
        change turn b i = _
        rw [Nat.add_zero] at hc hq
        rw [turn, hc, Option.bind_some, if_neg (by tauto)]
      obtain ⟨tr, hexec, hcalls⟩ := ih (i := i + 1) fun j hj => by
        obtain ⟨c', hc', hq'⟩ := h (j + 1) (by omega)
        rw [← Nat.add_assoc, Nat.add_right_comm] at hc' hq'
        exact ⟨c', hc', hq'⟩
      refine ⟨(i, []) :: tr, ?_, ?_⟩
      · rw [List.range'_succ]
        exact Machine.exec_cons_of_exec hturn hexec
      · rw [calls, List.flatMap_cons]
        exact hcalls

/-- The indices of a line make its call. -/
lemma turns_line (l : MapsLine) {b : Buffer} {pre rest : List UInt8}
    (hpre : lineStart pre pre.length = pre.length)
    (hb : b.bytes = pre ++ (l.body ++ newline :: rest)) :
    ∃ tr, turns.exec (List.range' pre.length (l.body.length + 1)) b = some (tr, b)
      ∧ calls tr = [l.range] := by
  have hbody : ∀ j < l.body.length, ∃ c, b.bytes[pre.length + j]? = some c
      ∧ (c ≠ newline ∨ pre.length + j = 0) := by
    intro j hj
    refine ⟨l.body[j], ?_, Or.inl fun h => l.newline_notMem_body (h ▸ List.getElem_mem hj)⟩
    rw [hb, List.getElem?_append_right (by omega), Nat.add_sub_cancel_left,
      List.getElem?_append_left hj, List.getElem?_eq_getElem hj]
  have hnl : b.bytes[pre.length + l.body.length]? = some newline := by
    rw [hb, List.getElem?_append_right (by omega), Nat.add_sub_cancel_left,
      List.getElem?_append_right le_rfl, Nat.sub_self]
    rfl
  have hturn : turns.step b (pre.length + l.body.length) = some ([l.range], b) := by
    have hpos := l.body_length_pos
    change turn b _ = _
    rw [turn, hnl, Option.bind_some, if_pos ⟨rfl, by omega⟩, parseLine_line l hpre hb,
      Option.map_some]
  obtain ⟨tr, hexec, hcalls⟩ := turns_quiet hbody
  refine ⟨tr ++ [(pre.length + l.body.length, [l.range])], ?_, ?_⟩
  · rw [List.range'_concat, Nat.one_mul]
    exact Machine.exec_snoc hexec hturn
  · rw [calls, List.flatMap_append, ← calls, hcalls]
    rfl

/-- The indices of some lines make their calls, in order. -/
lemma turns_file (ls : List MapsLine) {b : Buffer} {pre rest : List UInt8}
    (hpre : lineStart pre pre.length = pre.length) (hb : b.bytes = pre ++ (file ls ++ rest)) :
    ∃ tr, turns.exec (List.range' pre.length (file ls).length) b = some (tr, b)
      ∧ calls tr = ls.map MapsLine.range := by
  induction ls generalizing pre with
  | nil => exact ⟨[], rfl, rfl⟩
  | cons l ls ih =>
      have hline : b.bytes = pre ++ (l.body ++ newline :: (file ls ++ rest)) := by
        rw [hb]
        simp
      obtain ⟨tr, hexec, hcalls⟩ := turns_line l hpre hline
      -- the rest of the lines behind this one
      have hnext : lineStart (pre ++ l.text) (pre ++ l.text).length = (pre ++ l.text).length := by
        rw [MapsLine.text, ← List.append_assoc]
        exact lineStart_concat_newline _
      obtain ⟨tr', hexec', hcalls'⟩ := ih hnext (by rw [hline]; simp [MapsLine.text])
      refine ⟨tr ++ tr', ?_, ?_⟩
      · have hlen : (file (l :: ls)).length = l.body.length + 1 + (file ls).length := by
          simp only [MapsLine.file_cons, List.length_append, List.length_cons]
          omega
        rw [hlen, ← List.range'_append_1]
        refine Machine.exec_trans hexec ?_
        rwa [List.length_append, l.text_length] at hexec'
      · rw [calls, List.flatMap_append, ← calls, ← calls, hcalls, hcalls']
        rfl

/-- **A read of whole lines** makes their calls, whatever the buffer held. -/
lemma pieces_file (b : Buffer) {r : ReadResult} {ls : List MapsLine} (h : r.bytes = file ls) :
    pieces.step b r = some (ls.map MapsLine.range, b.store r) := by
  have hb : (b.store r).bytes = [] ++ (file ls ++ b.bytes.drop r.bytes.length) := by
    simp [Buffer.store, offset, h]
  obtain ⟨tr, hexec, hcalls⟩ := turns_file ls rfl hb
  have hind : indices r = List.range' ([] : List UInt8).length (file ls).length := by
    rw [indices, h]
    rfl
  simp only [pieces, hind, hexec, Option.map_some, hcalls]

/-- The reads bring whole lines: those of `runs`, one run a read. -/
def WholeLines (reads : List ReadResult) (runs : List (List MapsLine)) : Prop :=
  reads.map ReadResult.bytes = runs.map file

/-- Reads of which it is known what calls each of them makes. -/
lemma parseMaps_of_forall₂ (b : Buffer) {reads : List ReadResult}
    {css : List (List VirtualRange)}
    (h : List.Forall₂ (fun r cs => ∀ b, pieces.step b r = some (cs, b.store r)) reads css) :
    parseMaps b reads = some css.flatten := by
  have hexec : ∃ tr b', pieces.exec reads b = some (tr, b') ∧ calls tr = css.flatten := by
    induction h generalizing b with
    | nil => exact ⟨[], b, rfl, rfl⟩
    | @cons r cs reads css hr hrest ih =>
        obtain ⟨tr, b', he, hc⟩ := ih (b.store r)
        refine ⟨_, b', Machine.exec_cons_of_exec (hr b) he, ?_⟩
        rw [calls, List.flatMap_cons, ← calls, hc, List.flatten_cons]
  obtain ⟨tr, b', he, hc⟩ := hexec
  rw [parseMaps, he, Option.map_some, ← hc]

lemma parseMaps_wholeLines (b : Buffer) {reads : List ReadResult} {runs : List (List MapsLine)}
    (h : WholeLines reads runs) :
    parseMaps b reads = some (runs.flatten.map MapsLine.range) := by
  have hpairs : List.Forall₂ (fun r ls => r.bytes = file ls) reads runs := by
    rw [WholeLines, ← List.forall₂_eq_eq_eq, List.forall₂_map_left_iff,
      List.forall₂_map_right_iff] at h
    exact h
  rw [List.map_flatten]
  refine parseMaps_of_forall₂ b ?_
  rw [List.forall₂_map_right_iff]
  exact hpairs.imp fun r ls hr b => pieces_file b hr

/-- **The parser is exact**: reads that bring whole lines make one call for each line,
in order, with its two numbers as 64-bit values and its name. -/
theorem parseMaps_lines (b : Buffer) (reads : List ReadResult) (runs : List (List MapsLine))
    (h : WholeLines reads runs) :
    ∃ cs, parseMaps b reads = some cs
      ∧ List.Forall₂ (fun (l : MapsLine) c => c.low.toNat = hexNat l.low
        ∧ c.high.toNat = hexNat l.high ∧ c.libName = l.name) runs.flatten cs := by
  refine ⟨_, parseMaps_wholeLines b h, ?_⟩
  rw [List.forall₂_map_right_iff, List.forall₂_same]
  exact fun l _ => ⟨l.isHex_low.toNat, l.isHex_high.toNat, rfl⟩

/-- The line `"1-2 r 0 0 0 "`. -/
def sampleLine : MapsLine where
  low := [49]
  high := [50]
  perms := [114]
  offset := [48]
  dev := [48]
  inode := [48]
  padding := 0
  name := []
  isHex_low := ⟨by simp [hexAlphabet], by decide⟩
  isHex_high := ⟨by simp [hexAlphabet], by decide⟩
  isField_perms := ⟨by decide, by decide, by decide⟩
  isField_offset := ⟨by decide, by decide, by decide⟩
  isField_dev := ⟨by decide, by decide, by decide⟩
  isField_inode := ⟨by decide, by decide, by decide⟩
  isName_name := ⟨by decide, by decide, by decide⟩

/-- The sample line in one read. -/
def samplePiece : ReadResult := ⟨sampleLine.text, by decide, by decide⟩

/-- The line `"1000-3000 r-xp 0 8:1 7   /a"`. -/
def namedLine : MapsLine where
  low := [49, 48, 48, 48]
  high := [51, 48, 48, 48]
  perms := [114, 45, 120, 112]
  offset := [48]
  dev := [56, 58, 49]
  inode := [55]
  padding := 2
  name := [47, 97]
  isHex_low := ⟨by simp [hexAlphabet], by decide⟩
  isHex_high := ⟨by simp [hexAlphabet], by decide⟩
  isField_perms := ⟨by decide, by decide, by decide⟩
  isField_offset := ⟨by decide, by decide, by decide⟩
  isField_dev := ⟨by decide, by decide, by decide⟩
  isField_inode := ⟨by decide, by decide, by decide⟩
  isName_name := ⟨by decide, by decide, by decide⟩

/-- A line without and one with a name in a first read, another line in a second one. -/
theorem parseMaps_lines_two_reads :
    ∃ cs, parseMaps .zeros
        [⟨MapsLine.file [sampleLine, namedLine], by decide, by decide⟩, samplePiece] = some cs
      ∧ List.Forall₂ (fun (l : MapsLine) c => c.low.toNat = hexNat l.low
        ∧ c.high.toNat = hexNat l.high ∧ c.libName = l.name)
          [sampleLine, namedLine, sampleLine] cs :=
  parseMaps_lines .zeros
    [⟨MapsLine.file [sampleLine, namedLine], by decide, by decide⟩, samplePiece]
    [[sampleLine, namedLine], [sampleLine]] rfl

/-! ### Read boundaries inside a line -/

/-- The reads bring the file with the lines `ls`. -/
def Splits (reads : List ReadResult) (ls : List MapsLine) : Prop :=
  reads.flatMap ReadResult.bytes = file ls

/-- The reads bring the file, and cut it at the ends of lines only. -/
def CutsAtLines (reads : List ReadResult) (ls : List MapsLine) : Prop :=
  ∃ runs, WholeLines reads runs ∧ runs.flatten = ls

lemma CutsAtLines.parseMaps_eq {reads : List ReadResult} {ls : List MapsLine}
    (h : CutsAtLines reads ls) (b : Buffer) : parseMaps b reads = some (ls.map MapsLine.range) := by
  obtain ⟨runs, hruns, rfl⟩ := h
  exact parseMaps_wholeLines b hruns

lemma CutsAtLines.splits {reads : List ReadResult} {ls : List MapsLine}
    (h : CutsAtLines reads ls) : Splits reads ls := by
  obtain ⟨runs, hruns, rfl⟩ := h
  rw [Splits, List.flatMap_def, hruns, ← List.flatMap_def]
  simp only [file, List.flatMap_def, List.map_flatten, List.flatten_flatten, List.map_map]
  rfl

/-- A read without a newline behind its first byte makes no call. -/
lemma pieces_quiet (b : Buffer) {r : ReadResult} (h : newline ∉ r.bytes.tail) :
    pieces.step b r = some ([], b.store r) := by
  have hquiet : ∀ j < r.bytes.length, ∃ c, (b.store r).bytes[offset + j]? = some c
      ∧ (c ≠ newline ∨ offset + j = 0) := by
    intro j hj
    have hstore : (b.store r).bytes = r.bytes ++ b.bytes.drop r.bytes.length := by
      simp [Buffer.store, offset]
    refine ⟨r.bytes[j], ?_, ?_⟩
    · rw [hstore, offset, Nat.zero_add, List.getElem?_append_left hj, List.getElem?_eq_getElem hj]
    · cases j with
      | zero => exact Or.inr rfl
      | succ j =>
          refine Or.inl fun hn => h ?_
          rw [← hn, ← List.getElem_tail (by rw [List.length_tail]; omega)]
          exact List.getElem_mem _
  obtain ⟨tr, hexec, hcalls⟩ := turns_quiet hquiet
  simp only [pieces, indices, hexec, Option.map_some, hcalls]

lemma parseMaps_quiet (b : Buffer) {reads : List ReadResult}
    (h : ∀ r ∈ reads, newline ∉ r.bytes.tail) : parseMaps b reads = some [] := by
  have hnone : (reads.map fun _ => ([] : List VirtualRange)).flatten = [] := by simp
  rw [← hnone]
  refine parseMaps_of_forall₂ b ?_
  rw [List.forall₂_map_right_iff, List.forall₂_same]
  exact fun r hr b => pieces_quiet b (h r hr)

/-- A read of one byte. -/
def single (c : UInt8) : ReadResult := ⟨[c], Nat.one_pos, by simp [BUFSIZ, offset]⟩

/-- A read of one line. -/
def lineRead (l : MapsLine) (h : l.text.length < BUFSIZ) : ReadResult :=
  ⟨l.text, by rw [l.text_length]; omega, by rw [offset]; omega⟩

lemma splits_single (ls : List MapsLine) : Splits ((file ls).map single) ls := by
  rw [Splits, List.flatMap_map]
  exact List.flatMap_singleton' _

lemma cutsAtLines_lineRead {ls : List MapsLine} (h : ∀ l ∈ ls, l.text.length < BUFSIZ) :
    CutsAtLines (ls.pmap lineRead h) ls := by
  refine ⟨ls.map ([·]), ?_, List.flatMap_singleton' ls⟩
  rw [WholeLines, List.map_pmap, List.map_map]
  exact (List.pmap_eq_map h).trans (List.map_congr_left fun l _ => by simp [file, MapsLine.text])

/-- **When the parser does not depend on the read boundaries**: reads that cut the file
at the ends of lines agree, whatever the buffers held; and only on the empty file do
all reads. -/
theorem parseMaps_independent_iff (ls : List MapsLine) (h : ∀ l ∈ ls, l.text.length < BUFSIZ) :
    (∀ b b' reads reads', CutsAtLines reads ls → CutsAtLines reads' ls →
        parseMaps b reads = parseMaps b' reads')
      ∧ ((∀ b reads reads', Splits reads ls → Splits reads' ls →
        parseMaps b reads = parseMaps b reads') ↔ ls = []) := by
  refine ⟨fun b b' reads reads' hr hr' => by rw [hr.parseMaps_eq, hr'.parseMaps_eq], ?_, ?_⟩
  · intro hall
    have hcut := cutsAtLines_lineRead h
    -- a line a read against a byte a read
    have heq := hall .zeros _ _ hcut.splits (splits_single ls)
    rw [hcut.parseMaps_eq, parseMaps_quiet _ (by simp [single]), Option.some.injEq,
      List.map_eq_nil_iff] at heq
    exact heq
  · rintro rfl b reads reads' hr hr'
    have hnil : ∀ reads : List ReadResult, Splits reads [] → reads = [] := by
      intro reads hs
      rw [Splits, MapsLine.file_nil, List.flatMap_eq_nil_iff] at hs
      refine List.eq_nil_iff_forall_not_mem.mpr fun r hr => ?_
      exact absurd (hs r hr) (List.ne_nil_of_length_pos r.pos)
    rw [hnil reads hr, hnil reads' hr']

theorem parseMaps_independent_iff_sample :
    (∀ b b' reads reads', CutsAtLines reads [sampleLine] → CutsAtLines reads' [sampleLine] →
        parseMaps b reads = parseMaps b' reads')
      ∧ ((∀ b reads reads', Splits reads [sampleLine] → Splits reads' [sampleLine] →
        parseMaps b reads = parseMaps b reads') ↔ [sampleLine] = []) :=
  parseMaps_independent_iff [sampleLine] (by decide)

/-- The sample line without its newline in one read. -/
def sampleBody : ReadResult := ⟨sampleLine.body, by decide, by decide⟩

/-- The line `"1-2 r 0 0 0 \n"`, read in one piece and with its newline by itself. -/
theorem straddling_line_lost : ¬ ∀ ls : List MapsLine, (∀ l ∈ ls, l.text.length < BUFSIZ) →
    ∀ b reads reads', Splits reads ls → Splits reads' ls →
      parseMaps b reads = parseMaps b reads' := by
  intro hall
  have heq := hall [sampleLine] (by decide) .zeros [samplePiece] [sampleBody, single newline]
    rfl rfl
  have hcut : CutsAtLines [samplePiece] [sampleLine] := ⟨[[sampleLine]], rfl, rfl⟩
  rw [hcut.parseMaps_eq, parseMaps_quiet _ (by decide)] at heq
  cases heq

end Pagemap

end OperatingSys
