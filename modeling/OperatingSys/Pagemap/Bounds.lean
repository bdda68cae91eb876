import OperatingSys.Pagemap.Ahead

/-!
Where the maps parser leaves its buffer.

All loops of `parse_maps` compare `x + 1` with the size of the buffer but for the
step over a dash and the steps over the spaces between the fields. So the work at a
newline stays inside exactly when its line has room (`HasRoom`), and a run does
exactly when every newline it works at is one of these (`parseMaps_inside_iff`).
-/

namespace OperatingSys

namespace Pagemap

/-- The index is not at a newline the parser works at, or the line there has
room. -/
def LineFits (b : Buffer) (i : ℕ) : Prop :=
  b.bytes[i]? = some newline → i ≠ 0 → HasRoom (ahead b.bytes (lineStart b.bytes i))

lemma turn_isSome_iff (b : Buffer) {i : ℕ} (hi : i < BUFSIZ) :
    (turn b i).isSome ↔ LineFits b i := by
  have hlt : i < b.bytes.length := by rwa [b.size]
  rw [turn, List.getElem?_eq_getElem hlt, Option.bind_some, LineFits,
    List.getElem?_eq_getElem hlt, Option.some.injEq]
  split_ifs with h
  · rw [Option.isSome_map, parseLine_isSome_iff b h.2 hlt]
    simp [h.1, h.2]
  · refine iff_of_true rfl fun hn h0 => absurd ⟨hn, h0⟩ h

/-- In the piece that `read` brings, every newline the parser works at is that of a
line with room. -/
def PieceFits (b : Buffer) (r : ReadResult) : Prop :=
  turns.Meets LineFits (indices r) (b.store r)

lemma mem_indices_lt {r : ReadResult} {i : ℕ} (h : i ∈ indices r) : i < BUFSIZ := by
  have hr := r.le
  rw [indices, List.mem_range'_1] at h
  rw [offset] at h hr
  omega

lemma pieces_isSome_iff (b : Buffer) (r : ReadResult) :
    (pieces.step b r).isSome ↔ PieceFits b r := by
  simp only [pieces, Option.isSome_map]
  exact Machine.exec_isSome_iff_meets fun b' i hi => turn_isSome_iff b' (mem_indices_lt hi)

/-- **When the parser stays in its buffer**: on every content and every sequence of
reads, exactly when each newline it works at ends a line with room. -/
theorem parseMaps_inside_iff (b : Buffer) (reads : List ReadResult) :
    (parseMaps b reads).isSome ↔ pieces.Meets PieceFits reads b := by
  rw [parseMaps, Option.isSome_map]
  exact Machine.exec_isSome_iff_meets fun b' r _ => pieces_isSome_iff b' r

/-- A line without a dash has no room. -/
lemma not_hasRoom {w : List UInt8} (h : dash ∉ w) : ¬ HasRoom w := by
  have hnil : w.dropWhile (· ≠ dash) = [] := by
    rw [List.dropWhile_eq_nil_iff]
    intro c hc
    rw [decide_eq_true_eq]
    rintro rfl
    exact h hc
  rw [HasRoom, afterHigh, hnil]
  decide

lemma mem_of_mem_ahead {m : List UInt8} {x : ℕ} {c : UInt8} (h : c ∈ ahead m x) : c ∈ m :=
  List.mem_of_mem_dropLast (List.mem_of_mem_drop h)

/-- A newline in a buffer without a dash. -/
lemma turn_eq_none {b : Buffer} {i : ℕ} (hd : dash ∉ b.bytes) (hi : i < BUFSIZ)
    (hn : b.bytes[i]? = some newline) (h0 : i ≠ 0) : turn b i = none := by
  rw [← Option.not_isSome_iff_eq_none, turn_isSome_iff b hi]
  exact fun h => not_hasRoom (fun hm => hd (mem_of_mem_ahead hm)) (h hn h0)

/-- The piece `"a\n"`. -/
def shortPiece : ReadResult := ⟨[97, newline], by decide, by decide⟩

/-- The piece `"a\n"` in a buffer without a dash: the scan for the dash runs to the
last byte, and the step over the first field behind it. -/
lemma pieces_shortPiece {b : Buffer} (h : dash ∉ b.bytes) : pieces.step b shortPiece = none := by
  have hb : (b.store shortPiece).bytes = 97 :: newline :: b.bytes.drop 2 := by
    simp [shortPiece, Buffer.store, offset]
  have hdash : dash ∉ (b.store shortPiece).bytes := by
    rw [hb]
    simp only [List.mem_cons, not_or]
    exact ⟨by decide, by decide, fun hm => h (List.mem_of_mem_drop hm)⟩
  have hfirst : turn (b.store shortPiece) 0 = some ([], b.store shortPiece) := by
    rw [turn, hb]
    rfl
  have hsecond : turn (b.store shortPiece) 1 = none :=
    turn_eq_none hdash (by decide) (by rw [hb]; rfl) one_ne_zero
  have hexec : turns.exec [0, 1] (b.store shortPiece) = none := by
    simp only [Machine.exec, turns, hfirst, hsecond, Option.map_none]
  simp only [pieces, Option.map_eq_none_iff]
  exact hexec

lemma dash_notMem_zeros : dash ∉ Buffer.zeros.bytes := by
  intro h
  have hz : dash = 0 := List.eq_of_mem_replicate h
  cases hz

/-- The content `"a\n"`, read into a buffer of zeros. -/
theorem short_line_outside : ¬ ∀ b reads, (parseMaps b reads).isSome := by
  intro hall
  have hsome := hall .zeros [shortPiece]
  rw [parseMaps, Machine.exec, pieces_shortPiece dash_notMem_zeros] at hsome
  cases hsome

end Pagemap

end OperatingSys
