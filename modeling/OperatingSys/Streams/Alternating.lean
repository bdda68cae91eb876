import Mathlib.Data.UInt
import OperatingSys.Foundations.Overwrite
import OperatingSys.Streams.SharedOffset

/-!
One process that alternates between two handles of a file, `01.c`, `02.c` and `03.c` of
`os_02/lab_05/src`.

`01.c` has two streams on one descriptor, but both its `fscanf` read from `fs1`, so the file
comes out once, as it is. `02.c` has two descriptors, each with its offset, and prints every
byte twice. `03.c` writes the letters through two descriptors in turn, so that every second
one is written over.
-/

namespace OperatingSys

namespace Streams

namespace Alternating

/-! ### Two streams on one descriptor -/

/-- `01.c` at the head of its loop: the offset of the descriptor, and what the streams hold. -/
structure Handles where
  offset : ℕ
  fs1 : List UInt8
  fs2 : List UInt8

/-- `fscanf` of `%c` from a stream that holds `buff`: the byte if there is one, the offset of
the descriptor, and what the stream holds then. -/
def scanChar (content : List UInt8) (offset : ℕ) : List UInt8 → Option UInt8 × ℕ × List UInt8
  | c :: buff => (some c, offset, buff)
  | [] =>
      let block := (content.drop offset).take BUF_N
      match block with
      | c :: buff => (some c, offset + block.length, buff)
      | [] => (none, offset, [])

/-- A turn of the loop of `01.c`: whether `flags` let it go on, and what it prints. -/
def streamTurn (content : List UInt8) (s : Handles) : Bool × List UInt8 × Handles :=
  let r0 := scanChar content s.offset s.fs1
  let r1 := scanChar content r0.2.1 r0.2.2
  (r0.1.isSome || r1.1.isSome, r0.1.toList ++ r1.1.toList, ⟨r1.2.1, r1.2.2, s.fs2⟩)

/-- The loop of `01.c` and the newline behind it, for a number of turns. -/
def streamLoop (content : List UInt8) : ℕ → Handles → Option (List UInt8 × Handles)
  | 0, _ => none
  | n + 1, s =>
      match streamTurn content s with
      | (true, out, s') => (streamLoop content n s').map fun r => (out ++ r.1, r.2)
      | (false, out, s') => some (out ++ [10], s')

variable {content : List UInt8}

/-- What `fs1` still brings. -/
def Handles.ahead (content : List UInt8) (s : Handles) : List UInt8 :=
  s.fs1 ++ content.drop s.offset

/-- A character is the next one of what is ahead. -/
lemma scanChar_eq (content : List UInt8) (offset : ℕ) (buff : List UInt8) :
    (scanChar content offset buff).1 = (buff ++ content.drop offset).head?
      ∧ (scanChar content offset buff).2.2 ++ content.drop (scanChar content offset buff).2.1
        = (buff ++ content.drop offset).tail := by
  cases buff with
  | cons c buff => exact ⟨rfl, rfl⟩
  | nil =>
      rw [scanChar, List.nil_append]
      cases hrest : content.drop offset with
      | nil => exact ⟨rfl, by simpa using hrest⟩
      | cons c rest =>
          refine ⟨rfl, ?_⟩
          -- a block has been read, and the first of it taken
          show rest.take (BUF_N - 1)
            ++ content.drop (offset + (c :: rest.take (BUF_N - 1)).length) = rest
          rw [← List.drop_drop, hrest, List.length_cons, List.drop_succ_cons, List.length_take]
          rcases le_total (BUF_N - 1) rest.length with hle | hle
          · rw [min_eq_left hle, List.take_append_drop]
          · rw [min_eq_right hle, List.take_of_length_le hle, List.drop_length, List.append_nil]

/-- A turn takes two characters of what is ahead, and none from `fs2`. -/
lemma streamTurn_eq (content : List UInt8) (s : Handles) :
    (streamTurn content s).1 = (s.ahead content).head?.isSome
      ∧ (streamTurn content s).2.1 = (s.ahead content).take 2
      ∧ (streamTurn content s).2.2.ahead content = (s.ahead content).drop 2
      ∧ (streamTurn content s).2.2.fs2 = s.fs2 := by
  obtain ⟨hc0, hrest0⟩ := scanChar_eq content s.offset s.fs1
  obtain ⟨hc1, hrest1⟩ := scanChar_eq content (scanChar content s.offset s.fs1).2.1
    (scanChar content s.offset s.fs1).2.2
  rw [hrest0] at hc1 hrest1
  refine ⟨?_, ?_, ?_, rfl⟩
  · rw [streamTurn, hc0, hc1, Handles.ahead]
    cases s.fs1 ++ content.drop s.offset <;> rfl
  · rw [streamTurn, hc0, hc1, Handles.ahead]
    rcases s.fs1 ++ content.drop s.offset with _ | ⟨c, _ | ⟨d, rest⟩⟩ <;> rfl
  · rw [streamTurn, Handles.ahead, hrest1, ← List.drop_one, ← List.drop_one, List.drop_drop,
      Handles.ahead]

/-- The loop of `01.c` prints what is ahead. -/
lemma streamLoop_eq (content : List UInt8) {n : ℕ} {s : Handles}
    (hn : (s.ahead content).length < n) : ∃ s',
      streamLoop content n s = some (s.ahead content ++ [10], s') ∧ s'.fs2 = s.fs2 := by
  induction n generalizing s with
  | zero => exact absurd hn (Nat.not_lt_zero _)
  | succ n ih =>
      obtain ⟨hgo, hout, hahead, hfs2⟩ := streamTurn_eq content s
      generalize hr : streamTurn content s = r at hgo hout hahead hfs2
      obtain ⟨go, out, t⟩ := r
      dsimp only at hgo hout hahead hfs2
      cases hl : s.ahead content with
      | nil =>
          rw [hl] at hgo hout
          subst hgo hout
          refine ⟨t, ?_, hfs2⟩
          rw [streamLoop, hr]
          rfl
      | cons c rest =>
          rw [hl] at hgo hout hahead hn
          subst hgo hout
          -- a turn takes at least one byte
          have hlt : (t.ahead content).length < n := by
            rw [hahead, List.length_drop]
            rw [List.length_cons] at hn ⊢
            omega
          obtain ⟨s', hloop, hs'⟩ := ih hlt
          refine ⟨s', ?_, hs'.trans hfs2⟩
          rw [streamLoop, hr]
          show (streamLoop content n t).map _ = _
          rw [hloop, Option.map_some, hahead, ← List.append_assoc, List.take_append_drop]

/-! ### Two descriptors -/

/-- `read` of one byte: what it brings, and the offset afterwards. -/
def readByte (content : List UInt8) (offset : ℕ) : Option UInt8 × ℕ :=
  match content[offset]? with
  | some c => (some c, offset + 1)
  | none => (none, offset)

/-- The loop of `02.c` and the newline behind it, for a number of turns and the offsets of
both descriptors. -/
def copyLoop (content : List UInt8) : ℕ → ℕ → ℕ → Option (List UInt8)
  | 0, _, _ => none
  | n + 1, offset1, offset2 =>
      let r1 := readByte content offset1
      let r2 := readByte content offset2
      let out := r1.1.toList ++ r2.1.toList
      if r1.1.isSome && r2.1.isSome then (copyLoop content n r1.2 r2.2).map (out ++ ·)
      else some (out ++ [10])

/-- The loop of `02.c` prints every byte twice, as the offsets go together. -/
lemma copyLoop_eq (content : List UInt8) {n k : ℕ} (hn : (content.drop k).length < n) :
    copyLoop content n k k = some ((content.drop k).flatMap (fun c => [c, c]) ++ [10]) := by
  induction n generalizing k with
  | zero => exact absurd hn (Nat.not_lt_zero _)
  | succ n ih =>
      rw [copyLoop, readByte]
      cases hc : content[k]? with
      | none =>
          rw [List.drop_of_length_le (List.getElem?_eq_none_iff.mp hc)]
          rfl
      | some c =>
          obtain ⟨hk, hck⟩ := List.getElem?_eq_some_iff.mp hc
          rw [List.drop_eq_getElem_cons hk, hck] at hn ⊢
          rw [List.length_cons, Nat.succ_lt_succ_iff] at hn
          show (copyLoop content n (k + 1) (k + 1)).map _ = _
          rw [ih hn, Option.map_some]
          rfl

/-- **Two handles on one file**: whatever it holds, the program with two streams on one
descriptor prints the file once, and its second stream never takes a byte; the program with
two descriptors prints every byte twice. A newline follows in both. -/
theorem printed_once_and_twice (content : List UInt8) {n : ℕ} (hn : content.length < n) :
    (∃ s, streamLoop content n ⟨0, [], []⟩ = some (content ++ [10], s) ∧ s.fs2 = [])
      ∧ copyLoop content n 0 0 = some (content.flatMap (fun c => [c, c]) ++ [10]) :=
  ⟨streamLoop_eq content (s := ⟨0, [], []⟩) hn, copyLoop_eq content (k := 0) hn⟩

/-- The letters `a` and `b` come out once, and twice. -/
theorem printed_once_and_twice_letters :
    (∃ s, streamLoop [97, 98] 3 ⟨0, [], []⟩ = some ([97, 98, 10], s) ∧ s.fs2 = [])
      ∧ copyLoop [97, 98] 3 0 0 = some [97, 97, 98, 98, 10] :=
  printed_once_and_twice [97, 98] (Nat.lt_succ_self 2)

/-! ### Two descriptors that write -/

/-- `03.c` in its loop: the offsets of the descriptors, and the file. -/
structure Written where
  offset1 : ℕ
  offset2 : ℕ
  file : List UInt8

/-- The turn of the loop of `03.c` for the character `c`. -/
def writeLetter (s : Written) (c : ℕ) : Written :=
  if c % 2 ≠ 0 then
    { s with offset1 := s.offset1 + 1, file := writeAt s.offset1 (UInt8.ofNat c) s.file }
  else
    { s with offset2 := s.offset2 + 1, file := writeAt s.offset2 (UInt8.ofNat c) s.file }

/-- The loop of `03.c`, from `'a'` to `'z'`. -/
def writeLoop (content : List UInt8) : Written :=
  (List.range' ('a'.toNat) ('z'.toNat + 1 - 'a'.toNat)).foldl writeLetter ⟨0, 0, content⟩

/-- The letters of even code. -/
def evenLetters (k : ℕ) : List UInt8 :=
  (List.range k).map fun j => UInt8.ofNat ('b'.toNat + 2 * j)

/-- After two letters more, the second stands in the place of both. -/
lemma writeLetter_twice {front rest : List UInt8} {k c : ℕ} (hf : front.length = k)
    (hc : c % 2 ≠ 0) : writeLetter (writeLetter ⟨k, k, front ++ rest⟩ c) (c + 1)
      = ⟨k + 1, k + 1, front ++ UInt8.ofNat (c + 1) :: rest.drop 1⟩ := by
  have hc' : ¬ (c + 1) % 2 ≠ 0 := by omega
  rw [writeLetter, writeLetter, if_pos hc, if_neg hc', writeAt_append hf, writeAt_append hf,
    List.drop_one, List.drop_one, List.tail_cons]

lemma foldl_writeLetter (content : List UInt8) (k : ℕ) :
    (List.range' ('a'.toNat) (2 * k)).foldl writeLetter ⟨0, 0, content⟩
      = ⟨k, k, evenLetters k ++ content.drop k⟩ := by
  induction k with
  | zero => rfl
  | succ k ih =>
      have hlen : (evenLetters k).length = k := by
        rw [evenLetters, List.length_map, List.length_range]
      have hodd : ('a'.toNat + 1 * (2 * k)) % 2 ≠ 0 := by
        have ha : 'a'.toNat = 97 := rfl
        omega
      have hcode : 'a'.toNat + 1 * (2 * k) + 1 = 'b'.toNat + 2 * k := by
        have ha : 'a'.toNat = 97 := rfl
        have hb : 'b'.toNat = 98 := rfl
        omega
      rw [show 2 * (k + 1) = 2 * k + 1 + 1 by ring, List.range'_concat, List.range'_concat,
        List.foldl_append, List.foldl_append, ih, List.foldl_cons, List.foldl_nil, List.foldl_cons,
        List.foldl_nil, show 'a'.toNat + 1 * (2 * k + 1) = 'a'.toNat + 1 * (2 * k) + 1 by ring,
        writeLetter_twice hlen hodd, hcode, evenLetters, evenLetters, List.range_succ,
        List.map_append, List.map_singleton, List.append_assoc, List.drop_drop]
      rfl

/-- **Two descriptors that write in turn**: whatever the file held, the letters written through
the first descriptor are all lost, those of the second stand in its first `13` places, and what
lies behind them is kept. -/
theorem even_letters_left (content : List UInt8) :
    (writeLoop content).file = evenLetters 13 ++ content.drop 13 := by
  have hloop := foldl_writeLetter content 13
  rw [writeLoop]
  exact congrArg Written.file hloop

end Alternating

end Streams

end OperatingSys
