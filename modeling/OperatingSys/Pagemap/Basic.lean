import OperatingSys.Foundations.CString
import OperatingSys.Foundations.Machine
import OperatingSys.Foundations.Scan

/-!
The parser of `/proc/pid/maps` in `os_02/lab_04/src/part_01/pagemap.c`.

`parse_maps` reads the file piece by piece into `buffer`, looks at every newline
of the piece read, goes back to the start of the line and then forwards through
its fields, and calls `handle_virtual_range` with what it has found. `none` is an
access outside the `BUFSIZ` bytes of `buffer`. A byte is compared with letters
and digits only, so that `char` may be signed or not.

* `parseLine`: the work at one newline.
* `turns`: the loop over the piece, a machine moved by its index.
* `parseMaps`: the loop over the pieces, a machine moved by what `read` returns.
-/

namespace OperatingSys

namespace Pagemap

/-- `BUFSIZ` of the C library. -/
def BUFSIZ : ℕ := 8192

/-- `int offset = 0;`, which no statement changes. -/
def offset : ℕ := 0

/-- What a successful `read(maps, buffer + offset, sizeof buffer - offset)` brings:
between one byte and the space offered. -/
structure ReadResult where
  bytes : List UInt8
  pos : 0 < bytes.length
  le : bytes.length ≤ BUFSIZ - offset

/-- The array `buffer`. -/
@[ext]
structure Buffer where
  bytes : List UInt8
  size : bytes.length = BUFSIZ

namespace Buffer

/-- A buffer of zeros. -/
def zeros : Buffer := ⟨List.replicate BUFSIZ 0, List.length_replicate⟩

/-- The buffer after a `read`. -/
def store (b : Buffer) (r : ReadResult) : Buffer where
  bytes := b.bytes.take offset ++ r.bytes ++ b.bytes.drop (offset + r.bytes.length)
  size := by
    have hb := b.size
    have hr := r.le
    simp only [List.length_append, List.length_take, List.length_drop, offset] at hr ⊢
    omega

/-- The buffer with another value at `i`. -/
def set (b : Buffer) (i : ℕ) (x : UInt8) : Buffer where
  bytes := b.bytes.set i x
  size := by rw [List.length_set, b.size]

/-- `buffer[i] = x`. -/
def poke (b : Buffer) (i : ℕ) (x : UInt8) : Option Buffer :=
  if i < b.bytes.length then some (b.set i x) else none

lemma poke_of_lt {b : Buffer} {i : ℕ} (h : i < b.bytes.length) (x : UInt8) :
    b.poke i x = some (b.set i x) := if_pos h

/-- A byte changed and changed back. -/
lemma set_set_self {b : Buffer} {i : ℕ} {x : UInt8} (h : b.bytes[i]? = some x) (y : UInt8) :
    (b.set i y).set i x = b := by
  obtain ⟨hi, rfl⟩ := List.getElem?_eq_some_iff.mp h
  ext1
  simp only [set, List.set_set, List.set_getElem_self]

end Buffer

/-- A call of `handle_virtual_range`. -/
structure VirtualRange where
  low : UInt64
  high : UInt64
  libName : List UInt8
  deriving DecidableEq

/-! ### The bytes the parser looks for -/

def newline : UInt8 := 10

def space : UInt8 := 32

def dash : UInt8 := 45

/-- The value of a digit `0`-`9` or `a`-`f`, `none` for another byte. -/
def hexDigit (c : UInt8) : Option UInt64 :=
  if 48 ≤ c ∧ c ≤ 57 then some (c - 48).toUInt64
  else if 97 ≤ c ∧ c ≤ 102 then some (c - 97 + 10).toUInt64
  else none

/-! ### The work at a newline -/

/-- `while(x && buffer[x] != '\n') x --;`. -/
def backToNewline (m : List UInt8) : ℕ → Option ℕ
  | 0 => some 0
  | x + 1 =>
      match m[x + 1]? with
      | none => none
      | some c => if c ≠ newline then backToNewline m x else some (x + 1)

/-- `if(buffer[x] == c) x ++;`. -/
def skipOver (c : UInt8) (m : List UInt8) (x : ℕ) : Option ℕ :=
  (m[x]?).map fun c' => if c' = c then x + 1 else x

/-- The loops over the digits of `low` and of `high`, up to `stop`: every byte is
taken and multiplies the value by 16, one that is no digit ends the loop. -/
def hexLoop (stop : UInt8) (m : List UInt8) (acc : UInt64) (x : ℕ) : Option (UInt64 × ℕ) :=
  match m[x]? with
  | none => none
  | some c =>
      if c ≠ stop ∧ x + 1 < m.length then
        match hexDigit c with
        | some d => hexLoop stop m (acc * 16 + d) (x + 1)
        | none => some (acc * 16, x + 1)
      else some (acc, x)
termination_by m.length - x

/-- The four fields: `x ++;` over the space, then up to the next one. -/
def fieldLoop (m : List UInt8) : ℕ → ℕ → Option ℕ
  | 0, x => some x
  | field + 1, x => (scanWhile (· ≠ space) m (x + 1)).bind (fieldLoop m field)

/-- The two numbers of the line that starts at `x`. -/
def numbers (m : List UInt8) (x : ℕ) : Option (UInt64 × UInt64 × ℕ) := do
  let (low, x) ← hexLoop dash m 0 x
  let x ← scanWhile (· ≠ dash) m x
  let x ← skipOver dash m x
  let (high, x) ← hexLoop space m 0 x
  return (low, high, x)

/-- The name from `x` to `y`, for which the end of the line is set to `0` and then
back to a newline. -/
def libNameAt (b : Buffer) (x y : ℕ) : Option (List UInt8 × Buffer) := do
  let b' ← b.poke y 0
  let libName ← cstr b'.bytes x
  let b'' ← b'.poke y newline
  return (libName, b'')

/-- The work at the newline `i`. -/
def parseLine (b : Buffer) (i : ℕ) : Option (VirtualRange × Buffer) := do
  let m := b.bytes
  let x ← backToNewline m (i - 1)
  let x ← skipOver newline m x
  let (low, high, x) ← numbers m x
  let x ← fieldLoop m 4 x
  let x ← scanWhile (· = space) m x
  let y ← scanWhile (· ≠ newline) m x
  let (libName, b') ← libNameAt b x y
  return (⟨low, high, libName⟩, b')

/-! ### The loops over the file -/

/-- One turn of the loop over the piece read. -/
def turn (b : Buffer) (i : ℕ) : Option (List VirtualRange × Buffer) :=
  (b.bytes[i]?).bind fun c =>
    if c = newline ∧ i ≠ 0 then (parseLine b i).map fun (r, b') => ([r], b')
    else some ([], b)

/-- The loop over the piece read, moved by its index. -/
def turns : Machine Buffer ℕ (List VirtualRange) where
  step := turn

/-- The indices of a piece: `i` goes from `offset` to `length + offset`. -/
def indices (r : ReadResult) : List ℕ := List.range' offset r.bytes.length

/-- The calls a run makes. -/
def calls {ι : Type*} (tr : List (ι × List VirtualRange)) : List VirtualRange :=
  tr.flatMap Prod.snd

/-- The loop over the file, moved by what `read` returns until it returns no byte. -/
def pieces : Machine Buffer ReadResult (List VirtualRange) where
  step b r := (turns.exec (indices r) (b.store r)).map fun (tr, b') => (calls tr, b')

/-- `parse_maps` on a buffer with the content `b`: the calls of
`handle_virtual_range` it makes when `read` returns `reads` and then none. -/
def parseMaps (b : Buffer) (reads : List ReadResult) : Option (List VirtualRange) :=
  (pieces.exec reads b).map fun (tr, _) => calls tr

end Pagemap

end OperatingSys
