import OperatingSys.DirWalk.ErrorText
import OperatingSys.Foundations.CInt

/-!
The error texts of the daemon, `err_doit` of `os_02/lab_01/err.c`.

The three stores are those of the directory walk, into a `buf` of `MAXLINE` bytes. Here the
limits of the first two leave a byte for the newline: a string in `buf` is at most
`MAXLINE - 2` long (`Line`), so none of the stores goes outside, and a message that does not
fit loses its end but not the newline (`error_line_inside`).
-/

namespace OperatingSys

namespace Daemon

open DirWalk (Text literal message)

def MAXLINE : ℕ := 1024

/-- `char buf[MAXLINE]`, whatever it holds. -/
structure Buf where
  bytes : List UInt8
  size : bytes.length = MAXLINE

/-- The second `snprintf`, of `": %s"`. -/
def addError (errnoflag : Bool) (error : Text) (buf : List UInt8) : Option (List UInt8) :=
  if errnoflag then
    (cstr buf 0).bind fun t =>
      snprintf buf t.length (toULong (MAXLINE - t.length - 1)).toNat (literal ": " ++ error.bytes)
  else some buf

/-- `err_doit`, for what the format and its arguments come to and what `strerror` returns: the
string that `fputs` puts out. -/
def errDoit (buf : Buf) (errnoflag : Bool) (text error : Text) : Option (List UInt8) :=
  (snprintf buf.bytes 0 (MAXLINE - 1) text.bytes).bind fun b =>
    (addError errnoflag error b).bind fun b => (strcat b [10]).bind fun b => cstr b 0

/-! ### The room behind a string -/

/-- A string in `buf` that leaves room for the newline. -/
structure Line where
  text : Text
  rest : List UInt8
  size : text.bytes.length + 1 + rest.length = MAXLINE
  room : text.bytes.length + 2 ≤ MAXLINE

namespace Line

/-- What `buf` holds. -/
def bytes (l : Line) : List UInt8 := l.text.bytes ++ 0 :: l.rest

/-- A text stored behind an initial part whose limit leaves a byte. -/
lemma exists_of_snprintf {pre text : Text} {rest : List UInt8}
    (hsize : pre.bytes.length + rest.length = MAXLINE) (hroom : pre.bytes.length + 2 ≤ MAXLINE) :
    ∃ l : Line, snprintf (pre.bytes ++ rest) pre.bytes.length (MAXLINE - pre.bytes.length - 1)
        text.bytes = some l.bytes
      ∧ l.text = pre.append (text.cut (MAXLINE - 2 - pre.bytes.length)) := by
  have hcut := text.cut_length (MAXLINE - 2 - pre.bytes.length)
  have hlimit : MAXLINE - pre.bytes.length - 1 - 1 = MAXLINE - 2 - pre.bytes.length := by omega
  have hstore : snprintf (pre.bytes ++ rest) pre.bytes.length (MAXLINE - pre.bytes.length - 1)
      text.bytes = _ :=
    snprintf_append (by omega) (by
      rw [hlimit]
      change (text.cut _).bytes.length < _
      omega)
  rw [hlimit, ← List.append_assoc] at hstore
  refine ⟨⟨pre.append (text.cut (MAXLINE - 2 - pre.bytes.length)), _, ?_, ?_⟩, hstore, rfl⟩
  · rw [Text.append_length, List.length_drop]
    change _ + 1 + (rest.length - ((text.cut _).bytes.length + 1)) = _
    omega
  · rw [Text.append_length]
    omega

/-- The newline. -/
lemma newline (l : Line) :
    ((strcat l.bytes [10]).bind fun b => cstr b 0) = some (l.text.bytes ++ [10]) := by
  obtain ⟨text, rest, hsize, hroom⟩ := l
  have hline : (0 : UInt8) ∉ text.bytes ++ [10] := by
    rw [List.mem_append, not_or]
    exact ⟨text.clean, by decide⟩
  have hone : [(10 : UInt8)].length ≤ rest.length := by
    rw [List.length_singleton]
    omega
  rw [bytes, strcat_append text.clean hone, Option.bind_some, ← List.append_assoc,
    cstr_front hline]

end Line

/-! ### The line put out -/

variable {text error : Text}

/-- The first store goes into the empty `buf`. -/
lemma exists_of_text (buf : Buf) (text : Text) :
    ∃ l : Line, snprintf buf.bytes 0 (MAXLINE - 1) text.bytes = some l.bytes
      ∧ l.text = text.cut (MAXLINE - 2) := by
  have hsize : Text.empty.bytes.length + buf.bytes.length = MAXLINE :=
    (Nat.zero_add _).trans buf.size
  have hroom : Text.empty.bytes.length + 1 < MAXLINE := by decide
  exact Line.exists_of_snprintf hsize hroom

/-- The second store goes behind the string that is there. Its limit does not wrap. -/
lemma exists_of_error (l : Line) (error : Text) :
    ∃ l' : Line, addError true error l.bytes = some l'.bytes ∧ l'.text
      = l.text.append (error.behindColon.cut (MAXLINE - 2 - l.text.bytes.length)) := by
  obtain ⟨text, rest, hsize, hroom⟩ := l
  have hmax : (MAXLINE : ℤ) = 1024 := rfl
  have hlimit : (toULong (MAXLINE - text.bytes.length - 1)).toNat
      = MAXLINE - text.bytes.length - 1 := by
    rw [toULong_of_mem (by omega) (by omega)]
    omega
  have hadd : addError true error (text.bytes ++ 0 :: rest)
      = snprintf (text.bytes ++ 0 :: rest) text.bytes.length
        (MAXLINE - text.bytes.length - 1) error.behindColon.bytes := by
    rw [addError, if_pos rfl, cstr_front text.clean, Option.bind_some, hlimit]
    rfl
  have hlen : text.bytes.length + (0 :: rest).length = MAXLINE := by
    rw [List.length_cons]
    omega
  obtain ⟨l', hl', htext⟩ := Line.exists_of_snprintf hlen hroom
  exact ⟨l', hadd.trans hl', htext⟩

/-- Two strings cut where the room ends. -/
lemma cut_append (t u : Text) (n : ℕ) :
    ((t.cut n).append (u.cut (n - (t.cut n).bytes.length))).bytes = (t.append u).bytes.take n := by
  have hcut := t.cut_length n
  change t.bytes.take n ++ u.bytes.take (n - (t.cut n).bytes.length) = (t.bytes ++ u.bytes).take n
  rw [List.take_append]
  by_cases h : n ≤ t.bytes.length
  · rw [show n - (t.cut n).bytes.length = n - t.bytes.length by omega]
  · rw [Text.cut_of_le (by omega)]

/-- **The error texts stay inside `buf`**: whatever the format comes to and whatever the error,
the three stores go inside, and what is put out is the message, cut off after `MAXLINE - 2`
characters, with a newline. -/
theorem error_line_inside (buf : Buf) (errnoflag : Bool) (text error : Text) :
    errDoit buf errnoflag text error
      = some ((message errnoflag text error).bytes.take (MAXLINE - 2) ++ [10]) := by
  obtain ⟨l, hl, htext⟩ := exists_of_text buf text
  rw [errDoit, hl, Option.bind_some]
  cases errnoflag with
  | true =>
      obtain ⟨l', hl', htext'⟩ := exists_of_error l error
      rw [hl', Option.bind_some, l'.newline, htext', htext, cut_append]
      rfl
  | false =>
      have hmessage : (message false text error).bytes = text.bytes := List.append_nil _
      rw [addError, if_neg Bool.false_ne_true, Option.bind_some, l.newline, htext, hmessage]
      rfl

end Daemon

end OperatingSys
