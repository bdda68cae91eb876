import OperatingSys.DirWalk.Tree
import OperatingSys.Foundations.CString

/-!
The error texts of the iterative walk, `err_doit`.

What the format comes to is put into `buf`, the text of the error behind it, and a newline
behind both. The three stores go inside `buf` when the whole message fits with its newline
and its terminator (`errDoit_eq`), and the limits of the first two are too wide to keep
the last one inside in any other case (`errDoit_eq_none`). `none` is a store outside `buf`.
-/

namespace OperatingSys

namespace DirWalk

/-- A string, without its terminator. -/
structure Text where
  bytes : List UInt8
  clean : (0 : UInt8) ∉ bytes

/-- The characters of a literal. -/
def literal (s : String) : List UInt8 := s.toList.map fun c => UInt8.ofNat c.toNat

/-- `char buf[4095]`, whatever it holds. -/
structure ErrBuf where
  bytes : List UInt8
  size : bytes.length = 4095

/-- The second `snprintf`, of `": %s"`. Its limit has a digit more than the size of `buf`. -/
def addError (errnoflag : Bool) (error : Text) (buf : List UInt8) : Option (List UInt8) :=
  if errnoflag then
    (cstr buf 0).bind fun t =>
      snprintf buf t.length (40995 - t.length - 1) (literal ": " ++ error.bytes)
  else some buf

/-- `err_doit`, for what the format and its arguments come to and what `strerror` returns: the
string that `fputs` puts out. -/
def errDoit (buf : ErrBuf) (errnoflag : Bool) (text error : Text) : Option (List UInt8) :=
  (snprintf buf.bytes 0 4095 text.bytes).bind fun b =>
    (addError errnoflag error b).bind fun b => (strcat b [10]).bind fun b => cstr b 0

/-- `err_ret`. -/
def errRet (buf : ErrBuf) (text error : Text) : Option (List UInt8) := errDoit buf true text error

/-- What the formats of `myfunc` come to. -/
def Ftw.errorText (path : List UInt8) : Ftw → Option (List UInt8)
  | .F _ | .D _ => none
  | .DNR => some (literal "can't read directory " ++ path)
  | .NS => some (literal "stat error for " ++ path)

/-- Bytes as the string that `%s` reads, which ends in front of the first zero. -/
def Text.of (bytes : List UInt8) : Text where
  bytes := bytes.takeWhile (· ≠ 0)
  clean h := by simpa using List.mem_takeWhile_imp h

/-- `strlen`. -/
def strlen (path : Path) : ℕ := (Text.of path).bytes.length

/-! ### The message -/

namespace Text

/-- Two strings one behind the other. -/
def append (t u : Text) : Text where
  bytes := t.bytes ++ u.bytes
  clean h := (List.mem_append.mp h).elim t.clean u.clean

/-- The first `n` bytes of a string. -/
def cut (t : Text) (n : ℕ) : Text where
  bytes := t.bytes.take n
  clean h := t.clean (List.mem_of_mem_take h)

def empty : Text := ⟨[], List.not_mem_nil⟩

/-- What the second format comes to. -/
def behindColon (error : Text) : Text where
  bytes := literal ": " ++ error.bytes
  clean h := (List.mem_append.mp h).elim (fun h => absurd h (by decide)) error.clean

lemma behindColon_length (error : Text) :
    error.behindColon.bytes.length = error.bytes.length + 2 := by
  have hcolon : (literal ": ").length = 2 := by decide
  rw [behindColon, List.length_append, hcolon, Nat.add_comm]

lemma append_length (t u : Text) :
    (t.append u).bytes.length = t.bytes.length + u.bytes.length := List.length_append

lemma cut_length (t : Text) (n : ℕ) : (t.cut n).bytes.length = min n t.bytes.length :=
  List.length_take

lemma cut_of_le {t : Text} {n : ℕ} (h : t.bytes.length ≤ n) : t.cut n = t := by
  obtain ⟨bytes, clean⟩ := t
  simp only [cut, List.take_of_length_le h]

end Text

/-- The message without its newline. -/
def message (errnoflag : Bool) (text error : Text) : Text :=
  text.append (if errnoflag then error.behindColon else .empty)

lemma strlen_of_clean {path : Path} (h : (0 : UInt8) ∉ path) : strlen path = path.length := by
  have hall : path.takeWhile (· ≠ 0) = path := List.takeWhile_eq_self_iff.mpr fun b hb => by
    simpa using fun hb0 : b = 0 => h (hb0 ▸ hb)
  exact congrArg List.length hall

/-- The message about a path that cannot be `lstat`-ed. -/
lemma stat_message_length (path : Path) (error : Text) :
    (message true (.of (literal "stat error for " ++ path)) error).bytes.length
      = strlen path + error.bytes.length + 17 := by
  have hlit : (literal "stat error for ").takeWhile (· ≠ 0) = literal "stat error for " := by
    decide
  have htext : (Text.of (literal "stat error for " ++ path)).bytes
      = literal "stat error for " ++ (Text.of path).bytes :=
    List.takeWhile_append_of_pos (List.takeWhile_eq_self_iff.mp hlit)
  have hlen : (literal "stat error for ").length = 15 := by decide
  rw [message, if_pos rfl, Text.append_length, Text.behindColon_length, htext, List.length_append,
    hlen, strlen]
  omega

/-! ### The three stores -/

/-- `buf` holds a string. -/
def HoldsText (buf : List UInt8) (t : Text) : Prop :=
  ∃ rest, buf = t.bytes ++ 0 :: rest ∧ t.bytes.length + 1 + rest.length = 4095

variable {buf : List UInt8} {t text error : Text}

/-- The text is stored, as much of it as fits. -/
lemma snprintf_text (buf : ErrBuf) (text : Text) :
    ∃ b, snprintf buf.bytes 0 4095 text.bytes = some b ∧ HoldsText b (text.cut 4094) := by
  have hsize := buf.size
  have hcut := text.cut_length 4094
  have hfit : (text.bytes.take (4095 - 1)).length < buf.bytes.length := by
    change (text.cut 4094).bytes.length < _
    omega
  refine ⟨_, @snprintf_append UInt8 _ [] _ _ _ (by decide) hfit, _, rfl, ?_⟩
  rw [List.length_drop]
  change _ + 1 + (buf.bytes.length - ((text.cut 4094).bytes.length + 1)) = _
  omega

/-- The second store goes behind the string that `buf` holds. -/
lemma addError_eq {rest : List UInt8} : addError true error (t.bytes ++ 0 :: rest)
    = snprintf (t.bytes ++ 0 :: rest) t.bytes.length (40995 - t.bytes.length - 1)
      error.behindColon.bytes := by
  rw [addError, if_pos rfl, cstr_front t.clean, Option.bind_some]
  rfl

/-- The text of the error, where it fits. -/
lemma addError_fits (error : Text) (h : HoldsText buf t)
    (hfit : t.bytes.length + error.bytes.length + 2 < 4095) :
    ∃ b, addError true error buf = some b ∧ HoldsText b (t.append error.behindColon) := by
  obtain ⟨rest, rfl, hlen⟩ := h
  have htail := error.behindColon_length
  have hall : error.behindColon.bytes.take (40995 - t.bytes.length - 1 - 1)
      = error.behindColon.bytes := List.take_of_length_le (by omega)
  have hstore := @snprintf_append UInt8 _ t.bytes (0 :: rest) error.behindColon.bytes
    (40995 - t.bytes.length - 1) (by omega) (by rw [hall, List.length_cons]; omega)
  rw [hall, ← List.append_assoc] at hstore
  refine ⟨_, addError_eq.trans hstore, _, rfl, ?_⟩
  rw [Text.append_length, List.length_drop, List.length_cons]
  omega

/-- The text of the error, where it does not fit. -/
lemma addError_past (h : HoldsText buf t)
    (hpast : 4095 ≤ t.bytes.length + error.bytes.length + 2) : addError true error buf = none := by
  obtain ⟨rest, rfl, hlen⟩ := h
  have htail := error.behindColon_length
  rw [addError_eq]
  refine snprintf_eq_none (by omega) ?_
  rw [List.length_take, List.length_append, List.length_cons]
  omega

/-- The newline, where it fits. -/
lemma newline_fits (h : HoldsText buf t) (hfit : t.bytes.length + 2 ≤ 4095) :
    ((strcat buf [10]).bind fun b => cstr b 0) = some (t.bytes ++ [10]) := by
  obtain ⟨rest, rfl, hlen⟩ := h
  have hline : (0 : UInt8) ∉ t.bytes ++ [10] := by
    rw [List.mem_append, not_or]
    exact ⟨t.clean, by decide⟩
  rw [strcat_append t.clean (by rw [List.length_singleton]; omega), Option.bind_some,
    ← List.append_assoc, cstr_front hline]

/-- The newline, where it does not fit. -/
lemma newline_past (h : HoldsText buf t) (hpast : 4095 < t.bytes.length + 2) :
    strcat buf [10] = none := by
  obtain ⟨rest, rfl, hlen⟩ := h
  exact strcat_eq_none t.clean (by rw [List.length_singleton]; omega)

/-! ### All of them -/

/-- A message that fits is put out. -/
lemma errDoit_eq (buf : ErrBuf) {errnoflag : Bool}
    (h : (message errnoflag text error).bytes.length + 2 ≤ 4095) :
    errDoit buf errnoflag text error = some ((message errnoflag text error).bytes ++ [10]) := by
  rw [message, Text.append_length] at h
  obtain ⟨b, hb, hholds⟩ := snprintf_text buf text
  rw [Text.cut_of_le (by omega)] at hholds
  rw [errDoit, hb, Option.bind_some]
  cases errnoflag with
  | true =>
      rw [if_pos rfl, Text.behindColon_length] at h
      obtain ⟨b', hb', hholds'⟩ := addError_fits error hholds (by omega)
      have hlen : (text.append error.behindColon).bytes.length + 2 ≤ 4095 := by
        rw [Text.append_length, Text.behindColon_length]
        exact h
      rw [hb', Option.bind_some]
      exact newline_fits hholds' hlen
  | false =>
      have hempty : (message false text error).bytes = text.bytes := List.append_nil _
      rw [addError, if_neg Bool.false_ne_true, Option.bind_some, hempty]
      exact newline_fits hholds (by omega)

/-- A message that does not fit goes outside `buf`. -/
lemma errDoit_eq_none (buf : ErrBuf) {errnoflag : Bool}
    (h : 4095 < (message errnoflag text error).bytes.length + 2) :
    errDoit buf errnoflag text error = none := by
  rw [message, Text.append_length] at h
  obtain ⟨b, hb, hholds⟩ := snprintf_text buf text
  have hcut := text.cut_length 4094
  rw [errDoit, hb, Option.bind_some]
  cases errnoflag with
  | true =>
      rw [if_pos rfl, Text.behindColon_length] at h
      by_cases hfit : (text.cut 4094).bytes.length + error.bytes.length + 2 < 4095
      · -- the error fits, and leaves no room for the newline
        obtain ⟨b', hb', hholds'⟩ := addError_fits error hholds hfit
        have hlen : 4095 < ((text.cut 4094).append error.behindColon).bytes.length + 2 := by
          rw [Text.append_length, Text.behindColon_length]
          omega
        rw [hb', Option.bind_some, newline_past hholds' hlen]
        rfl
      · rw [addError_past hholds (Nat.not_lt.mp hfit)]
        rfl
  | false =>
      rw [if_neg Bool.false_ne_true] at h
      have hlong : 4094 ≤ text.bytes.length := by
        change 4095 < text.bytes.length + 0 + 2 at h
        omega
      rw [addError, if_neg Bool.false_ne_true, Option.bind_some, newline_past hholds (by omega)]
      rfl

/-- **The defect of the limits, exactly**: every store goes inside `buf`, and a message that
may be cut off and ends with a newline is put out, just when the whole message fits `buf`
with its newline and its terminator. -/
theorem error_text_fits_iff (buf : ErrBuf) (errnoflag : Bool) (text error : Text) :
    (∃ k, errDoit buf errnoflag text error
        = some ((message errnoflag text error).bytes.take k ++ [10]))
      ↔ (message errnoflag text error).bytes.length + 2 ≤ 4095 := by
  constructor
  · rintro ⟨k, hk⟩
    by_contra hlong
    rw [errDoit_eq_none buf (by omega)] at hk
    cases hk
  · intro h
    exact ⟨_, by rw [errDoit_eq buf h, List.take_length]⟩

/-- `buf` with zeros in it. -/
def zeroBuf : ErrBuf := ⟨List.replicate 4095 0, List.length_replicate⟩

/-- The text for a path of 4096 letters that cannot be `lstat`-ed. -/
def longPath : Text where
  bytes := literal "stat error for " ++ List.replicate 4096 97
  clean h := (List.mem_append.mp h).elim (fun h => absurd h (by decide))
    fun h => absurd (List.eq_of_mem_replicate h) (by decide)

/-- The text of `ENAMETOOLONG`. -/
def nameTooLong : Text := ⟨literal "File name too long", by decide⟩

/-- A path that cannot be `lstat`-ed because it is too long takes the stores outside. -/
theorem long_path_outside : Ftw.NS.errorText (List.replicate 4096 97) = some longPath.bytes
    ∧ ¬ ∃ k, errRet zeroBuf longPath nameTooLong
      = some ((message true longPath nameTooLong).bytes.take k ++ [10]) := by
  refine ⟨rfl, ?_⟩
  rintro ⟨k, hk⟩
  have hlong : 4096 ≤ longPath.bytes.length := by
    rw [longPath, List.length_append, List.length_replicate]
    exact Nat.le_add_left _ _
  rw [errRet, errDoit_eq_none zeroBuf (by rw [message, Text.append_length]; omega)] at hk
  cases hk

end DirWalk

end OperatingSys
