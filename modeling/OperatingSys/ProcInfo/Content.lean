import OperatingSys.ProcInfo.Basic

/-!
The command line and the environment, `cmdline_info` and `environ_info`.

Both files are rows of strings, and the functions put every terminator as the end of a
line. Of each piece they print all but the last byte (`rewriteBody_eq`), which is the
terminator that ends the file when the file is one piece and does end with one, and a
byte of the content in every other case (`content_kept_iff`).
-/

namespace OperatingSys

namespace ProcInfo

open Pagemap (BUFSIZ)

/-- A byte as it is to be printed. -/
def asLine (c : UInt8) : UInt8 := if c = 0 then 10 else c

/-- `if (buf[i] == 0) buf[i] = 10;`. -/
def putNewline (b : Text) (i : ℕ) : Option Text :=
  (b[i]?).bind fun c => if c = 0 then poke b i 10 else some b

/-- `for (size_t i = 0; i < len; i++)`, from the index `i` on, with so many turns left. -/
def newlines : ℕ → ℕ → Text → Option Text
  | 0, _, b => some b
  | n + 1, i, b => (putNewline b i).bind (newlines n (i + 1))

/-- `if (len) buf[len - 1] = 0;`. -/
def cutLast (len : ℕ) (b : Text) : Option Text :=
  if len ≠ 0 then poke b (len - 1) 0 else some b

/-- The body of the loops of `cmdline_info` and `environ_info`. -/
def rewriteBody (len : ℕ) (b : Text) : Option (Text × Text) := do
  let b ← newlines len 0 b
  let b ← cutLast len b
  let shown ← cstr b 0
  return (shown, b)

/-- What `cmdline_info` prints of `/proc/pid/cmdline`. -/
def cmdlineInfo (cmdline : Text) : Option Text := readThrough rewriteBody cmdline

/-- What `environ_info` prints of `/proc/pid/environ`. -/
def environInfo (environ : Text) : Option Text := readThrough rewriteBody environ

/-- What is to be printed of a content: each terminator as a newline, but for the one that
ends the content. -/
def wanted (content : Text) : Text :=
  (if content.getLast? = some 0 then content.dropLast else content).map asLine

/-! ### A piece -/

lemma asLine_ne_zero (c : UInt8) : asLine c ≠ 0 := by
  rw [asLine]
  split_ifs with h
  · decide
  · exact h

lemma zero_notMem_map_asLine (u : Text) : (0 : UInt8) ∉ u.map asLine := by
  rw [List.mem_map]
  rintro ⟨c, -, hc⟩
  exact asLine_ne_zero c hc

lemma putNewline_append (pre : Text) (c : UInt8) (rest : Text) :
    putNewline (pre ++ c :: rest) pre.length = some (pre ++ asLine c :: rest) := by
  rw [putNewline, List.getElem?_append_right le_rfl, Nat.sub_self, List.getElem?_cons_zero,
    Option.bind_some, asLine]
  split_ifs with h
  · exact poke_append c 10
  · rfl

/-- The loop rewrites the piece and leaves what is behind it. -/
lemma newlines_eq (piece pre rest : Text) :
    newlines piece.length pre.length (pre ++ (piece ++ rest))
      = some (pre ++ (piece.map asLine ++ rest)) := by
  induction piece generalizing pre with
  | nil => rfl
  | cons c piece ih =>
      have hrest := ih (pre ++ [asLine c])
      rw [List.length_append, List.length_singleton, List.append_assoc, List.append_assoc] at hrest
      rw [List.length_cons, List.cons_append, newlines, putNewline_append, Option.bind_some]
      exact hrest

/-- The terminator is stored over the last byte. -/
lemma cutLast_append (u : Text) (c : UInt8) (rest : Text) :
    cutLast (u.length + 1) (u ++ c :: rest) = some (u ++ 0 :: rest) := by
  rw [cutLast, if_pos (Nat.succ_ne_zero _), Nat.cast_add, Nat.cast_one, add_sub_cancel_right,
    poke_append]

/-- **A piece**: all of it but its last byte is printed. -/
lemma rewriteBody_eq (u : Text) (c : UInt8) (rest : Text) :
    rewriteBody (u.length + 1) (u ++ c :: rest)
      = some (u.map asLine, u.map asLine ++ 0 :: rest) := by
  have hloop : newlines (u.length + 1) 0 (u ++ c :: rest)
      = some (u.map asLine ++ asLine c :: rest) := by
    simpa using newlines_eq (u ++ [c]) [] rest
  have hcut := cutLast_append (u.map asLine) (asLine c) rest
  rw [List.length_map] at hcut
  have hstr : cstr (u.map asLine ++ 0 :: rest) 0 = some (u.map asLine) :=
    cstr_front (zero_notMem_map_asLine u) rest
  simp only [rewriteBody, hloop, hcut, hstr, Option.bind_eq_bind, Option.bind_some]
  rfl

/-- What is printed of a content, whatever it is. -/
lemma rewritten_eq (content : Text) : readThrough rewriteBody content
    = some ((freads content).flatMap fun piece => piece.dropLast.map asLine) := by
  refine readThrough_eq (fun piece rest hne hlen => ?_) content
  obtain ⟨u, c, rfl⟩ := (List.eq_nil_or_concat piece).resolve_left hne
  refine ⟨u.map asLine ++ 0 :: rest, ?_, ?_⟩
  · simpa using rewriteBody_eq u c rest
  · simpa using hlen

/-! ### A content -/

/-- Every piece costs a byte. -/
lemma rewritten_length (pieces : List Text) (h : ∀ p ∈ pieces, 0 < p.length) :
    (pieces.flatMap fun piece => piece.dropLast.map asLine).length + pieces.length
      = pieces.flatten.length := by
  induction pieces with
  | nil => rfl
  | cons p pieces ih =>
      have hp := h p List.mem_cons_self
      have hrest := ih fun q hq => h q (List.mem_cons_of_mem _ hq)
      simp only [List.flatMap_cons, List.flatten_cons, List.length_append, List.length_map,
        List.length_dropLast, List.length_cons]
      omega

lemma wanted_length (content : Text) : (wanted content).length
    = content.length - if content.getLast? = some 0 then 1 else 0 := by
  rw [wanted, List.length_map]
  split_ifs
  · rw [List.length_dropLast]
  · rfl

/-- A content that is one piece. -/
lemma rewritten_of_le {content : Text} (h : content.length ≤ BUFSIZ) :
    readThrough rewriteBody content = some (content.dropLast.map asLine) := by
  rw [rewritten_eq]
  by_cases hnil : content = []
  · rw [hnil, freads, chunks_nil]
    rfl
  · rw [freads_of_le hnil h, List.flatMap_singleton]

lemma rewritten_eq_wanted_iff {content : Text} :
    readThrough rewriteBody content = some (wanted content)
      ↔ content = [] ∨ content.length ≤ BUFSIZ ∧ content.getLast? = some 0 := by
  constructor
  · intro h
    rw [rewritten_eq, Option.some.injEq] at h
    have hcost := rewritten_length (freads content) fun p hp => (length_of_mem_freads hp).1
    rw [h, freads_flatten, wanted_length] at hcost
    -- at most one byte may be missing, so there is at most one piece
    by_cases hnil : content = []
    · exact Or.inl hnil
    · have hpos := List.length_pos_iff.mpr hnil
      have hsome : (freads content).length ≠ 0 := by
        rw [Ne, List.length_eq_zero_iff, freads, chunks_eq_nil_iff]
        exact hnil
      split_ifs at hcost with hlast
      · exact Or.inr ⟨freads_length_le_one_iff.mp (by omega), hlast⟩
      · omega
  · rintro (rfl | ⟨hlen, hlast⟩)
    · rw [rewritten_of_le (Nat.zero_le _)]
      rfl
    · rw [rewritten_of_le hlen, wanted, if_pos hlast]

/-- **The defect of the rewriting, exactly**: the two functions print the content of their
file, with newlines for the terminators and without the one that ends it, just when the
file is empty, or one piece that ends with a terminator. -/
theorem content_kept_iff (content : Text) :
    (cmdlineInfo content = some (wanted content)
        ↔ content = [] ∨ content.length ≤ BUFSIZ ∧ content.getLast? = some 0)
      ∧ (environInfo content = some (wanted content)
        ↔ content = [] ∨ content.length ≤ BUFSIZ ∧ content.getLast? = some 0) :=
  ⟨rewritten_eq_wanted_iff, rewritten_eq_wanted_iff⟩

/-- An argument that fills the buffer, and its terminator. -/
def longArgument : Text := List.replicate BUFSIZ 65 ++ [0]

/-- The last letter of the long argument is lost at the end of the first piece, and so is the
last letter of a file that no terminator ends. -/
theorem last_letter_lost :
    cmdlineInfo longArgument ≠ some (wanted longArgument)
      ∧ environInfo longArgument ≠ some (wanted longArgument)
      ∧ cmdlineInfo [65] = some [] ∧ wanted [65] = [65] := by
  have hlong : readThrough rewriteBody longArgument ≠ some (wanted longArgument) := by
    rw [Ne, rewritten_eq_wanted_iff, longArgument, List.length_append, List.length_replicate,
      List.length_singleton]
    simp
  refine ⟨hlong, hlong, ?_, by decide⟩
  rw [cmdlineInfo, rewritten_of_le (by decide)]
  rfl

end ProcInfo

end OperatingSys
