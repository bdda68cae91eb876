import OperatingSys.Foundations.Chunks
import OperatingSys.Foundations.CString
import OperatingSys.Foundations.Machine
import OperatingSys.Pagemap.Basic

/-!
The printing of `/proc/pid` in `os_02/lab_04/src/part_01/main.c`.

Each function prints one file or directory of the process. `freadLoop` is the loop in
which those that print a file read it into `buf` and do something with each piece, a
machine moved by the pieces; `readThrough` runs it over a file. `none` is an access
outside the `BUFSIZ` bytes of `buf`. The line with the file's name that every
function prints first is left out.
-/

namespace OperatingSys

namespace ProcInfo

open Pagemap (BUFSIZ)

/-- Bytes of a file, or of a name. -/
abbrev Text := List UInt8

/-- `char buf[BUFSIZ] = { 0 };`. -/
def zeros : Text := List.replicate BUFSIZ 0

@[simp] lemma zeros_length : zeros.length = BUFSIZ := List.length_replicate

/-- The pieces that `fread(buf, 1, BUFSIZ, file)` brings until it brings nothing. -/
def freads (content : Text) : List Text := chunks (BUFSIZ - 1) content

variable {ω : Type*}

/-- `while ((len = fread(buf, 1, BUFSIZ, file)) > 0)`, moved by the pieces read. The body
is given `len` and `buf` and prints. -/
def freadLoop (body : ℕ → Text → Option (List ω × Text)) : Machine Text Text (List ω) where
  step b piece := (blit b 0 piece).bind (body piece.length)

/-- What a run has printed. -/
def printed {ι : Type*} (tr : List (ι × List ω)) : List ω := tr.flatMap Prod.snd

/-- What a function with this body prints of a file. -/
def readThrough (body : ℕ → Text → Option (List ω × Text)) (content : Text) : Option (List ω) :=
  ((freadLoop body).exec (freads content) zeros).map fun (tr, _) => printed tr

lemma freads_flatten (content : Text) : (freads content).flatten = content :=
  chunks_flatten content

lemma length_of_mem_freads {content piece : Text} (h : piece ∈ freads content) :
    0 < piece.length ∧ piece.length ≤ BUFSIZ :=
  length_of_mem_chunks h

lemma freads_of_ne_nil {content : Text} (h : content ≠ []) :
    freads content = content.take BUFSIZ :: freads (content.drop BUFSIZ) :=
  chunks_of_ne_nil h

lemma freads_of_le {content : Text} (h : content ≠ []) (hle : content.length ≤ BUFSIZ) :
    freads content = [content] :=
  chunks_eq_singleton h hle

lemma freads_length_le_one_iff {content : Text} :
    (freads content).length ≤ 1 ↔ content.length ≤ BUFSIZ :=
  chunks_length_le_one_iff

/-- A piece is stored at the front of `buf`. -/
lemma blit_piece {b piece : Text} (hb : b.length = BUFSIZ) (h : piece.length ≤ BUFSIZ) :
    blit b 0 piece = some (piece ++ b.drop piece.length) :=
  blit_front (hb ▸ h)

/-- The rule of the loop: a body that prints `out piece` for each piece, whatever
the rest of `buf` holds, and keeps the size of `buf`. -/
lemma exec_freadLoop {body : ℕ → Text → Option (List ω × Text)} {out : Text → List ω}
    (hbody : ∀ piece rest, piece ≠ [] → (piece ++ rest).length = BUFSIZ →
      ∃ b', body piece.length (piece ++ rest) = some (out piece, b') ∧ b'.length = BUFSIZ)
    {pieces : List Text} (hpieces : ∀ p ∈ pieces, 0 < p.length ∧ p.length ≤ BUFSIZ)
    {b : Text} (hb : b.length = BUFSIZ) :
    ((freadLoop body).exec pieces b).map (fun (tr, _) => printed tr)
      = some (pieces.flatMap out) := by
  induction pieces generalizing b with
  | nil => rfl
  | cons p pieces ih =>
      obtain ⟨hpos, hle⟩ := hpieces p List.mem_cons_self
      obtain ⟨b', hstep, hb'⟩ := hbody p (b.drop p.length) (List.length_pos_iff.mp hpos)
        (by rw [List.length_append, List.length_drop]; omega)
      have hmove : (freadLoop body).step b p = some (out p, b') := by
        change (blit b 0 p).bind _ = _
        rw [blit_piece hb hle, Option.bind_some, hstep]
      have hrest := ih (fun q hq => hpieces q (List.mem_cons_of_mem _ hq)) hb'
      rw [Option.map_eq_some_iff] at hrest
      obtain ⟨⟨tr, b''⟩, hexec, htr⟩ := hrest
      rw [Machine.exec_cons_of_exec hmove hexec, List.flatMap_cons, ← htr]
      rfl

/-- The rule of the functions that print a file. -/
theorem readThrough_eq {body : ℕ → Text → Option (List ω × Text)} {out : Text → List ω}
    (hbody : ∀ piece rest, piece ≠ [] → (piece ++ rest).length = BUFSIZ →
      ∃ b', body piece.length (piece ++ rest) = some (out piece, b') ∧ b'.length = BUFSIZ)
    (content : Text) : readThrough body content = some ((freads content).flatMap out) :=
  exec_freadLoop hbody (fun _ => length_of_mem_freads) zeros_length

/-- A file that is one piece. -/
lemma readThrough_of_le {body : ℕ → Text → Option (List ω × Text)} {content : Text}
    (h : content ≠ []) (hle : content.length ≤ BUFSIZ) : readThrough body content
      = (body content.length (content ++ zeros.drop content.length)).map Prod.fst := by
  rw [readThrough, freads_of_le h hle, Machine.exec]
  simp only [freadLoop, blit_piece zeros_length hle, Option.bind_some]
  cases body content.length (content ++ zeros.drop content.length) with
  | none => rfl
  | some r =>
      obtain ⟨out, b⟩ := r
      simp [Machine.exec, printed]

/-- The induction rule of what is printed: what holds of everything the body prints. -/
lemma forall_mem_readThrough {body : ℕ → Text → Option (List ω × Text)} {P : ω → Prop}
    (hbody : ∀ len b out b', body len b = some (out, b') → ∀ q ∈ out, P q) {content : Text}
    {out : List ω} (h : readThrough body content = some out) : ∀ q ∈ out, P q := by
  obtain ⟨⟨tr, b⟩, hexec, rfl⟩ := Option.map_eq_some_iff.mp h
  refine (Machine.run_of_exec hexec).induct_trace (I := fun tr _ => ∀ q ∈ printed tr, P q)
    (by simp [printed]) fun tr b piece out b' hI hstep => ?_
  obtain ⟨b₁, -, hb₁⟩ := Option.bind_eq_some_iff.mp hstep
  rw [printed, List.flatMap_append, List.flatMap_singleton]
  exact List.forall_mem_append.mpr ⟨hI, hbody _ _ _ _ hb₁⟩

end ProcInfo

end OperatingSys
