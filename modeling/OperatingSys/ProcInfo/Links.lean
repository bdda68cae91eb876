import OperatingSys.DirWalk.Tree
import OperatingSys.ProcInfo.Basic

/-!
The links of a process: `fd_info` and `task_info`, which list a directory, and `cwd_info`,
`exe_info` and `root_info`, which print one link.

`readlink` stores the target without a terminator, or nothing when it fails. The functions
for one link put the terminator behind the target (`linkInfo_target`). The listings do not,
and use one buffer for all entries, so that a target is followed by what a longer one
before it has left (`fdInfo_eq`).
-/

namespace OperatingSys

namespace ProcInfo

open Pagemap (BUFSIZ)
open DirWalk (notDots)

/-- The target of a link: a string shorter than the buffer. -/
structure Target where
  bytes : Text
  zero_notMem : (0 : UInt8) ∉ bytes
  length_lt : bytes.length < BUFSIZ

/-- An entry of a directory with what `readlink` gives for it, `none` when it fails. -/
structure LinkEntry where
  dName : Text
  link : Option Target

/-- The text that belongs to an entry: its target, or none. -/
def LinkEntry.own (e : LinkEntry) : Text := (e.link.map Target.bytes).getD []

/-- `readlink(path, buf, BUFSIZ)`: what it returns and the buffer. -/
def readlink (link : Option Target) (b : Text) : Option (ℤ × Text) :=
  match link with
  | none => some (-1, b)
  | some t =>
      let stored := t.bytes.take BUFSIZ
      (blit b 0 stored).map fun b => ((stored.length : ℤ), b)

/-! ### One link -/

/-- The text `cwd_info`, `exe_info` and `root_info` print. -/
def linkInfo (link : Option Target) : Option Text := do
  let (len, b) ← readlink link zeros
  let b ← if len ≠ -1 then poke b len 0 else some b
  cstr b 0

/-- `cwd_info`. -/
def cwdInfo (link : Option Target) : Option Text := linkInfo link

/-- `exe_info`. -/
def exeInfo (link : Option Target) : Option Text := linkInfo link

/-- `root_info`. -/
def rootInfo (link : Option Target) : Option Text := linkInfo link

/-! ### The entries of a directory -/

variable {ω : Type*}

/-- `while (dirp = readdir(dp))`, moved by the entries. `print` is given the name of an entry
that is not skipped, and `buf`. -/
def linkLoop (print : Text → Text → Option ω) : Machine Text LinkEntry (List ω) where
  step b e :=
    if notDots e.dName then
      (readlink e.link b).bind fun (_, b) => (print e.dName b).map fun line => ([line], b)
    else some ([], b)

/-- What a listing prints. -/
def listLinks (print : Text → Text → Option ω) (entries : List LinkEntry) : Option (List ω) :=
  ((linkLoop print).exec entries zeros).map fun (tr, _) => printed tr

/-- The lines `fd_info` prints, the name and the text behind the arrow. -/
def fdInfo (entries : List LinkEntry) : Option (List (Text × Text)) :=
  listLinks (fun dName b => (cstr b 0).map fun text => (dName, text)) entries

/-- The lines `task_info` prints. -/
def taskInfo (entries : List LinkEntry) : Option (List Text) :=
  listLinks (fun dName _ => some dName) entries

/-! ### The buffer -/

/-- The buffer with a string at its front and zeros behind it. -/
def filled (text : Text) : Text := text ++ List.replicate (BUFSIZ - text.length) 0

lemma zeros_eq_filled : zeros = filled [] := by
  simp [zeros, filled]

lemma cstr_filled {text : Text} (h0 : (0 : UInt8) ∉ text) (hlen : text.length < BUFSIZ) :
    cstr (filled text) 0 = some text := by
  obtain ⟨k, hk⟩ := Nat.exists_eq_add_of_lt hlen
  rw [filled, show BUFSIZ - text.length = k + 1 by omega, List.replicate_succ]
  exact cstr_front h0 _

/-- What a text leaves of the one that was in the buffer before. -/
def overlay (text old : Text) : Text := text ++ old.drop text.length

lemma overlay_eq_self_iff {text old : Text} :
    overlay text old = text ↔ old.length ≤ text.length := by
  rw [overlay, List.append_right_eq_self, List.drop_eq_nil_iff]

lemma LinkEntry.own_length_lt (e : LinkEntry) : e.own.length < BUFSIZ := by
  obtain ⟨dName, link⟩ := e
  cases link with
  | none => exact (by decide : 0 < BUFSIZ)
  | some t => exact t.length_lt

lemma LinkEntry.zero_notMem_own (e : LinkEntry) : (0 : UInt8) ∉ e.own := by
  obtain ⟨dName, link⟩ := e
  cases link with
  | none => exact List.not_mem_nil
  | some t => exact t.zero_notMem

/-- A text of the buffer: a string that leaves room for a terminator. -/
def Fits (text : Text) : Prop := (0 : UInt8) ∉ text ∧ text.length < BUFSIZ

lemma fits_nil : Fits [] := ⟨List.not_mem_nil, (by decide : 0 < BUFSIZ)⟩

lemma Fits.overlay {text old : Text} (h : Fits text) (hold : Fits old) :
    Fits (overlay text old) := by
  constructor
  · rw [ProcInfo.overlay, List.mem_append, not_or]
    exact ⟨h.1, fun hm => hold.1 (List.mem_of_mem_drop hm)⟩
  · have h1 := h.2
    have h2 := hold.2
    simp only [ProcInfo.overlay, List.length_append, List.length_drop]
    omega

lemma LinkEntry.fits_own (e : LinkEntry) : Fits e.own := ⟨e.zero_notMem_own, e.own_length_lt⟩

/-- A target is stored over the front of the text before it. -/
lemma blit_filled {text old : Text} (h : text.length ≤ BUFSIZ) (hold : old.length ≤ BUFSIZ) :
    blit (filled old) 0 text = some (filled (overlay text old)) := by
  have hlen : (filled old).length = BUFSIZ := by
    rw [filled, List.length_append, List.length_replicate]
    omega
  have hrest : BUFSIZ - old.length - (text.length - old.length)
      = BUFSIZ - (text.length + (old.length - text.length)) := by omega
  rw [blit_piece hlen h]
  simp only [filled, overlay, List.drop_append, List.drop_replicate, List.append_assoc,
    List.length_append, List.length_drop, hrest]

/-- **`readlink`**, successful or not, stores the entry's own text over the one before. -/
lemma readlink_filled (e : LinkEntry) {old : Text} (hold : Fits old) :
    ∃ len, readlink e.link (filled old) = some (len, filled (overlay e.own old)) := by
  obtain ⟨dName, link⟩ := e
  cases link with
  | none => exact ⟨-1, by simp [readlink, LinkEntry.own, overlay]⟩
  | some t =>
      have htake : t.bytes.take BUFSIZ = t.bytes := List.take_of_length_le t.length_lt.le
      refine ⟨t.bytes.length, ?_⟩
      simp only [readlink, htake, blit_filled t.length_lt.le hold.2.le]
      rfl

/-! ### What is printed -/

/-- The functions for one link print its target, and nothing when there is none. -/
theorem linkInfo_target (link : Option Target) :
    linkInfo link = some ((link.map Target.bytes).getD []) := by
  cases link with
  | none => exact cstr_filled List.not_mem_nil (by decide)
  | some t =>
      have htake : t.bytes.take BUFSIZ = t.bytes := List.take_of_length_le t.length_lt.le
      obtain ⟨k, hk⟩ := Nat.exists_eq_add_of_lt t.length_lt
      have hz : zeros.drop t.bytes.length = 0 :: List.replicate k 0 := by
        rw [zeros, List.drop_replicate, ← List.replicate_succ]
        congr 1
        omega
      have hblit : blit zeros 0 t.bytes = some (t.bytes ++ 0 :: List.replicate k 0) := by
        rw [blit_piece zeros_length t.length_lt.le, hz]
      have hstr : cstr (t.bytes ++ 0 :: List.replicate k 0) 0 = some t.bytes :=
        cstr_front t.zero_notMem _
      have hlen : (t.bytes.length : ℤ) ≠ -1 := by omega
      simp only [linkInfo, readlink, htake, hblit, Option.map_some, Option.bind_eq_bind,
        Option.bind_some, if_pos hlen, poke_append, hstr]
      rfl

/-- The texts that are in the buffer after each entry, from the text `old` on. -/
def texts : Text → List LinkEntry → List Text
  | _, [] => []
  | old, e :: entries => overlay e.own old :: texts (overlay e.own old) entries

/-- The entries that are not skipped. -/
def visible (entries : List LinkEntry) : List LinkEntry :=
  entries.filter fun e => notDots e.dName

/-- The rule of the listings, from any text in the buffer on. -/
lemma exec_linkLoop {print : Text → Text → Option ω} {line : Text → Text → ω}
    (hprint : ∀ dName text, Fits text → print dName (filled text) = some (line dName text))
    (entries : List LinkEntry) {old : Text} (hold : Fits old) :
    ((linkLoop print).exec entries (filled old)).map (fun (tr, _) => printed tr)
      = some (List.zipWith (fun e text => line e.dName text) (visible entries)
          (texts old (visible entries))) := by
  induction entries generalizing old with
  | nil => rfl
  | cons e entries ih =>
      by_cases hd : notDots e.dName = true
      · -- the target is stored over the text before it
        obtain ⟨len, hlink⟩ := readlink_filled e hold
        have hnew := e.fits_own.overlay hold
        have hstep : (linkLoop print).step (filled old) e
            = some ([line e.dName (overlay e.own old)], filled (overlay e.own old)) := by
          simp only [linkLoop, if_pos hd, hlink, Option.bind_some, hprint _ _ hnew,
            Option.map_some]
        obtain ⟨⟨tr, b⟩, hexec, htr⟩ := Option.map_eq_some_iff.mp (ih hnew)
        rw [Machine.exec_cons_of_exec hstep hexec, visible,
          List.filter_cons_of_pos (by simpa using hd),
          ← visible, texts, List.zipWith_cons_cons, ← htr]
        rfl
      · -- `.` and `..` are passed over
        have hstep : (linkLoop print).step (filled old) e = some ([], filled old) := by
          simp only [linkLoop, if_neg hd]
        obtain ⟨⟨tr, b⟩, hexec, htr⟩ := Option.map_eq_some_iff.mp (ih hold)
        rw [Machine.exec_cons_of_exec hstep hexec, visible,
          List.filter_cons_of_neg (by simpa using hd),
          ← visible, ← htr]
        rfl

/-- **What `fd_info` prints**: for each entry the text that is in the buffer after it. -/
theorem fdInfo_eq (entries : List LinkEntry) : fdInfo entries
    = some (List.zipWith (fun e text => (e.dName, text)) (visible entries)
        (texts [] (visible entries))) := by
  rw [fdInfo, listLinks, zeros_eq_filled]
  exact exec_linkLoop (fun dName text h => by rw [cstr_filled h.1 h.2]; rfl) entries fits_nil

lemma texts_length (old : Text) (entries : List LinkEntry) :
    (texts old entries).length = entries.length := by
  induction entries generalizing old with
  | nil => rfl
  | cons e entries ih => rw [texts, List.length_cons, List.length_cons, ih]

/-- What `task_info` prints: the names, whatever their links are. -/
theorem taskInfo_eq (entries : List LinkEntry) :
    taskInfo entries = some ((visible entries).map LinkEntry.dName) := by
  have hlen : (visible entries).length ≤ (texts [] (visible entries)).length :=
    (texts_length _ _).ge
  have hprint : ∀ dName text, Fits text →
      (fun (dName _ : Text) => some dName) dName (filled text) = some dName := fun _ _ _ => rfl
  rw [taskInfo, listLinks, zeros_eq_filled, exec_linkLoop hprint entries fits_nil,
    Option.some.injEq]
  calc List.zipWith (fun e _ => e.dName) (visible entries) (texts [] (visible entries))
      = ((visible entries).zip (texts [] (visible entries))).map (LinkEntry.dName ∘ Prod.fst) := by
        rw [List.zip, List.map_zipWith]
        rfl
    _ = (visible entries).map LinkEntry.dName := by
        rw [← List.map_map, List.map_fst_zip hlen]

/-- Lines that pair each name with its own text. -/
lemma own_lines_iff {old : Text} {entries : List LinkEntry} :
    List.zipWith (fun e text => (e.dName, text)) entries (texts old entries)
        = entries.map (fun e => (e.dName, e.own))
      ↔ (∀ e ∈ entries, old.length ≤ e.own.length)
        ∧ entries.Pairwise fun e e' => e.own.length ≤ e'.own.length := by
  induction entries generalizing old with
  | nil => simp [texts]
  | cons e entries ih =>
      rw [texts, List.zipWith_cons_cons, List.map_cons, List.cons.injEq, Prod.mk.injEq, ih,
        overlay_eq_self_iff, List.forall_mem_cons, List.pairwise_cons, and_iff_right rfl]
      constructor
      · rintro ⟨hle, hall, hpw⟩
        rw [overlay_eq_self_iff.mpr hle] at hall
        exact ⟨⟨hle, fun e' he' => hle.trans (hall e' he')⟩, hall, hpw⟩
      · rintro ⟨⟨hle, -⟩, hall, hpw⟩
        rw [overlay_eq_self_iff.mpr hle]
        exact ⟨hle, hall, hpw⟩

/-- **The defect of the open files, exactly**: each line pairs the entry's name with its own
target, or with nothing where there is none, just when no text that belongs to an entry is
shorter than one that belongs to an entry before it. -/
theorem fdInfo_own_iff (entries : List LinkEntry) :
    fdInfo entries = some ((visible entries).map fun e => (e.dName, e.own))
      ↔ (visible entries).Pairwise fun e e' => e.own.length ≤ e'.own.length := by
  rw [fdInfo_eq, Option.some.injEq, own_lines_iff]
  simp

/-- The entries `0 -> ab`, `1 -> c` and an entry whose link cannot be read. -/
def threeEntries : List LinkEntry :=
  [⟨[48], some ⟨[97, 98], by decide, by decide⟩⟩, ⟨[49], some ⟨[99], by decide, by decide⟩⟩,
    ⟨[50], none⟩]

/-- The shorter target is followed by the end of the one before, and the failed entry
gets the text of both. -/
theorem threeEntries_mixed :
    fdInfo threeEntries = some [([48], [97, 98]), ([49], [99, 98]), ([50], [99, 98])]
      ∧ fdInfo threeEntries ≠ some ((visible threeEntries).map fun e => (e.dName, e.own)) := by
  have h : fdInfo threeEntries = some [([48], [97, 98]), ([49], [99, 98]), ([50], [99, 98])] := by
    rw [fdInfo_eq]
    rfl
  exact ⟨h, by rw [h]; decide⟩

end ProcInfo

end OperatingSys
