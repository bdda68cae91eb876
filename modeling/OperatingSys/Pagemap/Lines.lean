import OperatingSys.Pagemap.Ahead

/-!
Well-formed lines of `/proc/pid/maps`, and what the parser makes of them.

`MapsLine` is a line by its fields, with what makes it well formed. At the newline
of such a line, wherever it stands in the buffer and whatever follows it, the parser
finds its two numbers and its name and leaves the buffer as it was
(`parseLine_line`).
-/

namespace OperatingSys

namespace Pagemap

/-! ### Well-formed lines -/

/-- The digits `0`-`9`, `a`-`f`. -/
def hexAlphabet : List UInt8 := [48, 49, 50, 51, 52, 53, 54, 55, 56, 57, 97, 98, 99, 100, 101, 102]

/-- The number a word of digits stands for. -/
def hexNat (w : List UInt8) : ℕ := w.foldl (fun n c => n * 16 + hexAlphabet.idxOf c) 0

/-- A number of at most 16 digits. -/
structure IsHex (w : List UInt8) : Prop where
  digits : ∀ c ∈ w, c ∈ hexAlphabet
  length_le : w.length ≤ 16

/-- A field of a line: nonempty, without a space or a newline. -/
structure IsField (w : List UInt8) : Prop where
  ne_nil : w ≠ []
  no_space : space ∉ w
  no_newline : newline ∉ w

/-- The name at the end of a line, possibly empty. -/
structure IsName (w : List UInt8) : Prop where
  head : w.head? ≠ some space
  no_nul : 0 ∉ w
  no_newline : newline ∉ w

/-- A line of the maps file. -/
structure MapsLine where
  low : List UInt8
  high : List UInt8
  perms : List UInt8
  offset : List UInt8
  dev : List UInt8
  inode : List UInt8
  padding : ℕ
  name : List UInt8
  isHex_low : IsHex low
  isHex_high : IsHex high
  isField_perms : IsField perms
  isField_offset : IsField offset
  isField_dev : IsField dev
  isField_inode : IsField inode
  isName_name : IsName name

namespace MapsLine

/-- The fields behind the numbers, each after its space, up to the name. -/
def fields (l : MapsLine) : List UInt8 :=
  space :: (l.perms ++ space :: (l.offset ++ space :: (l.dev ++ space :: (l.inode ++
    space :: List.replicate l.padding space))))

/-- The line up to its name. -/
def front (l : MapsLine) : List UInt8 := l.low ++ dash :: (l.high ++ l.fields)

/-- The line without its newline. -/
def body (l : MapsLine) : List UInt8 := l.front ++ l.name

/-- The line as it stands in the file. -/
def text (l : MapsLine) : List UInt8 := l.body ++ [newline]

/-- The file with the lines `ls`. -/
def file (ls : List MapsLine) : List UInt8 := ls.flatMap text

/-- The call for a line: its numbers as 64-bit values and its name. -/
def range (l : MapsLine) : VirtualRange :=
  ⟨UInt64.ofNat (hexNat l.low), UInt64.ofNat (hexNat l.high), l.name⟩

@[simp] lemma file_nil : file [] = [] := rfl

@[simp] lemma file_cons (l : MapsLine) (ls : List MapsLine) :
    file (l :: ls) = l.body ++ newline :: file ls := by
  simp [file, text]

lemma body_length_pos (l : MapsLine) : 0 < l.body.length := by
  simp only [body, front, List.length_append, List.length_cons]
  omega

lemma text_length (l : MapsLine) : l.text.length = l.body.length + 1 := by
  rw [text, List.length_append, List.length_singleton]

end MapsLine

/-! ### The numbers of a line -/

lemma hexDigit_of_mem : ∀ c ∈ hexAlphabet,
    hexDigit c = some (UInt64.ofNat (hexAlphabet.idxOf c)) ∧ c ≠ newline := by
  decide +kernel

lemma IsHex.isSome {w : List UInt8} (h : IsHex w) : ∀ c ∈ w, (hexDigit c).isSome := by
  intro c hc
  rw [(hexDigit_of_mem c (h.digits c hc)).1]
  rfl

lemma IsHex.no_newline {w : List UInt8} (h : IsHex w) : newline ∉ w :=
  fun hm => (hexDigit_of_mem _ (h.digits _ hm)).2 rfl

/-- The digit loop computes the number in 64 bits. -/
lemma foldl_hexDigit {w : List UInt8} (h : ∀ c ∈ w, c ∈ hexAlphabet) (n : ℕ) :
    w.foldl (fun a c => a * 16 + (hexDigit c).getD 0) (UInt64.ofNat n)
      = UInt64.ofNat (w.foldl (fun n c => n * 16 + hexAlphabet.idxOf c) n) := by
  induction w generalizing n with
  | nil => rfl
  | cons c w ih =>
      have hc := (hexDigit_of_mem c (h c List.mem_cons_self)).1
      rw [List.foldl_cons, List.foldl_cons, hc, Option.getD_some,
        ← ih fun c' hc' => h c' (List.mem_cons_of_mem _ hc')]
      congr 1
      rw [UInt64.ofNat_add, UInt64.ofNat_mul]
      rfl

lemma foldl_hexNat_lt {w : List UInt8} (h : ∀ c ∈ w, c ∈ hexAlphabet) {n k : ℕ}
    (hn : n < 16 ^ k) :
    w.foldl (fun n c => n * 16 + hexAlphabet.idxOf c) n < 16 ^ (k + w.length) := by
  induction w generalizing n k with
  | nil => simpa using hn
  | cons c w ih =>
      have hc : hexAlphabet.idxOf c < 16 := List.idxOf_lt_length_of_mem (h c List.mem_cons_self)
      have hstep : n * 16 + hexAlphabet.idxOf c < 16 ^ (k + 1) := by
        rw [pow_succ]
        omega
      have := ih (fun c' hc' => h c' (List.mem_cons_of_mem _ hc')) hstep
      rwa [List.foldl_cons, List.length_cons, Nat.add_comm w.length, ← Nat.add_assoc]

/-- A number of at most 16 digits fits in 64 bits. -/
lemma IsHex.hexNat_lt {w : List UInt8} (h : IsHex w) : hexNat w < 2 ^ 64 := by
  have hlt := foldl_hexNat_lt h.digits (n := 0) (k := 0) (by norm_num)
  calc hexNat w < 16 ^ (0 + w.length) := hlt
    _ ≤ 16 ^ 16 := Nat.pow_le_pow_right (by norm_num) (by have := h.length_le; omega)
    _ = 2 ^ 64 := by norm_num

lemma IsHex.toNat {w : List UInt8} (h : IsHex w) :
    (UInt64.ofNat (hexNat w)).toNat = hexNat w :=
  UInt64.toNat_ofNat_of_lt' h.hexNat_lt

/-- A digit loop over a number computes it and leaves what follows. -/
lemma hexRun_number {stop : UInt8} (hstop : hexDigit stop = none) {w : List UInt8}
    (h : IsHex w) (t : List UInt8) :
    hexRun stop 0 (w ++ stop :: t) = (UInt64.ofNat (hexNat w), stop :: t) := by
  rw [hexRun_append_cons hstop h.isSome]
  exact congrArg (·, stop :: t) (foldl_hexDigit h.digits 0)

/-! ### The fields and the name of a line -/

/-- One field is passed. -/
lemma dropFields_field (k : ℕ) {c : UInt8} {w t : List UInt8} (h : IsField w) :
    dropFields (k + 1) (c :: (w ++ space :: t)) = dropFields k (space :: t) := by
  rw [dropFields, dropWhile_append_cons (fun a ha => ?_) (by decide)]
  rw [decide_eq_true_eq]
  rintro rfl
  exact h.no_space ha

namespace MapsLine

variable (l : MapsLine)

/-- The four fields are passed, up to the padding. -/
lemma dropFields_fields (t : List UInt8) :
    dropFields 4 (l.fields ++ t) = some (space :: (List.replicate l.padding space ++ t)) := by
  simp only [fields, List.cons_append, List.append_assoc]
  rw [dropFields_field 3 l.isField_perms, dropFields_field 2 l.isField_offset,
    dropFields_field 1 l.isField_dev, dropFields_field 0 l.isField_inode, dropFields]

/-- The padding is passed, up to the name or what follows it. -/
lemma dropWhile_padding {t : List UInt8} (ht : t.head? ≠ some space) :
    (space :: (List.replicate l.padding space ++ (l.name ++ t))).dropWhile (· = space)
      = l.name ++ t := by
  have hpad : ∀ c ∈ space :: List.replicate l.padding space, decide (c = space) = true := by
    intro c hc
    rw [decide_eq_true_eq]
    exact (List.mem_cons.mp hc).elim id List.eq_of_mem_replicate
  rw [← List.cons_append, List.dropWhile_append_of_pos hpad]
  have hhead : (l.name ++ t).head? ≠ some space := by
    rw [List.head?_append]
    cases hn : l.name.head? with
    | none => exact ht
    | some c => exact fun h => l.isName_name.head (hn.trans h)
  cases hnt : l.name ++ t with
  | nil => rfl
  | cons c w =>
      rw [hnt, List.head?_cons] at hhead
      exact List.dropWhile_cons_of_neg (by simpa using hhead)

/-- The name is passed, up to what follows it. -/
lemma dropWhile_name {t : List UInt8} (ht : t = [] ∨ ∃ w, t = newline :: w) :
    (l.name ++ t).dropWhile (· ≠ newline) = t := by
  have hname : ∀ c ∈ l.name, decide (c ≠ newline) = true := by
    intro c hc
    rw [decide_eq_true_eq]
    rintro rfl
    exact l.isName_name.no_newline hc
  rw [List.dropWhile_append_of_pos hname]
  rcases ht with rfl | ⟨w, rfl⟩
  · rfl
  · exact List.dropWhile_cons_of_neg (by simp)

lemma newline_notMem_body : newline ∉ l.body := by
  have hpad : newline ∉ List.replicate l.padding space := by
    intro h
    have := List.eq_of_mem_replicate h
    cases this
  have hd : newline ≠ dash := by decide
  have hs : newline ≠ space := by decide
  simp only [body, front, fields, List.mem_append, List.mem_cons, not_or]
  exact ⟨⟨l.isHex_low.no_newline, hd, l.isHex_high.no_newline, hs, l.isField_perms.no_newline, hs,
    l.isField_offset.no_newline, hs, l.isField_dev.no_newline, hs, l.isField_inode.no_newline, hs,
    hpad⟩, l.isName_name.no_newline⟩

end MapsLine

/-! ### The work at the newline of a line -/

/-- The bytes ahead of the start of a line in the buffer: its own, and perhaps its
newline and more. -/
lemma ahead_line (pre w rest : List UInt8) :
    ∃ t, ahead (pre ++ (w ++ newline :: rest)) pre.length = w ++ t
      ∧ (t = [] ∨ ∃ v, t = newline :: v) := by
  refine ⟨(newline :: rest).dropLast, ?_, ?_⟩
  · rw [ahead, ← List.append_assoc, List.dropLast_append_of_ne_nil (List.cons_ne_nil _ _),
      List.append_assoc, List.drop_left]
  · cases rest with
    | nil => exact Or.inl rfl
    | cons c rest => exact Or.inr ⟨_, rfl⟩

/-- From the start of a line the two numbers are found, and then its fields. -/
lemma numbers_line (l : MapsLine) {m t : List UInt8} {x : ℕ} (hx : x < m.length)
    (ha : ahead m x = l.body ++ t) :
    ∃ y, numbers m x = some (UInt64.ofNat (hexNat l.low), UInt64.ofNat (hexNat l.high), y)
      ∧ y < m.length ∧ ahead m y = l.fields ++ (l.name ++ t) := by
  have hfields : l.fields = space :: l.fields.tail := rfl
  have hbody :
      ahead m x = l.low ++ dash :: (l.high ++ space :: (l.fields.tail ++ (l.name ++ t))) := by
    rw [ha, MapsLine.body, MapsLine.front, hfields]
    simp
  have hdash : ∀ c ∈ l.low, decide (c ≠ dash) = true := by
    intro c hc
    rw [decide_eq_true_eq]
    rintro rfl
    exact Bool.false_ne_true (l.isHex_low.isSome _ hc)
  have hdrop := dropWhile_append_cons (t := l.high ++ space :: (l.fields.tail ++ (l.name ++ t)))
    hdash (by decide : decide (dash ≠ dash) = false)
  rw [← hbody] at hdrop
  obtain ⟨y, hy, hlt, hay⟩ := numbers_ahead hx hdrop
  rw [hbody, hexRun_number hexDigit_dash l.isHex_low,
    hexRun_number hexDigit_space l.isHex_high] at hy
  rw [hexRun_number hexDigit_space l.isHex_high] at hay
  exact ⟨y, hy, hlt, by rw [hay, hfields]; rfl⟩

/-- The name of a line, read with the terminator in place of its newline. -/
lemma libNameAt_line (l : MapsLine) {b : Buffer} {pre rest : List UInt8}
    (hb : b.bytes = pre ++ (l.body ++ newline :: rest)) :
    libNameAt b (pre.length + l.front.length) (pre.length + l.body.length) = some (l.name, b) := by
  have hb' : b.bytes = (pre ++ l.body) ++ newline :: rest := by
    rw [hb, List.append_assoc]
  have hlen : (pre ++ l.body).length = pre.length + l.body.length := List.length_append
  have hlt : pre.length + l.body.length < b.bytes.length := by
    rw [hb', List.length_append, List.length_cons, hlen]
    omega
  have hle : pre.length + l.front.length ≤ pre.length + l.body.length := by
    rw [MapsLine.body, List.length_append]
    omega
  obtain ⟨name, hname, hcstr⟩ := libNameAt_eq (b := b) hle hlt
  -- the name ends at the terminator
  have hset : b.bytes.set (pre.length + l.body.length) 0
      = (pre ++ l.front) ++ (l.name ++ 0 :: rest) := by
    rw [hb', ← hlen, List.set_append_right _ _ le_rfl, Nat.sub_self, List.set_cons_zero]
    simp [MapsLine.body]
  rw [hset, ← List.length_append, cstr_append l.isName_name.no_nul] at hcstr
  -- and the newline is put back
  have hnl : b.bytes[pre.length + l.body.length]? = some newline := by
    rw [hb', ← hlen, List.getElem?_append_right le_rfl, Nat.sub_self]
    rfl
  rw [hname, Buffer.set_set_self hnl, Option.some.inj hcstr]

/-- **The work at the newline of a line**: the call of the line, and the buffer as it
was. -/
lemma parseLine_line (l : MapsLine) {b : Buffer} {pre rest : List UInt8}
    (hpre : lineStart pre pre.length = pre.length)
    (hb : b.bytes = pre ++ (l.body ++ newline :: rest)) :
    parseLine b (pre.length + l.body.length) = some (l.range, b) := by
  have hpos := l.body_length_pos
  have hlen : b.bytes.length = pre.length + (l.body.length + (rest.length + 1)) := by
    rw [hb, List.length_append, List.length_append, List.length_cons]
  have hfront : l.body.length = l.front.length + l.name.length := List.length_append
  -- back to the start of the line
  have hstart := backToNewline_skipOver (m := b.bytes) (x := pre.length + l.body.length - 1)
    (by omega)
  rw [Nat.sub_add_cancel (by omega), show lineStart b.bytes _ = pre.length by
    rw [hb, lineStart_append hpre l.newline_notMem_body]] at hstart
  obtain ⟨x, hx, hskip⟩ := Option.bind_eq_some_iff.mp hstart
  -- forward through the numbers and the fields
  obtain ⟨t, ha, ht⟩ := ahead_line pre l.body rest
  rw [← hb] at ha
  obtain ⟨y, hy, hylt, hya⟩ := numbers_line l (by omega) ha
  have hdrop := l.dropFields_fields (l.name ++ t)
  rw [← hya] at hdrop
  obtain ⟨z, hz, hzlt, hza⟩ : ∃ z, fieldLoop b.bytes 4 y = some z ∧ z < b.bytes.length
      ∧ ahead b.bytes z = space :: (List.replicate l.padding space ++ (l.name ++ t)) := by
    rcases fieldLoop_ahead 4 hylt with ⟨-, hnone⟩ | ⟨z, hz, hzlt, hza⟩
    · rw [hnone] at hdrop
      cases hdrop
    · exact ⟨z, hz, hzlt, Option.some.inj (hza.symm.trans hdrop)⟩
  -- up to the name, and up to its end
  have hthead : t.head? ≠ some space := by
    rcases ht with rfl | ⟨w, rfl⟩ <;> simp [newline, space]
  obtain ⟨u, hu, hult, hua⟩ := scanWhile_ahead (· = space) hzlt
  rw [hza, l.dropWhile_padding hthead] at hua
  obtain ⟨v, hv, hvlt, hva⟩ := scanWhile_ahead (· ≠ newline) hult
  rw [hua, l.dropWhile_name ht] at hva
  have hueq : u = pre.length + l.front.length := by
    refine eq_of_ahead hult (by omega) ?_
    rw [hua, ahead_add, ha, MapsLine.body, List.append_assoc, List.drop_left]
  have hveq : v = pre.length + l.body.length := by
    refine eq_of_ahead hvlt (by omega) ?_
    rw [hva, ahead_add, ha, List.drop_left]
  rw [hveq] at hv
  rw [hueq] at hu hv
  simp only [parseLine, hx, hskip, hy, hz, hu, hv, libNameAt_line l hb, Option.bind_eq_bind,
    Option.bind_some, Option.pure_def, MapsLine.range]

end Pagemap

end OperatingSys
