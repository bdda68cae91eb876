import OperatingSys.Pagemap.Basic

/-!
What the loops of the maps parser do to what lies ahead.

Each loop of `parse_maps` is said in terms of the bytes from its index up to the
last one of the buffer: where it stops, what it computes, and when it leaves the
buffer. `numbers_ahead` and `fieldLoop_ahead` put together what a line needs, and
`parseLine_isSome_iff` says when the work at a newline stays in the buffer: after
the second number there must be three more spaces before the last byte
(`HasRoom`).
-/

namespace OperatingSys

namespace Pagemap

/-! ### The start of a line -/

/-- The index behind the last newline before `i`, or `0`. -/
def lineStart (m : List UInt8) (i : ℕ) : ℕ :=
  i - ((m.take i).reverse.takeWhile (· ≠ newline)).length

lemma lineStart_le (m : List UInt8) (i : ℕ) : lineStart m i ≤ i := Nat.sub_le _ _

/-- A byte that is no newline belongs to the line before it. -/
lemma lineStart_succ {m : List UInt8} {i : ℕ} (hi : i < m.length) :
    lineStart m (i + 1) = if m[i] = newline then i + 1 else lineStart m i := by
  rw [lineStart, lineStart, List.take_succ_eq_append_getElem hi, List.reverse_append,
    List.reverse_singleton, List.singleton_append]
  by_cases h : m[i] = newline
  · rw [if_pos h, List.takeWhile_cons_of_neg (by simp [h])]
    rfl
  · rw [if_neg h, List.takeWhile_cons_of_pos (by simp [h]), List.length_cons]
    have hle := (List.takeWhile_sublist (p := (· ≠ newline)) (l := (m.take i).reverse)).length_le
    omega

/-- The scan backwards finds the start of the line. -/
lemma backToNewline_skipOver {m : List UInt8} : ∀ {x : ℕ}, x < m.length →
    (backToNewline m x).bind (skipOver newline m) = some (lineStart m (x + 1))
  | 0, hx => by
      rw [lineStart_succ hx, backToNewline, Option.bind_some, skipOver,
        List.getElem?_eq_getElem hx, Option.map_some]
      rfl
  | x + 1, hx => by
      rw [backToNewline, List.getElem?_eq_getElem hx]
      dsimp only
      by_cases h : m[x + 1] = newline
      · rw [if_neg (not_not.mpr h), Option.bind_some, skipOver, List.getElem?_eq_getElem hx,
          Option.map_some, if_pos h, lineStart_succ hx, if_pos h]
      · rw [if_pos h, backToNewline_skipOver (by omega), lineStart_succ hx, if_neg h]

/-- A line behind an initial part that is empty or ends with a newline. -/
lemma lineStart_append {pre w rest : List UInt8} (hpre : lineStart pre pre.length = pre.length)
    (hw : newline ∉ w) : lineStart (pre ++ (w ++ rest)) (pre.length + w.length) = pre.length := by
  have htake : (pre ++ (w ++ rest)).take (pre.length + w.length) = pre ++ w := by
    rw [← List.append_assoc, ← List.length_append, List.take_left]
  have hall : ∀ c ∈ w.reverse, (fun c : UInt8 => decide (c ≠ newline)) c = true := by
    intro c hc
    rw [decide_eq_true_eq]
    rintro rfl
    exact hw (List.mem_reverse.mp hc)
  rw [lineStart, List.take_length] at hpre
  rw [lineStart, htake, List.reverse_append, List.takeWhile_append_of_pos hall,
    List.length_append, List.length_reverse]
  omega

lemma lineStart_concat_newline (w : List UInt8) :
    lineStart (w ++ [newline]) (w ++ [newline]).length = (w ++ [newline]).length := by
  rw [lineStart, List.take_length, List.reverse_append, List.reverse_singleton,
    List.singleton_append, List.takeWhile_cons_of_neg (by simp)]
  rfl

/-! ### The numbers -/

/-- What a digit loop makes of the bytes ahead: the value, and what it leaves. -/
def hexRun (stop : UInt8) : UInt64 → List UInt8 → UInt64 × List UInt8
  | acc, [] => (acc, [])
  | acc, c :: t =>
      if c = stop then (acc, c :: t)
      else
        match hexDigit c with
        | some d => hexRun stop (acc * 16 + d) t
        | none => (acc * 16, t)

lemma hexLoop_ahead (stop : UInt8) {m : List UInt8} {x : ℕ} (hx : x < m.length) (acc : UInt64) :
    ∃ y, hexLoop stop m acc x = some ((hexRun stop acc (ahead m x)).1, y) ∧ y < m.length
      ∧ ahead m y = (hexRun stop acc (ahead m x)).2 := by
  induction hd : m.length - x generalizing x acc with
  | zero => omega
  | succ d ih =>
      rw [hexLoop, List.getElem?_eq_getElem hx]
      dsimp only
      by_cases hlast : x + 1 < m.length
      · rw [ahead_eq_cons hlast, hexRun]
        by_cases hstop : m[x] = stop
        · rw [if_neg (fun h => h.1 hstop), if_pos hstop]
          exact ⟨x, rfl, hx, ahead_eq_cons hlast⟩
        · rw [if_pos ⟨hstop, hlast⟩, if_neg hstop]
          cases hexDigit m[x] with
          | some v => exact ih hlast (acc * 16 + v) (by omega)
          | none => exact ⟨x + 1, rfl, hlast, rfl⟩
      · have hnil : ahead m x = [] := (ahead_eq_nil_iff hx).mpr (by omega)
        rw [if_neg (fun h => hlast h.2), hnil]
        exact ⟨x, rfl, hx, hnil⟩

/-- A digit loop takes no byte before the first one it stops at that is no digit. -/
lemma hexRun_append_cons {stop : UInt8} (hstop : hexDigit stop = none) {w t : List UInt8}
    (hw : ∀ c ∈ w, (hexDigit c).isSome) (acc : UInt64) :
    hexRun stop acc (w ++ stop :: t)
      = (w.foldl (fun a c => a * 16 + (hexDigit c).getD 0) acc, stop :: t) := by
  induction w generalizing acc with
  | nil => simp [hexRun]
  | cons c w ih =>
      obtain ⟨d, hd⟩ := Option.isSome_iff_exists.mp (hw c List.mem_cons_self)
      have hne : c ≠ stop := by
        rintro rfl
        rw [hstop] at hd
        cases hd
      rw [List.cons_append, hexRun, if_neg hne, hd, List.foldl_cons, hd]
      exact ih (fun c' hc' => hw c' (List.mem_cons_of_mem _ hc')) _

/-- What a digit loop leaves: behind the digits the byte to stop at, or what
follows another byte. -/
lemma hexRun_snd {stop : UInt8} (hstop : hexDigit stop = none) (acc : UInt64)
    (w : List UInt8) : (hexRun stop acc w).2
      = match w.dropWhile fun c => (hexDigit c).isSome with
        | [] => []
        | c :: t => if c = stop then c :: t else t := by
  induction w generalizing acc with
  | nil => rfl
  | cons c w ih =>
      rw [hexRun]
      by_cases hc : c = stop
      · rw [if_pos hc, List.dropWhile_cons_of_neg (by simp [hc, hstop])]
        dsimp only
        rw [if_pos hc]
      · rw [if_neg hc]
        cases hd : hexDigit c with
        | some d =>
            rw [List.dropWhile_cons_of_pos (by simp [hd])]
            exact ih _
        | none =>
            rw [List.dropWhile_cons_of_neg (by simp [hd])]
            dsimp only
            rw [if_neg hc]

/-- The first number and what is behind it are passed up to the first dash. -/
lemma dropWhile_hexRun (acc : UInt64) (w : List UInt8) :
    (hexRun dash acc w).2.dropWhile (· ≠ dash) = w.dropWhile (· ≠ dash) := by
  induction w generalizing acc with
  | nil => rfl
  | cons c w ih =>
      rw [hexRun]
      by_cases hc : c = dash
      · rw [if_pos hc]
      · rw [if_neg hc, List.dropWhile_cons_of_pos (by simpa using hc)]
        cases hexDigit c with
        | some d => exact ih _
        | none => rfl

/-- Past the dash where there is one ahead. -/
lemma skipOver_ahead {c : UInt8} {m t : List UInt8} {x : ℕ} (h : ahead m x = c :: t) :
    skipOver c m x = some (x + 1) ∧ x + 1 < m.length ∧ ahead m (x + 1) = t := by
  obtain ⟨hc, hlt, ht⟩ := getElem?_of_ahead h
  exact ⟨by rw [skipOver, hc, Option.map_some, if_pos rfl], hlt, ht⟩

/-! ### The fields -/

/-- What the loop over the fields makes of the bytes ahead, `none` when they do not
reach for its next step. -/
def dropFields : ℕ → List UInt8 → Option (List UInt8)
  | 0, w => some w
  | _ + 1, [] => none
  | k + 1, _ :: t => dropFields k (t.dropWhile (· ≠ space))

lemma fieldLoop_ahead {m : List UInt8} (k : ℕ) {x : ℕ} (hx : x < m.length) :
    (fieldLoop m k x = none ∧ dropFields k (ahead m x) = none)
      ∨ ∃ y, fieldLoop m k x = some y ∧ y < m.length
        ∧ dropFields k (ahead m x) = some (ahead m y) := by
  induction k generalizing x with
  | zero => exact Or.inr ⟨x, rfl, hx, rfl⟩
  | succ k ih =>
      rw [fieldLoop]
      by_cases hlast : x + 1 < m.length
      · obtain ⟨y, hy, hlt, hya⟩ := scanWhile_ahead (· ≠ space) hlast
        rw [hy, ahead_eq_cons hlast, dropFields, ← hya]
        exact ih hlt
      · rw [scanWhile_eq_none (by omega), (ahead_eq_nil_iff hx).mpr (by omega)]
        exact Or.inl ⟨rfl, rfl⟩

/-- The fields behind a first space need one more space each but for the last. -/
lemma dropFields_isSome_iff (k : ℕ) (c : UInt8) (t : List UInt8) :
    (dropFields (k + 1) (c :: t)).isSome ↔ k ≤ t.count space := by
  induction k generalizing c t with
  | zero => simp [dropFields]
  | succ k ih =>
      have hcount : (t.takeWhile (· ≠ space)).count space = 0 := by
        rw [List.count_eq_zero]
        intro h
        simpa using List.mem_takeWhile_imp h
      rw [dropFields, ← List.takeWhile_append_dropWhile (p := (· ≠ space)) (l := t),
        List.count_append, hcount, Nat.zero_add, List.takeWhile_append_dropWhile]
      cases hd : t.dropWhile (· ≠ space) with
      | nil => simp [dropFields]
      | cons c' t' =>
          have hc' : c' = space := by simpa using not_of_dropWhile_eq_cons hd
          rw [ih, hc', List.count_cons_self]
          omega

/-! ### When the work at a newline stays in the buffer -/

/-- What follows the second number of a line and the byte that ends it. -/
def afterHigh (w : List UInt8) : List UInt8 :=
  match (w.dropWhile (· ≠ dash)).tail.dropWhile fun c => (hexDigit c).isSome with
  | [] => []
  | c :: t => if c = space then t else t.tail

/-- **Room for a line**: after the second number there are three more spaces. -/
def HasRoom (w : List UInt8) : Prop := 3 ≤ (afterHigh w).count space

instance (w : List UInt8) : Decidable (HasRoom w) := inferInstanceAs (Decidable (_ ≤ _))

lemma hexDigit_dash : hexDigit dash = none := rfl

lemma hexDigit_space : hexDigit space = none := rfl

/-- The numbers of a line that has a dash before the last byte. -/
lemma numbers_ahead {m t : List UInt8} {x : ℕ} (hx : x < m.length)
    (h : (ahead m x).dropWhile (· ≠ dash) = dash :: t) :
    ∃ y, numbers m x = some ((hexRun dash 0 (ahead m x)).1, (hexRun space 0 t).1, y)
      ∧ y < m.length ∧ ahead m y = (hexRun space 0 t).2 := by
  obtain ⟨y₁, hy₁, hlt₁, ha₁⟩ := hexLoop_ahead dash hx 0
  obtain ⟨y₂, hy₂, hlt₂, ha₂⟩ := scanWhile_ahead (· ≠ dash) hlt₁
  rw [ha₁, dropWhile_hexRun, h] at ha₂
  obtain ⟨hy₃, hlt₃, ha₃⟩ := skipOver_ahead ha₂
  obtain ⟨y₄, hy₄, hlt₄, ha₄⟩ := hexLoop_ahead space hlt₃ 0
  rw [ha₃] at hy₄ ha₄
  refine ⟨y₄, ?_, hlt₄, ha₄⟩
  simp only [numbers, hy₁, hy₂, hy₃, hy₄, Option.bind_eq_bind, Option.bind_some, Option.pure_def]

/-- Without a dash the line has no numbers, or the scan is at the end. -/
lemma numbers_of_no_dash {m : List UInt8} {x : ℕ} (hx : x < m.length)
    (h : (ahead m x).dropWhile (· ≠ dash) = []) (k : ℕ) :
    ((numbers m x).bind fun r => fieldLoop m (k + 1) r.2.2) = none := by
  obtain ⟨y₁, hy₁, hlt₁, ha₁⟩ := hexLoop_ahead dash hx 0
  obtain ⟨y₂, hy₂, hlt₂, ha₂⟩ := scanWhile_ahead (· ≠ dash) hlt₁
  rw [ha₁, dropWhile_hexRun, h] at ha₂
  have hlast := (ahead_eq_nil_iff hlt₂).mp ha₂
  -- the scan is at the last byte, and behind it if that is a dash
  by_cases hd : m[y₂] = dash
  · have hskip : skipOver dash m y₂ = some (y₂ + 1) := by
      rw [skipOver, List.getElem?_eq_getElem hlt₂, Option.map_some, if_pos hd]
    have hout : hexLoop space m 0 (y₂ + 1) = none := by
      rw [hexLoop, List.getElem?_eq_none (by omega)]
    simp only [numbers, hy₁, hy₂, hskip, hout, Option.bind_eq_bind, Option.bind_some,
      Option.bind_none]
  · have hskip : skipOver dash m y₂ = some y₂ := by
      rw [skipOver, List.getElem?_eq_getElem hlt₂, Option.map_some, if_neg hd]
    have hstay : hexLoop space m 0 y₂ = some (0, y₂) := by
      rw [hexLoop, List.getElem?_eq_getElem hlt₂]
      dsimp only
      rw [if_neg (by omega)]
    have hout : fieldLoop m (k + 1) y₂ = none := by
      rw [fieldLoop, scanWhile_eq_none (by omega)]
      rfl
    simp only [numbers, hy₁, hy₂, hskip, hstay, hout, Option.bind_eq_bind, Option.bind_some,
      Option.pure_def]

/-- The bytes ahead reach for all fields exactly when the line has room. -/
lemma dropFields_hexRun_isSome_iff {w t : List UInt8}
    (h : w.dropWhile (· ≠ dash) = dash :: t) :
    (dropFields 4 (hexRun space 0 t).2).isSome ↔ HasRoom w := by
  rw [HasRoom, afterHigh, h, List.tail_cons, hexRun_snd hexDigit_space]
  cases t.dropWhile fun c => (hexDigit c).isSome with
  | nil => simp [dropFields]
  | cons c t' =>
      dsimp only
      split_ifs with hc
      · rw [dropFields_isSome_iff]
      · cases t' with
        | nil => simp [dropFields]
        | cons c' t'' => rw [dropFields_isSome_iff, List.tail_cons]

/-- The numbers and the fields of a line are found inside the buffer exactly when
the line has room. -/
lemma numbers_fieldLoop {m : List UInt8} {x : ℕ} (hx : x < m.length) :
    (¬ HasRoom (ahead m x) ∧ ((numbers m x).bind fun r => fieldLoop m 4 r.2.2) = none)
      ∨ (HasRoom (ahead m x) ∧ ∃ low high y z, numbers m x = some (low, high, y)
        ∧ fieldLoop m 4 y = some z ∧ z < m.length) := by
  cases hd : (ahead m x).dropWhile (· ≠ dash) with
  | nil =>
      refine Or.inl ⟨?_, numbers_of_no_dash hx hd 3⟩
      rw [HasRoom, afterHigh, hd]
      decide
  | cons c t =>
      have hc : c = dash := by simpa using not_of_dropWhile_eq_cons hd
      rw [hc] at hd
      obtain ⟨y, hy, hlt, ha⟩ := numbers_ahead hx hd
      rw [← dropFields_hexRun_isSome_iff hd, ← ha, hy]
      rcases fieldLoop_ahead 4 hlt with ⟨hf, hl⟩ | ⟨z, hf, hz, hl⟩
      · exact Or.inl ⟨by simp [hl], hf⟩
      · exact Or.inr ⟨by simp [hl], _, _, y, z, rfl, hf, hz⟩

/-- The name is read inside the buffer, and the byte at its end becomes a newline. -/
lemma libNameAt_eq {b : Buffer} {x y : ℕ} (hxy : x ≤ y) (hy : y < b.bytes.length) :
    ∃ name, libNameAt b x y = some (name, (b.set y 0).set y newline)
      ∧ cstr (b.bytes.set y 0) x = some name := by
  obtain ⟨name, hname, -⟩ := cstr_of_getElem? hxy (List.getElem?_set_self hy (a := (0 : UInt8)))
  have hy' : y < (b.set y 0).bytes.length := by
    rwa [Buffer.set, List.length_set]
  refine ⟨name, ?_, hname⟩
  simp only [libNameAt, Buffer.poke_of_lt hy, Buffer.poke_of_lt hy', Option.bind_eq_bind,
    Option.bind_some, Option.pure_def]
  rw [Buffer.set, hname]
  rfl

/-- **When the work at a newline stays in the buffer**: exactly when its line has
room before the last byte. -/
lemma parseLine_isSome_iff (b : Buffer) {i : ℕ} (h0 : i ≠ 0) (hi : i < b.bytes.length) :
    (parseLine b i).isSome ↔ HasRoom (ahead b.bytes (lineStart b.bytes i)) := by
  have hs : lineStart b.bytes i < b.bytes.length := (lineStart_le _ _).trans_lt hi
  have hback := backToNewline_skipOver (m := b.bytes) (x := i - 1) (by omega)
  rw [Nat.sub_add_cancel (by omega)] at hback
  obtain ⟨x, hx, hskip⟩ := Option.bind_eq_some_iff.mp hback
  rcases numbers_fieldLoop hs with ⟨hno, hnone⟩ | ⟨hroom, low, high, y, z, hnum, hf, hz⟩
  · refine iff_of_false ?_ hno
    rw [Option.not_isSome_iff_eq_none]
    cases hnum : numbers b.bytes (lineStart b.bytes i) with
    | none => simp [parseLine, hx, hskip, hnum]
    | some r =>
        rw [hnum, Option.bind_some] at hnone
        simp [parseLine, hx, hskip, hnum, hnone]
  · refine iff_of_true ?_ hroom
    obtain ⟨u, hu, hult, hua⟩ := scanWhile_ahead (· = space) hz
    obtain ⟨v, hv, hvlt, hva⟩ := scanWhile_ahead (· ≠ newline) hult
    have huv := le_of_scanWhile hult hv
    obtain ⟨name, hname, -⟩ := libNameAt_eq (b := b) huv hvlt
    simp only [parseLine, hx, hskip, hnum, hf, hu, hv, hname, Option.bind_eq_bind,
      Option.bind_some, Option.pure_def, Option.isSome_some]

end Pagemap

end OperatingSys
