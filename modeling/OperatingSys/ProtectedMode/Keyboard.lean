import OperatingSys.ProtectedMode.Transparency

/-!
The keyboard echo, `new_int09` over a sequence of scan codes.

A key that is pressed is shown at `syml_pos`, which goes on by a cell, so after `k` keys the
next one is shown in the cell `k` behind the first (`Typing`). What one scan code does is
`Pressed`, and `Echoed` is what is asked of a sequence. Neither the place in `asciimap` nor
the cell is bounded by the handler: scan codes go up to `80h` while the table has entries
up to `35h`, and the cells end after `echoRoom` keys (`keys_echoed_iff`).
-/

namespace OperatingSys

namespace ProtectedMode

open X86

variable {L : Layout} {s t u : State} {acc : List Access} {k : ℕ} {c : BitVec 8}
  {codes : List (BitVec 8)} {tr : List (Mover × List Access)}

/-! ### Keys -/

/-- The scan code of a key that is pressed, other than Enter. -/
def accepted (c : BitVec 8) : Bool := decide (c ≠ enterCode ∧ ¬ 0x80 < c)

/-- The keys that are pressed. -/
def keys (codes : List (BitVec 8)) : List (BitVec 8) := codes.filter accepted

/-- The character of a key in `asciimap`. -/
def character (c : BitVec 8) : BitVec 8 := asciimapBytes.getD c.toNat 0

/-- The cell in which the key number `i` is to be shown. -/
def echoCell (i : ℕ) : Access := ⟨video16s, symlStart + 2 * i, 2⟩

/-- The number of cells from the first one on. -/
def echoRoom : ℕ := (4000 - symlStart) / 2

/-- What is accessed in the video segment. -/
def videoOf (acc : List Access) : List Access := acc.filter fun x => x.sel = video16s

lemma keys_concat (codes : List (BitVec 8)) (c : BitVec 8) :
    keys (codes ++ [c]) = keys codes ++ if accepted c then [c] else [] := by
  rw [keys, List.filter_append, List.filter_cons, List.filter_nil]
  rfl

/-- Between two scan codes, after `k` keys have been shown. -/
structure Typing (L : Layout) (k : ℕ) (s : State) : Prop where
  ds : s.seg .ds = data32s
  es : s.seg .es = video16s
  intr : s.intr = true
  pos : (shownAt L s.mem).toNat = symlStart + 2 * k
  table : ∀ i < asciimapBytes.length,
    s.mem (L.base + (asciimap + i)) = asciimapBytes.getD i 0

/-- What a scan code does, after `k` keys. -/
structure Pressed (L : Layout) (k : ℕ) (c : BitVec 8) (s : State) (acc : List Access)
    (t : State) : Prop where
  screen : videoOf acc = if accepted c then [echoCell k] else []
  index : accepted c = true → ∀ x, x ∈ acc ∧ x.len = 1 ↔ x = ⟨data32s, asciimap + c.toNat, 1⟩
  kept : ∀ i < k, load 16 t.mem (video + (symlStart + 2 * i))
    = load 16 s.mem (video + (symlStart + 2 * i))
  shown : accepted c = true → c.toNat < asciimapBytes.length →
    load 16 t.mem (video + (symlStart + 2 * k)) = param ++ character c
  flag : (t.mem (L.base + flagEnterPr)).getLsbD 0
    = (decide (c = enterCode) || (s.mem (L.base + flagEnterPr)).getLsbD 0)

/-! ### A scan code -/

lemma released_step (h : Typing L k s) (hc : 0x80 < c) :
    ∃ acc t, (pc L).step s (.keyboard c) = some (acc, t) ∧ Typing L k t
      ∧ Pressed L k c s acc t := by
  have hno : accepted c = false := decide_eq_false fun hacc => hacc.2 hc
  have hne : c ≠ enterCode := by
    rintro rfl
    exact absurd hc (by decide)
  refine ⟨[], keyed s c, deliver_released (port_keyed s c) h.intr hc, ?_, ?_⟩
  · exact ⟨h.ds, h.es, h.intr, h.pos, h.table⟩
  · refine ⟨by rw [hno]; rfl, by simp [hno], fun i _ => rfl, by simp [hno], ?_⟩
    rw [decide_eq_false hne, Bool.false_or]
    rfl

/-- Setting the flag changes its byte alone. -/
lemma withFlag_elsewhere {m : ℕ → BitVec 8} {a : ℕ} (ha : a ≠ L.base + flagEnterPr) :
    withFlag L m a = m a :=
  store_of_not_mem fun hin => ha (by omega)

lemma withFlag_flag (m : ℕ → BitVec 8) :
    withFlag L m (L.base + flagEnterPr) = m (L.base + flagEnterPr) ||| 1 := by
  have hbelow : L.base + dataSize ≤ video := L.below
  have hflag : flagEnterPr < dataSize := by decide
  have hpage : video ≤ 2 ^ 20 := by decide
  have hmem : L.base + flagEnterPr < L.board.ram := by
    have : 2 ^ 20 ≤ L.board.ram := L.installed
    omega
  rw [withFlag, store_byte hmem, Function.update_self, load_byte]

lemma enter_step (h : Typing L k s) (hc : c = enterCode) :
    ∃ acc t, (pc L).step s (.keyboard c) = some (acc, t) ∧ Typing L k t
      ∧ Pressed L k c s acc t := by
  have hno : accepted c = false := decide_eq_false fun hacc => hacc.1 hc
  have hstep := deliver_enter (L := L) (port_keyed s c) h.intr h.ds hc
  have hbelow : L.base + dataSize ≤ video := L.below
  have hsize : flagEnterPr < dataSize := by decide
  have hflag : symlPos + 4 ≤ flagEnterPr ∨ flagEnterPr < symlPos := by decide
  refine ⟨_, _, hstep, ⟨h.ds, h.es, h.intr, ?_, fun i hi => ?_⟩, ?_, ?_, fun i _ => ?_, ?_, ?_⟩
  · exact (congrArg BitVec.toNat (shownAt_congr fun a hlo hhi =>
      withFlag_elsewhere (by omega))).trans h.pos
  · have hend : flagEnterPr = asciimap + asciimapBytes.length := rfl
    exact (withFlag_elsewhere (by omega)).trans (h.table i hi)
  · rw [hno]
    rfl
  · simp [hno]
  · exact load_congr fun b hb _ => withFlag_elsewhere (by omega)
  · simp [hno]
  · rw [decide_eq_true hc, Bool.true_or, State.withMem_mem, withFlag_flag, BitVec.getLsbD_or]
    exact Bool.or_true _

/-- Showing a key changes its cell and the position alone. -/
lemma echo_elsewhere {m : ℕ → BitVec 8} {a : ℕ}
    (hcell : a < video + (shownAt L m).toNat ∨ video + (shownAt L m).toNat + 2 ≤ a)
    (hpos : a < L.base + symlPos ∨ L.base + symlPos + 4 ≤ a) : echo L c m a = m a := by
  have houter : ¬ (L.base + symlPos ≤ a ∧ a < L.base + symlPos + 32 / 8) := by omega
  have hinner : ¬ (video + (shownAt L m).toNat ≤ a
    ∧ a < video + (shownAt L m).toNat + 16 / 8) := by omega
  exact (store_of_not_mem houter).trans (store_of_not_mem hinner)

/-- The cell of a key that has been shown. -/
lemma load_echo {m : ℕ → BitVec 8} (hfit : (shownAt L m).toNat + 2 ≤ 4000) :
    load 16 (echo L c m) (video + (shownAt L m).toNat)
      = param ++ m (L.base + (asciimap + c.toNat)) := by
  have hpage : video + 4000 ≤ 2 ^ 20 := by decide
  have hmem : video + (shownAt L m).toNat + 16 / 8 ≤ L.board.ram := by
    have : 2 ^ 20 ≤ L.board.ram := L.installed
    omega
  have hbelow : L.base + dataSize ≤ video := L.below
  have hsize : symlPos + 4 ≤ dataSize := by decide
  have hafter : load 16 (echo L c m) (video + (shownAt L m).toNat)
      = load 16 (L.board.store m (video + (shownAt L m).toNat)
        (param ++ m (L.base + (asciimap + c.toNat)))) (video + (shownAt L m).toNat) := by
    refine load_congr fun b hb _ => ?_
    have houter : ¬ (L.base + symlPos ≤ b ∧ b < L.base + symlPos + 32 / 8) := by omega
    exact store_of_not_mem houter
  exact hafter.trans (load_store rfl hmem)

lemma accepted_iff : accepted c = true ↔ c ≠ enterCode ∧ ¬ 0x80 < c := decide_eq_true_iff

lemma shown_step (h : Typing L k s) (hc : accepted c = true) (hroom : k < echoRoom) :
    ∃ acc t, (pc L).step s (.keyboard c) = some (acc, t) ∧ Typing L (k + 1) t
      ∧ Pressed L k c s acc t := by
  obtain ⟨hne, hle⟩ := accepted_iff.mp hc
  -- there is a cell on the screen for the key
  have hcells : symlStart + 2 * k + 2 ≤ 4000 := by
    have : echoRoom = 1600 := rfl
    have : symlStart = 800 := rfl
    omega
  have hfit : (shownAt L (keyed s c).mem).toNat + 2 ≤ 4000 := by
    change (shownAt L s.mem).toNat + 2 ≤ 4000
    rw [h.pos]
    exact hcells
  have hstep := deliver_shown (L := L) (port_keyed s c) h.intr h.ds h.es hne hle hfit
  have hbelow : L.base + dataSize ≤ video := L.below
  have hsize : flagEnterPr < symlPos ∧ symlPos + 4 ≤ dataSize := by decide
  have hend : flagEnterPr = asciimap + asciimapBytes.length := rfl
  have hpos := h.pos
  refine ⟨_, _, hstep, ⟨h.ds, h.es, h.intr, ?_, fun i hi => ?_⟩, ?_, fun _ x => ?_, fun i hi => ?_,
    fun _ hin => ?_, ?_⟩
  · -- the position moves on by one cell
    have htwo : (2 : BitVec 32).toNat = 2 := rfl
    rw [State.withMem_mem, shownAt_echo, BitVec.toNat_add]
    change ((shownAt L s.mem).toNat + _) % _ = _
    omega
  · -- the table is not written to
    exact (echo_elsewhere (by change _ < video + (shownAt L s.mem).toNat ∨ _; omega)
      (by omega)).trans (h.table i hi)
  · rw [hc, if_pos rfl, echoCell, ← hpos]
    rfl
  · simp only [echoAccesses, List.mem_cons, List.not_mem_nil, or_false]
    constructor
    · rintro ⟨rfl | rfl | rfl | rfl, hlen⟩
      · rfl
      all_goals cases hlen
    · rintro rfl
      exact ⟨Or.inl rfl, rfl⟩
  · exact load_congr fun b hb hlt => echo_elsewhere
      (by change _ < video + (shownAt L s.mem).toNat ∨ _; omega) (by omega)
  · rw [← hpos, character, ← h.table _ hin]
    exact load_echo hfit
  · rw [decide_eq_false hne, Bool.false_or]
    exact congrArg (BitVec.getLsbD · 0) (echo_elsewhere
      (by change _ < video + (shownAt L s.mem).toNat ∨ _; omega) (by omega))

/-- The keys that are shown so far, with one more scan code. -/
def next (k : ℕ) (c : BitVec 8) : ℕ := k + if accepted c then 1 else 0

/-- **A scan code**, while there is a cell for it. -/
lemma key_step (h : Typing L k s) (hroom : accepted c = true → k < echoRoom) :
    ∃ acc t, (pc L).step s (.keyboard c) = some (acc, t) ∧ Typing L (next k c) t
      ∧ Pressed L k c s acc t := by
  by_cases hc : accepted c = true
  · rw [next, if_pos hc]
    exact shown_step h hc (hroom hc)
  · rw [next, if_neg hc]
    by_cases he : c = enterCode
    · exact enter_step h he
    · refine released_step h ?_
      by_contra hle
      exact hc (accepted_iff.mpr ⟨he, hle⟩)

/-- **A key without a cell**: the handler faults. -/
lemma past_step (h : Typing L k s) (hc : accepted c = true) (hfull : echoRoom ≤ k) :
    (pc L).step s (.keyboard c) = none := by
  obtain ⟨hne, hle⟩ := accepted_iff.mp hc
  have hroom : echoRoom = 1600 := rfl
  have hstart : symlStart = 800 := rfl
  have hpos := h.pos
  cases hs : (pc L).step s (.keyboard c) with
  | none => rfl
  | some r =>
      have hfit : (shownAt L s.mem).toNat + 2 ≤ 4000 :=
        shownAt_of_deliver (s := keyed s c) (port_keyed s c) h.intr h.ds h.es hne hle hs
      omega

/-! ### A sequence -/

/-- What is asked of the echo of a sequence, for the accesses on the way and the state in the
end. -/
structure Echoed (L : Layout) (codes : List (BitVec 8)) (tr : List (Mover × List Access))
    (t : State) : Prop where
  screen : tr.flatMap (fun q => videoOf q.2) = (List.range (keys codes).length).map echoCell
  limit : ∀ q ∈ tr, ∀ x ∈ q.2, x.sel = video16s → x.off + x.len ≤ 3999 + 1
  table : ∀ q ∈ tr, ∀ c, q.1 = .keyboard c → accepted c = true → ∀ x ∈ q.2, x.len = 1 →
    asciimap ≤ x.off ∧ x.off < asciimap + asciimapBytes.length
  cells : ∀ i c, (keys codes)[i]? = some c →
    load 16 t.mem (video + (symlStart + 2 * i)) = param ++ character c
  enter : ∀ q ∈ tr, q.1 = .keyboard enterCode → ∀ x ∈ q.2, x.sel ≠ video16s
  flag : enterCode ∈ codes → (t.mem (L.base + flagEnterPr)).getLsbD 0 = true

lemma echoed_nil (t : State) : Echoed L [] [] t := by
  refine ⟨rfl, ?_, ?_, fun i c hi => ?_, ?_, ?_⟩
  · simp
  · simp
  · cases hi
  · simp
  · simp

lemma length_keys_concat (codes : List (BitVec 8)) (c : BitVec 8) :
    (keys (codes ++ [c])).length = next (keys codes).length c := by
  rw [keys_concat, List.length_append, next]
  split_ifs <;> rfl

/-- The cells behind one more scan code: those of the keys before it, and its own. -/
lemma Echoed.cells_concat (h : Echoed L codes tr s) (hp : Pressed L (keys codes).length c s acc t)
    (hin : accepted c = true → c.toNat < asciimapBytes.length) {i : ℕ} {d : BitVec 8}
    (hi : (keys (codes ++ [c]))[i]? = some d) :
    load 16 t.mem (video + (symlStart + 2 * i)) = param ++ character d := by
  rw [keys_concat] at hi
  by_cases hlt : i < (keys codes).length
  · rw [List.getElem?_append_left hlt] at hi
    exact (hp.kept i hlt).trans (h.cells i d hi)
  · rw [List.getElem?_append_right (Nat.not_lt.mp hlt)] at hi
    split_ifs at hi with hc
    · cases hj : i - (keys codes).length with
      | zero =>
          rw [hj] at hi
          cases hi
          obtain rfl : i = (keys codes).length := by omega
          exact hp.shown hc (hin hc)
      | succ j =>
          rw [hj] at hi
          cases hi
    · cases hi

/-- One more scan code. -/
lemma Echoed.concat (h : Echoed L codes tr s) (hp : Pressed L (keys codes).length c s acc t)
    (hroom : accepted c = true → (keys codes).length < echoRoom)
    (hin : accepted c = true → c.toNat < asciimapBytes.length) :
    Echoed L (codes ++ [c]) (tr ++ [(.keyboard c, acc)]) t := by
  have hmem : ∀ x ∈ acc, x.sel = video16s → x ∈ videoOf acc := fun x hx hsel =>
    List.mem_filter.mpr ⟨hx, decide_eq_true hsel⟩
  constructor
  case screen =>
    rw [List.flatMap_append, h.screen, length_keys_concat, next, List.flatMap_singleton, hp.screen]
    split_ifs
    · rw [List.range_succ, List.map_append]
      rfl
    · rw [List.append_nil]
      rfl
  case limit =>
    refine List.forall_mem_append.mpr ⟨h.limit, List.forall_mem_singleton.mpr ?_⟩
    intro x hx hsel
    have hcell := hmem x hx hsel
    rw [hp.screen] at hcell
    split_ifs at hcell with hc
    · -- there is one cell, that of this key
      obtain rfl := List.mem_singleton.mp hcell
      have hk := hroom hc
      have hcells : echoRoom = 1600 := rfl
      have hstart : symlStart = 800 := rfl
      change symlStart + 2 * (keys codes).length + 2 ≤ _
      omega
    · cases hcell
  case table =>
    refine List.forall_mem_append.mpr ⟨h.table, List.forall_mem_singleton.mpr ?_⟩
    intro d hd hacc x hx hlen
    cases hd
    obtain rfl := (hp.index hacc x).mp ⟨hx, hlen⟩
    exact ⟨Nat.le_add_right _ _, Nat.add_lt_add_left (hin hacc) _⟩
  case cells => exact fun i d hi => h.cells_concat hp hin hi
  case enter =>
    refine List.forall_mem_append.mpr ⟨h.enter, List.forall_mem_singleton.mpr ?_⟩
    intro he x hx hsel
    cases he
    have hcell := hmem x hx hsel
    rw [hp.screen] at hcell
    cases hcell
  case flag =>
    intro hc
    rw [hp.flag, Bool.or_eq_true, decide_eq_true_iff]
    rcases List.mem_append.mp hc with hc | hc
    · exact Or.inr (h.flag hc)
    · exact Or.inl (List.mem_singleton.mp hc).symm

/-- The condition on a sequence: every key has an entry in `asciimap`, and there is a cell for
each. -/
structure Fits (codes : List (BitVec 8)) : Prop where
  entry : ∀ c ∈ codes, accepted c = true → c.toNat < asciimapBytes.length
  cell : (keys codes).length ≤ echoRoom

lemma length_keys_le_concat (codes : List (BitVec 8)) (c : BitVec 8) :
    (keys codes).length ≤ (keys (codes ++ [c])).length := by
  rw [length_keys_concat]
  exact Nat.le_add_right _ _

lemma Fits.of_concat (h : Fits (codes ++ [c])) : Fits codes where
  entry d hd := h.entry d (List.mem_append_left _ hd)
  cell := (length_keys_le_concat codes c).trans h.cell

/-- A further key has a cell. -/
lemma lt_of_concat (h : (keys (codes ++ [c])).length ≤ echoRoom) (hc : accepted c = true) :
    (keys codes).length < echoRoom := by
  rw [length_keys_concat, next, if_pos hc] at h
  exact h

/-- A sequence that fits is echoed. -/
lemma exec_of_fits (h0 : Typing L 0 s) (h : Fits codes) :
    ∃ tr t, (pc L).exec (codes.map .keyboard) s = some (tr, t) ∧ Typing L (keys codes).length t
      ∧ Echoed L codes tr t := by
  induction codes using List.reverseRecOn with
  | nil => exact ⟨[], s, rfl, h0, echoed_nil s⟩
  | append_singleton codes c ih =>
      obtain ⟨tr, t, he, ht, hecho⟩ := ih h.of_concat
      have hroom := lt_of_concat h.cell
      obtain ⟨acc, u, hs, hu, hp⟩ := key_step ht hroom
      refine ⟨_, u, ?_, ?_, hecho.concat hp hroom (h.entry c (by simp))⟩
      · rw [List.map_append]
        exact Machine.exec_snoc he hs
      · rw [length_keys_concat]
        exact hu

/-- A sequence that is handled without a fault: there has been a cell for every key, and
every key has read at its place in `asciimap`. -/
lemma reads_of_exec (h0 : Typing L 0 s)
    (he : (pc L).exec (codes.map .keyboard) s = some (tr, t)) : Typing L (keys codes).length t
      ∧ (keys codes).length ≤ echoRoom ∧ ∀ c ∈ codes, accepted c = true →
        ∃ q ∈ tr, q.1 = .keyboard c ∧ ⟨data32s, asciimap + c.toNat, 1⟩ ∈ q.2 := by
  induction codes using List.reverseRecOn generalizing tr t with
  | nil =>
      cases he
      exact ⟨h0, Nat.zero_le _, by simp⟩
  | append_singleton codes c ih =>
      rw [List.map_append] at he
      obtain ⟨tr', t', acc, he', hs, rfl⟩ := Machine.exec_last he
      obtain ⟨ht, hlen, hreads⟩ := ih he'
      -- a step is made, so there was a cell
      have hroom : accepted c = true → (keys codes).length < echoRoom := by
        intro hc
        by_contra hfull
        rw [past_step ht hc (Nat.not_lt.mp hfull)] at hs
        cases hs
      obtain ⟨acc', u, hs', hu, hp⟩ := key_step ht hroom
      rw [hs] at hs'
      cases hs'
      rw [length_keys_concat]
      refine ⟨hu, ?_, fun d hd hacc => ?_⟩
      · rw [next]
        split_ifs with hc
        · exact hroom hc
        · exact hlen
      · rcases List.mem_append.mp hd with hd | hd
        · obtain ⟨q, hq, hread⟩ := hreads d hd hacc
          exact ⟨q, List.mem_append_left _ hq, hread⟩
        · obtain rfl := List.mem_singleton.mp hd
          exact ⟨_, List.mem_append_right _ (List.mem_singleton_self _), rfl,
            ((hp.index hacc _).mpr rfl).1⟩

/-- A sequence that is echoed fits. -/
lemma fits_of_echoed (h0 : Typing L 0 s)
    (he : (pc L).exec (codes.map .keyboard) s = some (tr, t)) (hecho : Echoed L codes tr t) :
    Fits codes := by
  obtain ⟨-, hlen, hreads⟩ := reads_of_exec h0 he
  refine ⟨fun c hc hacc => ?_, hlen⟩
  obtain ⟨q, hq, hkey, hread⟩ := hreads c hc hacc
  have hin := (hecho.table q hq c hkey hacc _ hread rfl).2
  exact Nat.lt_of_add_lt_add_left hin

/-- **The defect of the echo, exactly**: a sequence of scan codes is handled without a fault
and echoed just when every key has an entry in `asciimap` and there are no more keys than
cells. -/
theorem keys_echoed_iff (L : Layout) (s : State) (h0 : Typing L 0 s) (codes : List (BitVec 8)) :
    (∃ tr t, (pc L).exec (codes.map .keyboard) s = some (tr, t) ∧ Echoed L codes tr t)
      ↔ (∀ c ∈ codes, accepted c = true → c.toNat < asciimapBytes.length)
        ∧ (keys codes).length ≤ echoRoom := by
  constructor
  · rintro ⟨tr, t, he, hecho⟩
    have hfits := fits_of_echoed h0 he hecho
    exact ⟨hfits.entry, hfits.cell⟩
  · rintro ⟨hentry, hcell⟩
    obtain ⟨tr, t, he, -, hecho⟩ := exec_of_fits h0 ⟨hentry, hcell⟩
    exact ⟨tr, t, he, hecho⟩

/-- Nothing has been typed at the start. -/
lemma exampleStart_typing : Typing exampleLayout 0 exampleStart where
  ds := rfl
  es := rfl
  intr := rfl
  pos := congrArg BitVec.toNat shownAt_exampleStart
  table := by decide

/-- The letter `A`, and Enter. -/
theorem keys_echoed_iff_letter :
    (∃ tr t, (pc exampleLayout).exec ([0x1E, enterCode].map .keyboard) exampleStart = some (tr, t)
        ∧ Echoed exampleLayout [0x1E, enterCode] tr t)
      ↔ (∀ c ∈ [0x1E, enterCode], accepted c = true → c.toNat < asciimapBytes.length)
        ∧ (keys [0x1E, enterCode]).length ≤ echoRoom :=
  keys_echoed_iff exampleLayout exampleStart exampleStart_typing [0x1E, enterCode]

/-- The right Shift key reads the byte behind `asciimap`, and after as many letters as there
are cells one more is a fault. -/
theorem keys_outside :
    (¬ ∃ tr t, (pc exampleLayout).exec ([0x36].map .keyboard) exampleStart = some (tr, t)
        ∧ Echoed exampleLayout [0x36] tr t)
      ∧ ¬ ∃ tr t, (pc exampleLayout).exec ((List.replicate 1601 0x1E).map .keyboard) exampleStart
          = some (tr, t) ∧ Echoed exampleLayout (List.replicate 1601 0x1E) tr t := by
  constructor
  · rintro ⟨tr, t, he, hecho⟩
    have hentry := (fits_of_echoed exampleStart_typing he hecho).entry 0x36 (by simp) (by decide)
    exact absurd hentry (by decide)
  · rintro ⟨tr, t, he, hecho⟩
    have hcell := (fits_of_echoed exampleStart_typing he hecho).cell
    rw [keys, List.filter_replicate_of_pos (by decide), List.length_replicate] at hcell
    exact absurd hcell (by decide)

end ProtectedMode

end OperatingSys
