import OperatingSys.ProtectedMode.Main

/-!
Interrupts and the interrupted code.

* `Transparent`: an interrupt that leaves all registers of the interrupted code as they
  were, and whose handler accesses nothing but its own variables and the video segment.
* `Harmless`: when an interrupt is transparent (`transparent_iff`): `ds` is the data
  segment, a tick finds in `edi` what its handler leaves there, and a key has an entry in
  `asciimap` and a cell inside the limit.
* `Matches`: the state of a run beside that of a run without interrupts. The two go the
  same way until the code waits for Enter (`Matches.step`).
-/

namespace OperatingSys

namespace ProtectedMode

open X86

variable {L : Layout} {s t : State} {acc : List Access} {a n k : ℕ}

/-! ### What belongs to the handlers -/

/-- An offset of `asciimap` or `flag_enter_pr`, of `syml_pos` or `param_int_8`. -/
def OwnVar (n : ℕ) : Prop := (asciimap ≤ n ∧ n < cntTime) ∨ (symlPos ≤ n ∧ n < rmMsg)

instance : DecidablePred OwnVar := fun _ => inferInstanceAs (Decidable (_ ∨ _))

/-- The bytes lie in the variables of the handlers, or in the video segment. -/
def OwnAccess (x : Access) : Prop :=
  (x.sel = data32s ∧ ∀ n, x.off ≤ n → n < x.off + x.len → OwnVar n) ∨ x.sel = video16s

/-- The content of `syml_pos` at the start. -/
def symlStart : ℕ := 2 * 80 * 5

/-- The linear addresses of the variables of the handlers, of the cursor and of the cells
in which keys are shown. -/
def Own (L : Layout) (a : ℕ) : Prop :=
  (∃ n, OwnVar n ∧ a = L.base + n) ∨ (video + cursorPos ≤ a ∧ a < video + cursorPos + 2)
    ∨ (video + symlStart ≤ a ∧ a < video + 4000)

lemma lt_pmMemCount_of_ownVar (h : OwnVar n) : n < pmMemCount := by
  have hcnt : cntTime ≤ pmMemCount := by decide
  have hmsg : rmMsg ≤ pmMemCount := by decide
  rcases h with ⟨-, h⟩ | ⟨-, h⟩
  · exact h.trans_le hcnt
  · exact h.trans_le hmsg

lemma ownAccess_data32 (h : ∀ i < k, OwnVar (n + i)) : OwnAccess ⟨data32s, n, k⟩ := by
  refine Or.inl ⟨rfl, fun j hj hlt => ?_⟩
  have hown := h (j - n) (by dsimp only at hj hlt; omega)
  rwa [Nat.add_sub_cancel' hj] at hown

/-- A byte accessed outside the own cells is none of these variables. -/
lemma not_covers_data32 (h : ∀ i < k, OwnVar (n + i)) (ha : ¬ Own L a) :
    ¬ L.board.Covers ⟨data32s, n, k⟩ a := by
  intro hcov
  rcases Nat.eq_zero_or_pos k with rfl | hk
  · obtain ⟨b, -, hlo, hhi⟩ := hcov
    exact absurd hhi (Nat.not_lt.mpr hlo)
  · have hlast := lt_pmMemCount_of_ownVar (h (k - 1) (by omega))
    have hsize : dataSize = pmMemCount + 8 := rfl
    obtain ⟨hlo, hhi⟩ := covers_data32 (by omega) hcov
    have hown := h (a - (L.base + n)) (by omega)
    exact ha (Or.inl ⟨_, hown, by omega⟩)

/-- What the code reads while it counts belongs to no handler. -/
lemma not_own_of_read (h : (L.base + pmMemCount ≤ a ∧ a < L.base + dataSize) ∨ 0x100001 ≤ a) :
    ¬ Own L a := by
  have hbelow : L.base + dataSize ≤ video := L.below
  have hvideo : video + 4000 ≤ 0x100001 := by decide
  have hcursor : cursorPos + 2 ≤ 4000 := by decide
  rintro (⟨n, hn, rfl⟩ | ⟨hlo, hhi⟩ | ⟨hlo, hhi⟩)
  · have := lt_pmMemCount_of_ownVar hn
    have : pmMemCount ≤ dataSize := by decide
    omega
  · omega
  · omega

/-! ### A handled interrupt -/

/-- An interrupt is handled: the memory and the ports alone have changed, by accesses of
the handler's own, and the next key is shown in a cell of the handler. -/
structure Handled (L : Layout) (s : State) (acc : List Access) (t : State) : Prop where
  rest : t = s.withMem t.mem t.port
  own : ∀ x ∈ acc, OwnAccess x
  mem : ∀ a, ¬ Own L a → t.mem a = s.mem a
  pos : symlStart ≤ (shownAt L t.mem).toNat

lemma deliver_mem {l : Label} (hi : s.intr = true) (h : deliver L l s = some (acc, t))
    (ha : ∀ x ∈ acc, ¬ L.board.Covers x a) : t.mem a = s.mem a := by
  rw [deliver, if_pos hi] at h
  exact toIret_mem h ha

/-- The position of the next key is the same if none of its bytes has been written. -/
lemma shownAt_congr {m m' : ℕ → BitVec 8}
    (h : ∀ a, L.base + symlPos ≤ a → a < L.base + symlPos + 4 → m' a = m a) :
    shownAt L m' = shownAt L m :=
  load_congr h

/-- The position lies below the video page. -/
lemma symlPos_lt_video (h : a < L.base + symlPos + 4) : a < video := by
  have hbelow : L.base + dataSize ≤ video := L.below
  have hsize : symlPos + 4 ≤ dataSize := by decide
  omega

/-- A key that is shown moves the position on by one cell. -/
lemma shownAt_echo (data : BitVec 8) (m : ℕ → BitVec 8) :
    shownAt L (echo L data m) = shownAt L m + 2 := by
  have hlt := symlPos_lt_video (L := L) (a := L.base + symlPos + 3) (by omega)
  have hvideo : video < 2 ^ 20 := by decide
  have hmem := L.installed
  have hthere : L.base + symlPos + 32 / 8 ≤ L.board.ram := by
    change L.base + symlPos + 4 ≤ L.ram
    omega
  exact load_store rfl hthere

/-- A variable of one byte does not hold the position. -/
lemma not_covers_byte (hn : n < dataSize) (hne : n < symlPos ∨ symlPos + 4 ≤ n)
    (hlo : L.base + symlPos ≤ a) (hhi : a < L.base + symlPos + 4) :
    ¬ L.board.Covers ⟨data32s, n, 1⟩ a := by
  intro hcov
  have := covers_data32 (by omega) hcov
  omega

lemma not_covers_cell (hhi : a < L.base + symlPos + 4) : ¬ L.board.Covers ⟨video16s, n, k⟩ a := by
  intro hcov
  have := covers_video hcov
  have := symlPos_lt_video hhi
  omega

/-- The timer, when `edi` is what its handler leaves there. -/
lemma handled_timer (hds : s.seg .ds = data32s) (hes : s.seg .es = video16s)
    (hi : s.intr = true) (hedi : s.reg .edi = BitVec.ofNat 32 (cursorPos + 2))
    (hpos : symlStart ≤ (shownAt L s.mem).toNat) :
    ∃ acc t, (pc L).step s .timer = some (acc, t) ∧ Handled L s acc t := by
  obtain ⟨t, ht, hrest⟩ := deliver_newInt08 (L := L) hds hes hi
  have hown : ∀ i < 1, OwnVar (paramInt8 + i) := by decide
  refine ⟨_, t, ht, ?_, ?_, fun a ha => deliver_mem hi ht ?_, ?_⟩
  · -- `edi` is already what the handler makes it
    have hset : s.set (.r32 .edi) (BitVec.ofNat 32 cursorPos + 2) = s := by
      refine State.ext rfl ?_ rfl rfl rfl rfl rfl rfl
      refine (Function.update_eq_self_iff).mpr ?_
      exact hedi.symm
    rw [hset] at hrest
    exact hrest
  · -- each access is to a variable of the handlers, or to the screen
    simp only [List.mem_cons, List.not_mem_nil, or_false]
    rintro x (rfl | rfl | rfl)
    · exact ownAccess_data32 hown
    · exact ownAccess_data32 hown
    · exact Or.inr rfl
  · -- so no other byte is written
    simp only [List.mem_cons, List.not_mem_nil, or_false]
    rintro x (rfl | rfl | rfl)
    · exact not_covers_data32 hown ha
    · exact not_covers_data32 hown ha
    · intro hcov
      have := covers_video hcov
      exact ha (Or.inr (Or.inl ⟨this.1, this.2.1⟩))
  · -- the position is not among them
    rw [shownAt_congr fun a hlo hhi => deliver_mem hi ht ?_]
    · exact hpos
    · simp only [List.mem_cons, List.not_mem_nil, or_false]
      have hbyte := not_covers_byte (L := L) (n := paramInt8) (by decide) (by decide) hlo hhi
      rintro x (rfl | rfl | rfl)
      · exact hbyte
      · exact hbyte
      · exact not_covers_cell hhi

section Keyboard

variable {data : BitVec 8} (hp : s.port 0x60 = data) (hi : s.intr = true)
  (hpos : symlStart ≤ (shownAt L s.mem).toNat)
include hp hi hpos

lemma handled_released (hdata : 0x80 < data) :
    ∃ acc t, deliver L .newInt09 s = some (acc, t) ∧ Handled L s acc t := by
  refine ⟨[], s, deliver_released hp hi hdata, ?_⟩
  exact ⟨rfl, fun x hx => absurd hx List.not_mem_nil, fun a _ => rfl, hpos⟩

lemma handled_enter (hds : s.seg .ds = data32s) (he : data = enterCode) :
    ∃ acc t, deliver L .newInt09 s = some (acc, t) ∧ Handled L s acc t := by
  have hm := deliver_enter (L := L) hp hi hds he
  have hown : ∀ i < 1, OwnVar (flagEnterPr + i) := by decide
  refine ⟨_, _, hm, rfl, ?_, fun a ha => deliver_mem hi hm ?_, ?_⟩
  · simp only [List.mem_cons, List.not_mem_nil, or_false]
    rintro x (rfl | rfl) <;> exact ownAccess_data32 hown
  · simp only [List.mem_cons, List.not_mem_nil, or_false]
    rintro x (rfl | rfl) <;> exact not_covers_data32 hown ha
  · rw [shownAt_congr fun a hlo hhi => deliver_mem hi hm ?_]
    · exact hpos
    · simp only [List.mem_cons, List.not_mem_nil, or_false]
      have hbyte := not_covers_byte (L := L) (n := flagEnterPr) (by decide) (by decide) hlo hhi
      rintro x (rfl | rfl) <;> exact hbyte

/-- A key that is shown. -/
lemma handled_shown (hds : s.seg .ds = data32s) (hes : s.seg .es = video16s)
    (hne : data ≠ enterCode) (hdata : ¬ 0x80 < data) (hvar : OwnVar (asciimap + data.toNat))
    (hfit : (shownAt L s.mem).toNat + 2 ≤ 4000) :
    ∃ acc t, deliver L .newInt09 s = some (acc, t) ∧ Handled L s acc t := by
  have hm := deliver_shown (L := L) hp hi hds hes hne hdata hfit
  have hentry : ∀ i < 1, OwnVar (asciimap + data.toNat + i) := by
    intro i hlt
    obtain rfl := Nat.lt_one_iff.mp hlt
    exact hvar
  have hown : ∀ i < 4, OwnVar (symlPos + i) := by decide
  refine ⟨_, _, hm, rfl, ?_, fun a ha => deliver_mem hi hm ?_, ?_⟩
  · simp only [echoAccesses, List.mem_cons, List.not_mem_nil, or_false]
    rintro x (rfl | rfl | rfl | rfl)
    · exact ownAccess_data32 hentry
    · exact ownAccess_data32 hown
    · exact Or.inr rfl
    · exact ownAccess_data32 hown
  · simp only [echoAccesses, List.mem_cons, List.not_mem_nil, or_false]
    rintro x (rfl | rfl | rfl | rfl)
    · exact not_covers_data32 hentry ha
    · exact not_covers_data32 hown ha
    · intro hcov
      have := covers_video hcov
      exact ha (Or.inr (Or.inr (by omega)))
    · exact not_covers_data32 hown ha
  · -- the position moves on by one cell
    have htwo : (2 : BitVec 32).toNat = 2 := rfl
    rw [State.withMem_mem, shownAt_echo, BitVec.toNat_add]
    omega

end Keyboard

/-! ### Transparent interrupts -/

/-- An interrupt, if it is delivered, leaves the registers of the interrupted code as they
were, and its handler accesses its own variables and the video segment alone. -/
def Transparent (L : Layout) (s : State) : Mover → Prop
  | .cpu => True
  | i => s.intr = true → ∃ acc t, (pc L).step s i = some (acc, t)
      ∧ t = s.withMem t.mem t.port ∧ ∀ x ∈ acc, OwnAccess x

/-- A tick comes while `ds` is the data segment and `edi` what the handler leaves there. A
key is released, or comes while `ds` is the data segment; it is Enter, or its entry of
`asciimap` is a variable of the handlers and its cell lies inside the limit. -/
def Harmless (L : Layout) (s : State) : Mover → Prop
  | .cpu => True
  | .timer => s.intr = true →
      s.seg .ds = data32s ∧ s.reg .edi = BitVec.ofNat 32 (cursorPos + 2)
  | .keyboard data => s.intr = true → 0x80 < data ∨ (s.seg .ds = data32s ∧ (data = enterCode
      ∨ (OwnVar (asciimap + data.toNat) ∧ (shownAt L s.mem).toNat + 2 ≤ 4000)))

lemma Handled.transparent (h : Handled L s acc t) :
    t = s.withMem t.mem t.port ∧ ∀ x ∈ acc, OwnAccess x :=
  ⟨h.rest, h.own⟩

/-- The state whose port gives a scan code. -/
abbrev keyed (s : State) (data : BitVec 8) : State := s.setPort (Function.update s.port 0x60 data)

lemma port_keyed (s : State) (data : BitVec 8) : (keyed s data).port 0x60 = data := by
  rw [keyed, State.setPort_port, Function.update_self]

/-- A harmless interrupt is handled. -/
lemma handled_of_harmless (hs : Segs s) (hpos : symlStart ≤ (shownAt L s.mem).toNat)
    (hi : s.intr = true) : ∀ i ≠ Mover.cpu, Harmless L s i →
      ∃ acc t, (pc L).step s i = some (acc, t) ∧ Handled L s acc t := by
  intro i hne h
  cases i with
  | cpu => exact absurd rfl hne
  | timer =>
      obtain ⟨hds, hedi⟩ := h hi
      exact handled_timer hds hs.es hi hedi hpos
  | keyboard data =>
      have hp := port_keyed s data
      have hu : ∃ acc t, deliver L .newInt09 (keyed s data) = some (acc, t)
          ∧ Handled L (keyed s data) acc t := by
        by_cases hdata : 0x80 < data
        · exact handled_released hp hi hpos hdata
        obtain ⟨hds, hkey⟩ := (h hi).resolve_left hdata
        by_cases he : data = enterCode
        · exact handled_enter hp hi hpos hds he
        · obtain ⟨hvar, hfit⟩ := hkey.resolve_left he
          exact handled_shown hp hi hpos hds hs.es he hdata hvar hfit
      obtain ⟨acc, t, ht, hh⟩ := hu
      exact ⟨acc, t, ht, hh.rest, hh.own, hh.mem, hh.pos⟩

lemma ds_of_ownAccess (hs : Segs s) (h : OwnAccess ⟨s.seg .ds, n, k⟩) : s.seg .ds = data32s := by
  rcases h with ⟨hds, -⟩ | hvideo
  · exact hds
  · rcases hs.ds with hds | hds
    · exact hds
    · exact absurd (hds.symm.trans hvideo) (by decide)

/-- **When an interrupt is transparent.** -/
theorem transparent_iff (hs : Segs s) (hpos : symlStart ≤ (shownAt L s.mem).toNat) (i : Mover) :
    Transparent L s i ↔ Harmless L s i := by
  constructor
  · intro h
    cases i with
    | cpu => trivial
    | timer =>
        intro hi
        obtain ⟨acc, t, ht, hrest, hown⟩ := h hi
        -- the first access of the handler is through `ds`
        have hds := ds_of_ownAccess hs (hown _ (newInt08_first hs hi ht))
        obtain ⟨t', ht', hrest'⟩ := deliver_newInt08 (L := L) hds hs.es hi
        cases ht.symm.trans ht'
        refine ⟨hds, ?_⟩
        have hedi := congrArg (fun u => u.reg .edi) (hrest.symm.trans hrest')
        exact hedi
    | keyboard data =>
        intro hi
        obtain ⟨acc, t, ht, -, hown⟩ := h hi
        have hp := port_keyed s data
        have hu : Segs (keyed s data) := ⟨hs.ds, hs.es⟩
        by_cases hdata : 0x80 < data
        · exact Or.inl hdata
        by_cases he : data = enterCode
        · have hfirst := hown _ (newInt09_first_enter hp hi hu he ht)
          exact Or.inr ⟨ds_of_ownAccess hs hfirst, Or.inl he⟩
        · have hfirst := hown _ (newInt09_first_index hp hi hu he hdata ht)
          have hds := ds_of_ownAccess hs hfirst
          have hfit := shownAt_of_deliver (s := keyed s data) hp hi hds hs.es he hdata ht
          refine Or.inr ⟨hds, Or.inr ⟨?_, hfit⟩⟩
          -- the entry of the table is a variable of the handlers
          rcases hfirst with ⟨-, hvar⟩ | hvideo
          · exact hvar _ le_rfl (Nat.lt_succ_self _)
          · exact absurd (hds.symm.trans hvideo) (by decide)
  · intro h
    cases i with
    | cpu => trivial
    | timer =>
        intro hi
        obtain ⟨acc, t, ht, hh⟩ := handled_of_harmless hs hpos hi .timer (by decide) h
        exact ⟨acc, t, ht, hh.transparent⟩
    | keyboard data =>
        intro hi
        obtain ⟨acc, t, ht, hh⟩ := handled_of_harmless hs hpos hi (.keyboard data) (by simp) h
        exact ⟨acc, t, ht, hh.transparent⟩

/-! ### What is kept -/

/-- What holds between two steps of a run: where the interrupted code is, and where the
next key is shown. -/
structure Kept (L : Layout) (s : State) : Prop where
  main : Main s
  pos : symlStart ≤ (shownAt L s.mem).toNat

lemma Kept.segs (h : Kept L s) : Segs s := segs_of_annotated h.main.annotated

lemma Kept.cpu (h : Kept L s) (hs : (pc L).step s .cpu = some (acc, t)) : Kept L t := by
  obtain ⟨i, hi, hex, rfl⟩ := step_exec hs
  refine ⟨h.main.step hi hex, ?_⟩
  rw [shownAt_congr fun a _ hhi => exec_mem hex fun x hx hcov => ?_]
  · exact h.pos
  · have := h.main.stores hi hx hcov
    have := symlPos_lt_video hhi
    omega

lemma Main.withMem (h : Main s) (m : ℕ → BitVec 8) (p : BitVec 8 → BitVec 8) :
    Main (s.withMem m p) := by
  obtain ⟨⟨a, ha, htyped⟩, hc⟩ := h
  exact ⟨⟨a, ha, htyped.same rfl rfl rfl⟩, hc⟩

lemma Kept.handled (h : Kept L s) (hh : Handled L s acc t) : Kept L t :=
  ⟨hh.rest ▸ h.main.withMem t.mem t.port, hh.pos⟩

/-- An interrupt that is delivered comes while interrupts are enabled. -/
lemma intr_of_step {i : Mover} (hne : i ≠ .cpu) (hs : (pc L).step s i = some (acc, t)) :
    s.intr = true := by
  by_contra hi
  cases i with
  | cpu => exact hne rfl
  | timer =>
      rw [show (pc L).step s .timer = none from if_neg hi] at hs
      cases hs
  | keyboard data =>
      rw [show (pc L).step s (.keyboard data) = none from if_neg hi] at hs
      cases hs

/-- A harmless interrupt that is delivered is handled. -/
lemma Kept.interrupt (h : Kept L s) {i : Mover} (hne : i ≠ .cpu) (hi : Harmless L s i)
    (hs : (pc L).step s i = some (acc, t)) : Handled L s acc t := by
  obtain ⟨acc', t', ht, hh⟩ := handled_of_harmless h.segs h.pos (intr_of_step hne hs) i hne hi
  cases hs.symm.trans ht
  exact hh

lemma Kept.step (h : Kept L s) {i : Mover} (hi : Harmless L s i)
    (hs : (pc L).step s i = some (acc, t)) : Kept L t := by
  by_cases hne : i = .cpu
  · exact h.cpu (hne ▸ hs)
  · exact h.handled (h.interrupt hne hi hs)

/-! ### Beside a run without interrupts -/

/-- The code waits for Enter, or has gone on behind it. -/
def Waiting (s : State) : Prop := 10 ≤ s.eip ∧ s.eip ≤ 13

/-- A state of a run beside a state of a run without interrupts. The memory outside the
cells of the handlers is the same; and so is all but the memory and the ports, until both
wait for Enter. -/
structure Matches (L : Layout) (t t₀ : State) : Prop where
  mem : ∀ a, ¬ Own L a → t.mem a = t₀.mem a
  rest : t = t₀.withMem t.mem t.port ∨ (Waiting t ∧ Waiting t₀)

variable {t₀ u : State}

lemma Matches.refl (L : Layout) (s : State) : Matches L s s :=
  ⟨fun _ _ => rfl, Or.inl rfl⟩

/-- An interrupt that is handled leaves the other run where it is. -/
lemma Matches.handled (h : Matches L t t₀) (hh : Handled L t acc u) : Matches L u t₀ := by
  refine ⟨fun a ha => (hh.mem a ha).trans (h.mem a ha), h.rest.imp (fun hrest => ?_) ?_⟩
  · calc u = t.withMem u.mem u.port := hh.rest
      _ = (t₀.withMem t.mem t.port).withMem u.mem u.port := by rw [← hrest]
      _ = t₀.withMem u.mem u.port := withMem_withMem _ _ _ _ _
  · rintro ⟨hw, hw₀⟩
    have heip : u.eip = t.eip := (congrArg State.eip hh.rest).trans rfl
    refine ⟨?_, hw₀⟩
    unfold Waiting at hw ⊢
    rwa [heip]

/-- The code that waits writes nothing. -/
lemma waiting_step (h : Annotated notes t) (hw : Waiting t)
    (hs : (pc L).step t .cpu = some (acc, u)) : Waiting u ∧ ∀ a, u.mem a = t.mem a := by
  obtain ⟨i, hi, hex, rfl⟩ := step_exec hs
  constructor
  · obtain ⟨a, ha, l, hl, q, hq, heip⟩ := eip_of_step h hi hex
    have hall : ∀ e < 14, 10 ≤ e → ∀ a ∈ notes e, ∀ i ∈ code32.code[e]?, ∀ l ∈ i.after find e a,
        ∀ q ∈ l, 10 ≤ q.1 ∧ q.1 ≤ 13 := by
      decide +kernel
    have := hall t.eip (by have := hw.2; omega) hw.1 a ha i hi l hl q hq
    unfold Waiting
    rwa [heip]
  · refine fun a => exec_mem hex fun x hx => ?_
    have := eip_of_writes h hi (writes_of_mem_stores hx)
    obtain ⟨hlo, hhi⟩ := hw
    omega

/-- Until it waits, the code does in the other run what it does in this one. -/
lemma step_beside (h : Main t) (hw : ¬ Waiting t) (hm : ∀ a, ¬ Own L a → t.mem a = t₀.mem a)
    (hrest : t = t₀.withMem t.mem t.port) (hs : (pc L).step t .cpu = some (acc, u)) :
    ∃ acc₀ u₀, (pc L).step t₀ .cpu = some (acc₀, u₀) ∧ Matches L u u₀ := by
  obtain ⟨i, hi, hex, rfl⟩ := step_exec hs
  have hback : t₀ = t.withMem t₀.mem t₀.port := by
    rw [hrest]
    rfl
  have hin : i.inputs = false :=
    of_annotated (Q := fun _ i => i.inputs = false) (by decide +kernel) h.annotated hi
  have hne : t.eip ≠ 10 := by
    intro he
    exact hw ⟨he.ge, by omega⟩
  obtain ⟨m, hex₀, hm₀⟩ := exec_withMem (p := t₀.port) (fun a ha => (hm a ha).symm)
    (fun x hx a ha => not_own_of_read (h.loads hi hne hx ha)) hin hex
  rw [← hback] at hex₀
  have heip : t₀.eip = t.eip := (congrArg State.eip hback).trans rfl
  refine ⟨_, _, step_of_exec (heip ▸ hi) hex₀, fun a ha => (hm₀ a ha).symm, Or.inl rfl⟩

/-- A run without interrupts has got to a state that matches. -/
def Beside (L : Layout) (s t : State) : Prop :=
  ∃ n tr₀ t₀, (pc L).exec (List.replicate n .cpu) s = some (tr₀, t₀) ∧ Matches L t t₀

/-- **A step of a run, and the run without interrupts beside it**: an interrupt leaves the
other run where it is, and a step of the code is taken there too, unless both wait. -/
theorem Beside.step (hk : Kept L t) (h : Beside L s t) {i : Mover} (hi : Harmless L t i)
    (hs : (pc L).step t i = some (acc, u)) : Beside L s u := by
  obtain ⟨n, tr₀, t₀, he, hmatch⟩ := h
  by_cases hne : i = .cpu
  swap
  · exact ⟨n, tr₀, t₀, he, hmatch.handled (hk.interrupt hne hi hs)⟩
  rw [hne] at hs
  by_cases hw : Waiting t
  · obtain ⟨hw', hmem⟩ := waiting_step hk.main.annotated hw hs
    have hw₀ : Waiting t₀ := by
      rcases hmatch.rest with hrest | ⟨-, hw₀⟩
      · have heip : t.eip = t₀.eip := (congrArg State.eip hrest).trans rfl
        unfold Waiting at hw ⊢
        rwa [← heip]
      · exact hw₀
    exact ⟨n, tr₀, t₀, he, fun a ha => (hmem a).trans (hmatch.mem a ha), Or.inr ⟨hw', hw₀⟩⟩
  · have hrest := hmatch.rest.resolve_right fun hwait => hw hwait.1
    obtain ⟨acc₀, u₀, hs₀, hmatch'⟩ := step_beside hk.main hw hmatch.mem hrest hs
    refine ⟨n + 1, tr₀ ++ [(.cpu, acc₀)], u₀, ?_, hmatch'⟩
    rw [List.replicate_succ']
    exact Machine.exec_snoc he hs₀

/-! ### Runs with interrupts -/

/-- The state behind `sti`, with the program as it has been loaded. -/
structure Started (L : Layout) (s : State) : Prop where
  eip : s.eip = 0
  ds : s.seg .ds = data32s
  es : s.seg .es = video16s
  stack : s.stack = []
  intr : s.intr = true
  pos : (shownAt L s.mem).toNat = symlStart

lemma Started.kept (h : Started L s) : Kept L s where
  main := by
    refine ⟨⟨⟨data32s, video16s, none, []⟩, ?_, h.ds, h.es, fun v hv => ?_, h.stack⟩, ?_⟩
    · rw [h.eip]
      rfl
    · cases hv
    · exact counts_of_not_counted (h.eip ▸ by decide)
  pos := h.pos.ge

/-- The interrupts of a schedule do not disturb the code: each of them is transparent, and
at every point a run without interrupts has got to a state that matches. -/
def Undisturbed (L : Layout) (is : List Mover) (s : State) : Prop :=
  (pc L).Meets (Transparent L) is s
    ∧ ∀ js, js <+: is → ∀ tr t, (pc L).exec js s = some (tr, t) → Beside L s t

/-- **Interrupts do not disturb the code exactly when each of them is harmless.** -/
theorem undisturbed_iff (hs : Started L s) (is : List Mover) :
    Undisturbed L is s ↔ (pc L).Meets (Harmless L) is s := by
  have hiff : (pc L).Meets (Transparent L) is s ↔ (pc L).Meets (Harmless L) is s :=
    Machine.meets_congr hs.kept
      (fun t i acc u hk hi hstep =>
        hk.step ((transparent_iff hk.segs hk.pos i).mp hi) hstep)
      (fun t i hk => transparent_iff hk.segs hk.pos i)
  constructor
  · exact fun h => hiff.mp h.1
  · refine fun h => ⟨hiff.mpr h, fun js hjs tr t he => ?_⟩
    have hinv := (h.of_prefix hjs).invariant (I := fun t => Kept L t ∧ Beside L s t)
      ⟨hs.kept, 0, [], s, rfl, .refl L s⟩
      (fun t i acc u hI hi hstep => ⟨hI.1.step hi hstep, hI.2.step hI.1 hi hstep⟩) he
    exact hinv.2

/-! ### A loaded program -/

/-- A machine with 16 megabytes, and the program at the start of its second 64 kilobytes. -/
def exampleLayout : Layout := ⟨0x1000, 2 ^ 24, by decide, by decide⟩

/-- The content of `asciimap` and of the variables behind it. -/
def variableBytes : List (BitVec 8) := asciimapBytes ++ [0, 0, 0x20, 0x03, 0, 0, 0x0F]

/-- `'Memory: '`. -/
def memoryText : List (BitVec 8) := [77, 101, 109, 111, 114, 121, 58, 32]

def exampleMem (a : ℕ) : BitVec 8 :=
  if exampleLayout.base + pmMemCount ≤ a then
    memoryText.getD (a - (exampleLayout.base + pmMemCount)) 0
  else variableBytes.getD (a - (exampleLayout.base + asciimap)) 0

def exampleStart : State where
  eip := 0
  reg := fun _ => 0
  seg
    | .ds => data32s
    | .es => video16s
  flags := ⟨false, false, false, false⟩
  intr := true
  stack := []
  mem := exampleMem
  port := fun _ => 0

lemma shownAt_exampleStart :
    shownAt exampleLayout exampleStart.mem = BitVec.ofNat 32 symlStart := by
  decide

lemma exampleStart_started : Started exampleLayout exampleStart :=
  ⟨rfl, rfl, rfl, rfl, rfl, congrArg BitVec.toNat shownAt_exampleStart⟩

/-- A key that is shown before the first instruction does not disturb it. -/
theorem undisturbed_by_key :
    Undisturbed exampleLayout [.keyboard 0x10, .cpu] exampleStart := by
  refine (undisturbed_iff exampleStart_started _).mpr ?_
  have hfit : (shownAt exampleLayout exampleStart.mem).toNat + 2 ≤ 4000 := by
    rw [exampleStart_started.pos]
    decide
  refine Machine.meets_cons_iff.mpr ⟨fun _ => ?_, fun _ _ => ?_⟩
  · exact Or.inr ⟨rfl, Or.inr ⟨by decide, hfit⟩⟩
  · exact Machine.meets_cons_iff.mpr ⟨trivial, fun _ _ => Machine.meets_nil⟩

/-- A tick behind the first instruction, which sets `di` for the first letter, leaves
another position in `edi`. -/
theorem tick_disturbs : ¬ Undisturbed exampleLayout [.cpu, .timer] exampleStart := by
  intro h
  let t := exampleStart.next.set (.r16 .edi) (BitVec.ofNat 16 memPos)
  have ht : (pc exampleLayout).step exampleStart .cpu = some ([], t) := rfl
  have htick : Transparent exampleLayout t .timer := by
    exact h.1 [.cpu] .timer List.prefix_rfl [(.cpu, [])] t (Machine.exec_cons_of_exec ht rfl)
  have hsegs : Segs t := ⟨Or.inl rfl, rfl⟩
  have hpos : symlStart ≤ (shownAt exampleLayout t.mem).toNat := by
    rw [State.set_mem, State.next_mem]
    exact exampleStart_started.kept.pos
  have hiff := transparent_iff (L := exampleLayout) (s := t) hsegs hpos .timer
  obtain ⟨-, hedi⟩ := hiff.mp htick rfl
  exact absurd hedi (by decide)

end ProtectedMode

end OperatingSys
