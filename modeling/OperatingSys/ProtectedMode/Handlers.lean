import OperatingSys.Foundations.X86Walk
import OperatingSys.ProtectedMode.Basic

/-!
The handlers of the timer and the keyboard.

Where `ds` is the data segment and `es` the video segment, the timer's handler leaves
everything but the memory and `edi` as it was (`deliver_newInt08`), and the keyboard's
everything but the memory (`deliver_enter`, `deliver_released`, `deliver_shown`), unless
the cell at `syml_pos` lies past the limit (`newInt09_past`). With another `ds` their first
accesses go there (`newInt08_first`, `newInt09_first_enter`, `newInt09_first_index`).
-/

namespace OperatingSys

namespace ProtectedMode

open X86

variable {L : Layout} {s t : State} {acc : List Access}

/-! ### The segments -/

lemma board_data32 (L : Layout) {n k : ℕ} (h : n + k ≤ dataSize) :
    L.board.at ⟨data32s, n, k⟩ = some (L.base + n) := by
  exact if_pos (show n + k ≤ dataSize - 1 + 1 from h)

lemma board_video (L : Layout) {n k : ℕ} (h : n + k ≤ 4000) :
    L.board.at ⟨video16s, n, k⟩ = some (video + n) := by
  exact if_pos h

lemma board_video_none (L : Layout) {n k : ℕ} (h : 4000 < n + k) :
    L.board.at ⟨video16s, n, k⟩ = none := by
  exact if_neg (show ¬ n + k ≤ 3999 + 1 by omega)

lemma board_data4gb (L : Layout) {n k : ℕ} (h : n + k ≤ 2 ^ 32) :
    L.board.at ⟨data4gbs, n, k⟩ = some n := by
  refine (if_pos (show n + k ≤ 0xFFFFFFFF + 1 from h)).trans ?_
  exact congrArg some (Nat.zero_add n)

lemma covers_data32 {n k a : ℕ} (h : n + k ≤ dataSize) (ha : L.board.Covers ⟨data32s, n, k⟩ a) :
    L.base + n ≤ a ∧ a < L.base + n + k := by
  obtain ⟨b, hb, hlo, hhi⟩ := ha
  obtain rfl := Option.some.inj ((board_data32 L h).symm.trans hb)
  exact ⟨hlo, hhi⟩

lemma covers_video {n k a : ℕ} (ha : L.board.Covers ⟨video16s, n, k⟩ a) :
    video + n ≤ a ∧ a < video + n + k ∧ n + k ≤ 4000 := by
  obtain ⟨b, hb, hlo, hhi⟩ := ha
  by_cases h : n + k ≤ 4000
  · obtain rfl := Option.some.inj ((board_video L h).symm.trans hb)
    exact ⟨hlo, hhi, h⟩
  · rw [board_video_none L (by omega)] at hb
    cases hb

lemma covers_data4gb {n k a : ℕ} (h : n + k ≤ 2 ^ 32) (ha : L.board.Covers ⟨data4gbs, n, k⟩ a) :
    n ≤ a ∧ a < n + k := by
  obtain ⟨b, hb, hlo, hhi⟩ := ha
  obtain rfl := Option.some.inj ((board_data4gb L h).symm.trans hb)
  exact ⟨hlo, hhi⟩

/-- `ds` is the data segment or the whole memory, and `es` the video segment. -/
structure Segs (s : State) : Prop where
  ds : s.seg .ds = data32s ∨ s.seg .ds = data4gbs
  es : s.seg .es = video16s

/-- The first bytes of either segment can be accessed. -/
lemma Segs.board_ds (h : Segs s) (L : Layout) {n k : ℕ} (hn : n + k ≤ dataSize) :
    ∃ a, L.board.at ⟨s.seg .ds, n, k⟩ = some a := by
  rcases h.ds with hds | hds
  · exact ⟨_, hds ▸ board_data32 L hn⟩
  · have : dataSize ≤ 2 ^ 32 := by decide
    exact ⟨_, hds ▸ board_data4gb L (hn.trans this)⟩

/-! ### The timer -/

/-- The handler up to the access of `param_int_8`. -/
lemma newInt08_first (hs : Segs s) (hi : s.intr = true)
    (h : deliver L .newInt08 s = some (acc, t)) : ⟨s.seg .ds, paramInt8, 1⟩ ∈ acc := by
  obtain ⟨a, ha⟩ := hs.board_ds L (show paramInt8 + 1 ≤ dataSize by decide)
  rw [deliver, if_pos hi, show code32.code.length = 100 + 3 from rfl,
    toIret_quiet rfl rfl rfl rfl, toIret_quiet rfl rfl rfl rfl,
    toIret_touch rfl rfl (exec_mov_load (w := 8) ha rfl) rfl] at h
  obtain ⟨q, -, hq⟩ := Option.map_eq_some_iff.mp h
  cases hq
  exact List.mem_append_left _ List.mem_cons_self

/-- The handler: what it accesses, and that it leaves everything but the memory and
`edi`. -/
lemma deliver_newInt08 (hds : s.seg .ds = data32s) (hes : s.seg .es = video16s)
    (hi : s.intr = true) : ∃ t, deliver L .newInt08 s
      = some ([⟨data32s, paramInt8, 1⟩, ⟨data32s, paramInt8, 1⟩, ⟨video16s, cursorPos, 2⟩], t)
      ∧ t = (s.set (.r32 .edi) (BitVec.ofNat 32 cursorPos + 2)).withMem t.mem t.port := by
  have hparam : L.board.at ⟨s.seg .ds, paramInt8, 1⟩ = some (L.base + paramInt8) :=
    hds ▸ board_data32 L (by decide)
  have hcell : L.board.at ⟨s.seg .es, cursorPos, 2⟩ = some (video + cursorPos) :=
    hes ▸ board_video L (by decide)
  have hacc := congrArg (fun x => [Access.mk x paramInt8 1]) hds
  have hacc' := congrArg (fun x => [Access.mk x cursorPos 2]) hes
  rw [deliver, if_pos hi, show code32.code.length = 92 + 11 from rfl,
    toIret_quiet rfl rfl rfl rfl, toIret_quiet rfl rfl rfl rfl,
    toIret_touch (l := [⟨data32s, paramInt8, 1⟩]) rfl rfl (exec_mov_load (w := 8) hparam rfl) ?_,
    toIret_quiet rfl rfl rfl rfl,
    toIret_touch (l := [⟨data32s, paramInt8, 1⟩]) rfl rfl (exec_mov_store (w := 8) rfl hparam) ?_,
    toIret_quiet rfl rfl rfl rfl,
    toIret_touch (l := [⟨video16s, cursorPos, 2⟩]) rfl rfl (exec_stosw hcell) ?_,
    toIret_quiet rfl rfl rfl rfl, toIret_quiet rfl rfl rfl rfl, toIret_quiet rfl rfl rfl rfl,
    toIret_ret rfl rfl]
  · refine ⟨_, rfl, ?_⟩
    refine State.eq_of_reg rfl fun r => ?_
    cases r <;> rfl
  · exact hacc'
  · exact hacc
  · exact hacc

/-! ### The keyboard -/

/-- Inside the keyboard's handler, which has pushed three registers. -/
def inside (s : State) (e : ℕ) (g : R32 → BitVec 32) (f : Flags) (m : ℕ → BitVec 8) : State where
  eip := e
  reg := g
  seg := s.seg
  flags := f
  intr := false
  stack :=
    .word (s.reg .edx) :: .word (s.reg .ebx) :: .word (s.reg .eax)
      :: .frame s.eip s.flags s.intr :: s.stack
  mem := m
  port := s.port

/-- The registers that are not saved. -/
def SameRest (s : State) (g : R32 → BitVec 32) : Prop :=
  g .ecx = s.reg .ecx ∧ g .esi = s.reg .esi ∧ g .edi = s.reg .edi

variable {n e : ℕ} {g : R32 → BitVec 32} {f : Flags} {m : ℕ → BitVec 8} {data : BitVec 8}

/-- From the interrupt to the comparison with Enter. -/
lemma newInt09_compared (hp : s.port 0x60 = data) :
    ∃ g f, SameRest s g ∧ (Reg.lo .eax).of (g .eax) = data
      ∧ toIret L.board code32 (n + 6) (interrupt (find .newInt09) s)
        = toIret L.board code32 n (inside s (if data = enterCode then 31 else 33) g f s.mem) := by
  refine ⟨Function.update s.reg .eax ((Reg.lo .eax).put data (s.reg .eax)),
    Alu.cmp.flags data enterCode, ⟨rfl, rfl, rfl⟩, Reg.of_put _ _ _, ?_⟩
  have hb : Cond.ne.holds (Alu.cmp.flags
      ((Reg.lo .eax).of ((Reg.lo .eax).put (s.port 0x60) (s.reg .eax))) enterCode)
      = decide (data ≠ enterCode) := by
    rw [Reg.of_put, hp, holds_ne_cmp]
  rw [toIret_quiet rfl rfl rfl rfl, toIret_quiet rfl rfl rfl rfl, toIret_quiet rfl rfl rfl rfl,
    toIret_quiet rfl rfl rfl rfl, toIret_quiet rfl rfl rfl rfl,
    toIret_quiet rfl rfl (exec_jcc hb) rfl]
  refine congrArg (toIret L.board code32 n) (State.ext ?_ ?_ rfl ?_ rfl rfl rfl rfl)
  · by_cases h : data = enterCode <;> simp [h, inside]
    all_goals rfl
  · show Function.update s.reg .eax ((Reg.lo .eax).put (s.port 0x60) (s.reg .eax)) = _
    rw [hp]
    rfl
  · show Alu.cmp.flags ((Reg.lo .eax).of ((Reg.lo .eax).put (s.port 0x60) (s.reg .eax))) enterCode
      = _
    rw [Reg.of_put, hp]
    rfl

/-- From the label `exit` to the return. -/
lemma newInt09_exit (hreg : SameRest s g) :
    toIret L.board code32 (n + 6) (inside s 44 g f m) = some ([], s.withMem m s.port) := by
  rw [toIret_quiet rfl rfl rfl rfl, toIret_quiet rfl rfl rfl rfl, toIret_quiet rfl rfl rfl rfl,
    toIret_quiet rfl rfl rfl rfl, toIret_quiet rfl rfl rfl rfl, toIret_ret rfl rfl]
  refine congrArg (fun t => some ([], t)) ?_
  refine State.eq_of_reg rfl fun r => ?_
  cases r with
  | eax => rfl
  | ebx => rfl
  | edx => rfl
  | ecx => exact hreg.1
  | esi => exact hreg.2.1
  | edi => exact hreg.2.2

/-- The flag of Enter is set. -/
def withFlag (L : Layout) (m : ℕ → BitVec 8) : ℕ → BitVec 8 :=
  L.board.store m (L.base + flagEnterPr) (load 8 m (L.base + flagEnterPr) ||| 1)

/-- Enter: the flag is set. -/
lemma newInt09_enter (hds : s.seg .ds = data32s) : ∃ f',
    toIret L.board code32 (n + 2) (inside s 31 g f s.mem)
      = (toIret L.board code32 n (inside s 44 g f' (withFlag L s.mem))).map fun q =>
        ([⟨data32s, flagEnterPr, 1⟩, ⟨data32s, flagEnterPr, 1⟩] ++ q.1, q.2) := by
  have hflag : L.board.at ⟨s.seg .ds, flagEnterPr, 1⟩ = some (L.base + flagEnterPr) :=
    hds ▸ board_data32 L (by decide)
  rw [toIret_touch (l := [⟨data32s, flagEnterPr, 1⟩, ⟨data32s, flagEnterPr, 1⟩]) rfl rfl
    (exec_alu_store rfl rfl hflag) ?_, toIret_quiet rfl rfl rfl rfl]
  · exact ⟨_, rfl⟩
  · exact congrArg (fun x => [Access.mk x flagEnterPr 1, Access.mk x flagEnterPr 1]) hds

/-- A key that is released: nothing is done. -/
lemma newInt09_released (hal : (Reg.lo .eax).of (g .eax) = data) (hdata : 0x80 < data) :
    ∃ f', toIret L.board code32 (n + 2) (inside s 33 g f m)
      = toIret L.board code32 n (inside s 44 g f' m) := by
  have hb : Cond.a.holds (Alu.cmp.flags ((Reg.lo .eax).of (g .eax)) 0x80) = true := by
    rw [hal, holds_a_cmp]
    exact decide_eq_true hdata
  rw [toIret_quiet rfl rfl rfl rfl, toIret_quiet rfl rfl (exec_jcc hb) rfl]
  exact ⟨_, rfl⟩

/-- A key that is pressed, up to the access of `asciimap`. -/
lemma newInt09_index (hal : (Reg.lo .eax).of (g .eax) = data) (hdata : ¬ 0x80 < data)
    (hreg : SameRest s g) (hs : Segs s) : ∃ g' f' a, SameRest s g'
      ∧ L.board.at ⟨s.seg .ds, asciimap + data.toNat, 1⟩ = some a
      ∧ (Reg.r16 .edx).of (g' .edx) = param ++ m a
      ∧ toIret L.board code32 (n + 7) (inside s 33 g f m)
        = (toIret L.board code32 n (inside s 40 g' f' m)).map fun q =>
          ([⟨s.seg .ds, asciimap + data.toNat, 1⟩] ++ q.1, q.2) := by
  have hle : data.toNat ≤ 0x80 := Nat.not_lt.mp hdata
  -- `ja` does not jump
  have hb : Cond.a.holds (Alu.cmp.flags ((Reg.lo .eax).of (g .eax)) 0x80) = false := by
    rw [hal, holds_a_cmp]
    exact decide_eq_false hdata
  -- the index does not wrap around
  have hoff : (BitVec.ofNat 32 asciimap + (Reg.r16 .ebx).put ((Reg.r16 .eax).of
      ((Reg.hi .eax).put 0 (g .eax))) 0).toNat = asciimap + data.toNat := by
    have hlt : asciimap < 2 ^ 10 := by decide
    rw [of_r16_cleared, hal, put_r16_zero, BitVec.toNat_add, BitVec.toNat_setWidth,
      BitVec.toNat_setWidth, BitVec.toNat_ofNat]
    omega
  obtain ⟨a, ha⟩ := hs.board_ds L (show asciimap + data.toNat + 1 ≤ dataSize by
    have : asciimap + 0x80 + 1 ≤ dataSize := by decide
    omega)
  rw [toIret_quiet rfl rfl rfl rfl, toIret_quiet rfl rfl (exec_jcc hb) rfl,
    toIret_quiet rfl rfl exec_xor_self rfl, toIret_quiet rfl rfl exec_xor_self rfl,
    toIret_quiet rfl rfl rfl rfl, toIret_quiet rfl rfl rfl rfl,
    toIret_touch (l := [⟨s.seg .ds, asciimap + data.toNat, 1⟩]) rfl rfl
      (exec_mov_load (a := a) ?_ rfl) ?_]
  · refine ⟨_, _, a, ?_, ha, ?_, rfl⟩
    · exact ⟨hreg.1, hreg.2.1, hreg.2.2⟩
    · rw [← load_byte m a]
      exact of_r16_put_put .edx _ _ _
  · exact (congrArg (fun k => L.board.at ⟨s.seg .ds, k, 1⟩) hoff).trans ha
  · exact congrArg (fun k => [Access.mk (s.seg .ds) k 1]) hoff

/-- The position at which the next key is shown. -/
def shownAt (L : Layout) (m : ℕ → BitVec 8) : BitVec 32 := load 32 m (L.base + symlPos)

/-- The position is read. -/
lemma newInt09_position (hds : s.seg .ds = data32s) :
    toIret L.board code32 (n + 1) (inside s 40 g f m)
      = (toIret L.board code32 n
          (inside s 41 (Function.update g .ebx (shownAt L m)) f m)).map fun q =>
        ([⟨data32s, symlPos, 4⟩] ++ q.1, q.2) := by
  have hpos : L.board.at ⟨s.seg .ds, symlPos, 4⟩ = some (L.base + symlPos) :=
    hds ▸ board_data32 L (by decide)
  exact toIret_touch rfl rfl (exec_mov_load (s := inside s 40 g f m) hpos rfl)
    (congrArg (fun x => [Access.mk x symlPos 4]) hds)

lemma offset_zero (p : BitVec 32) : (BitVec.ofNat 32 0 + p).toNat = p.toNat := by
  rw [BitVec.zero_add]

/-- The key is shown at the position in `ebx`. -/
lemma newInt09_show {p : BitVec 32} (hes : s.seg .es = video16s) (hfit : p.toNat + 2 ≤ 4000) :
    toIret L.board code32 (n + 1) (inside s 41 (Function.update g .ebx p) f m)
      = (toIret L.board code32 n (inside s 42 (Function.update g .ebx p) f
          (L.board.store m (video + p.toNat) ((Reg.r16 .edx).of (g .edx))))).map fun q =>
        ([⟨video16s, p.toNat, 2⟩] ++ q.1, q.2) := by
  have hcell : L.board.at ⟨s.seg .es, (BitVec.ofNat 32 0 + p).toNat, 2⟩
      = some (video + p.toNat) := by
    rw [hes, offset_zero]
    exact board_video L hfit
  have hacc : [Access.mk (s.seg .es) (BitVec.ofNat 32 0 + p).toNat 2]
      = [⟨video16s, p.toNat, 2⟩] := by
    rw [hes, offset_zero]
  exact toIret_touch (i := .mov (idx .es 0 .ebx) dx) rfl rfl
    (exec_mov_store (s := inside s 41 (Function.update g .ebx p) f m) rfl hcell) hacc

/-- The position moves on. -/
lemma newInt09_advance {p : BitVec 32} (hds : s.seg .ds = data32s) : ∃ f',
    toIret L.board code32 (n + 2) (inside s 42 (Function.update g .ebx p) f m)
      = (toIret L.board code32 n (inside s 44 (Function.update g .ebx (p + 2)) f'
          (L.board.store m (L.base + symlPos) (p + 2)))).map fun q =>
        ([⟨data32s, symlPos, 4⟩] ++ q.1, q.2) := by
  have hpos : L.board.at ⟨s.seg .ds, symlPos, 4⟩ = some (L.base + symlPos) :=
    hds ▸ board_data32 L (by decide)
  have hadd : (Instr.alu .add (r32 .ebx) (imm 2)).exec L.board code32.find
      (inside s 42 (Function.update g .ebx p) f m)
      = some (inside s 43 (Function.update g .ebx (p + 2)) (Alu.add.flags p 2) m) := by
    refine congrArg some (State.eq_of_reg rfl fun r => ?_)
    cases r <;> rfl
  refine ⟨Alu.add.flags p 2, ?_⟩
  rw [toIret_quiet rfl rfl hadd rfl]
  exact toIret_touch rfl rfl (exec_mov_store
    (s := inside s 43 (Function.update g .ebx (p + 2)) (Alu.add.flags p 2) m) rfl hpos)
    (congrArg (fun x => [Access.mk x symlPos 4]) hds)

/-- Past the limit of the video segment the handler faults. -/
lemma newInt09_past {p : BitVec 32} (hes : s.seg .es = video16s)
    (hpast : 4000 < p.toNat + 2) :
    toIret L.board code32 (n + 1) (inside s 41 (Function.update g .ebx p) f m) = none := by
  have hcell : L.board.at ⟨s.seg .es, (BitVec.ofNat 32 0 + p).toNat, 2⟩ = none := by
    rw [hes, offset_zero]
    exact board_video_none L hpast
  exact toIret_fault (i := .mov (idx .es 0 .ebx) dx) rfl
    (exec_mov_fault (s := inside s 41 (Function.update g .ebx p) f m) hcell)

/-! ### The keyboard, as a whole -/

section Keyboard

variable (hp : s.port 0x60 = data) (hi : s.intr = true)
include hp hi

/-- The handler from the comparison on. -/
lemma deliver_newInt09 : ∃ g f, SameRest s g ∧ (Reg.lo .eax).of (g .eax) = data
    ∧ deliver L .newInt09 s
      = toIret L.board code32 97 (inside s (if data = enterCode then 31 else 33) g f s.mem) := by
  obtain ⟨g, f, hreg, hal, hrun⟩ := newInt09_compared (L := L) (n := 97) hp
  refine ⟨g, f, hreg, hal, ?_⟩
  rw [deliver, if_pos hi]
  exact hrun

/-- Enter, with whatever `ds`: the flag is accessed there. -/
lemma newInt09_first_enter (hs : Segs s) (he : data = enterCode)
    (h : deliver L .newInt09 s = some (acc, t)) : ⟨s.seg .ds, flagEnterPr, 1⟩ ∈ acc := by
  obtain ⟨g, f, -, -, hrun⟩ := deliver_newInt09 (L := L) hp hi
  obtain ⟨a, ha⟩ := hs.board_ds L (show flagEnterPr + 1 ≤ dataSize by decide)
  rw [hrun, if_pos he, toIret_touch (n := 96) rfl rfl
    (exec_alu_store (s := inside s 31 g f s.mem) rfl rfl ha) rfl] at h
  obtain ⟨q, -, hq⟩ := Option.map_eq_some_iff.mp h
  cases hq
  exact List.mem_append_left _ List.mem_cons_self

lemma deliver_enter (hds : s.seg .ds = data32s) (he : data = enterCode) :
    deliver L .newInt09 s = some ([⟨data32s, flagEnterPr, 1⟩, ⟨data32s, flagEnterPr, 1⟩],
      s.withMem (withFlag L s.mem) s.port) := by
  obtain ⟨g, f, hreg, -, hrun⟩ := deliver_newInt09 (L := L) hp hi
  obtain ⟨f', henter⟩ := newInt09_enter (L := L) (n := 95) (g := g) (f := f) hds
  rw [hrun, if_pos he]
  exact henter.trans (congrArg (Option.map _) (newInt09_exit (n := 89) hreg))

lemma deliver_released (hdata : 0x80 < data) : deliver L .newInt09 s = some ([], s) := by
  obtain ⟨g, f, hreg, hal, hrun⟩ := deliver_newInt09 (L := L) hp hi
  have hne : data ≠ enterCode := by
    rintro rfl
    exact absurd hdata (by decide)
  obtain ⟨f', hrel⟩ := newInt09_released (L := L) (s := s) (n := 95) (f := f) (m := s.mem) hal hdata
  rw [hrun, if_neg hne]
  exact hrel.trans (newInt09_exit (n := 89) hreg)

/-- A key that is pressed, with whatever `ds`: `asciimap` is accessed there. -/
lemma deliver_pressed (hs : Segs s) (hne : data ≠ enterCode) (hdata : ¬ 0x80 < data) :
    ∃ g f a, SameRest s g ∧ L.board.at ⟨s.seg .ds, asciimap + data.toNat, 1⟩ = some a
      ∧ (Reg.r16 .edx).of (g .edx) = param ++ s.mem a
      ∧ deliver L .newInt09 s
        = (toIret L.board code32 90 (inside s 40 g f s.mem)).map fun q =>
          ([⟨s.seg .ds, asciimap + data.toNat, 1⟩] ++ q.1, q.2) := by
  obtain ⟨g, f, hreg, hal, hrun⟩ := deliver_newInt09 (L := L) hp hi
  obtain ⟨g', f', a, hreg', ha, hdx, hidx⟩ :=
    newInt09_index (L := L) (n := 90) (f := f) (m := s.mem) hal hdata hreg hs
  refine ⟨g', f', a, hreg', ha, hdx, ?_⟩
  rw [hrun, if_neg hne]
  exact hidx

lemma newInt09_first_index (hs : Segs s) (hne : data ≠ enterCode) (hdata : ¬ 0x80 < data)
    (h : deliver L .newInt09 s = some (acc, t)) :
    ⟨s.seg .ds, asciimap + data.toNat, 1⟩ ∈ acc := by
  obtain ⟨g, f, a, -, -, -, hrun⟩ := deliver_pressed (L := L) hp hi hs hne hdata
  rw [hrun] at h
  obtain ⟨q, -, hq⟩ := Option.map_eq_some_iff.mp h
  cases hq
  exact List.mem_append_left _ List.mem_cons_self

/-- The character of a key is in the cell at the position, and the position has moved on. -/
def echo (L : Layout) (data : BitVec 8) (m : ℕ → BitVec 8) : ℕ → BitVec 8 :=
  L.board.store (L.board.store m (video + (shownAt L m).toNat)
    (param ++ m (L.base + (asciimap + data.toNat)))) (L.base + symlPos) (shownAt L m + 2)

/-- What a key that is pressed accesses. -/
def echoAccesses (L : Layout) (data : BitVec 8) (m : ℕ → BitVec 8) : List Access :=
  [⟨data32s, asciimap + data.toNat, 1⟩, ⟨data32s, symlPos, 4⟩,
    ⟨video16s, (shownAt L m).toNat, 2⟩, ⟨data32s, symlPos, 4⟩]

/-- A key that is pressed, while the position lies inside the limit. -/
lemma deliver_shown (hds : s.seg .ds = data32s) (hes : s.seg .es = video16s)
    (hne : data ≠ enterCode) (hdata : ¬ 0x80 < data) (hfit : (shownAt L s.mem).toNat + 2 ≤ 4000) :
    deliver L .newInt09 s
      = some (echoAccesses L data s.mem, s.withMem (echo L data s.mem) s.port) := by
  obtain ⟨g, f, a, hreg, ha, hdx, hrun⟩ :=
    deliver_pressed (L := L) hp hi ⟨Or.inl hds, hes⟩ hne hdata
  have hin : asciimap + data.toNat + 1 ≤ dataSize := by
    have hle : data.toNat ≤ 0x80 := Nat.not_lt.mp hdata
    have : asciimap + 0x80 + 1 ≤ dataSize := by decide
    omega
  rw [hds, board_data32 L hin] at ha
  cases ha
  rw [echoAccesses, echo, ← hdx]
  generalize hpos : shownAt L s.mem = p at *
  obtain ⟨f', hadv⟩ := newInt09_advance (L := L) (n := 86) (g := g) (f := f) (p := p)
    (m := L.board.store s.mem (video + p.toNat) ((Reg.r16 .edx).of (g .edx))) hds
  have hexit := newInt09_exit (L := L) (n := 80) (f := f')
    (m := L.board.store (L.board.store s.mem (video + p.toNat) ((Reg.r16 .edx).of (g .edx)))
      (L.base + symlPos) (p + 2)) (g := Function.update g .ebx (p + 2))
    (show SameRest s _ from hreg)
  rw [hrun, newInt09_position (n := 89) hds, hpos, newInt09_show (n := 88) hes hfit, hadv, hexit,
    hds]
  rfl

/-- A key that is handled leaves the position inside the limit. -/
lemma shownAt_of_deliver (hds : s.seg .ds = data32s) (hes : s.seg .es = video16s)
    (hne : data ≠ enterCode) (hdata : ¬ 0x80 < data)
    (h : deliver L .newInt09 s = some (acc, t)) : (shownAt L s.mem).toNat + 2 ≤ 4000 := by
  obtain ⟨g, f, a, -, -, -, hrun⟩ :=
    deliver_pressed (L := L) hp hi ⟨Or.inl hds, hes⟩ hne hdata
  by_contra hpast
  rw [hrun, newInt09_position (n := 89) hds, newInt09_past (n := 88) hes (by omega)] at h
  cases h

end Keyboard

end ProtectedMode

end OperatingSys
