import OperatingSys.Foundations.X86Walk
import OperatingSys.ProtectedMode.Main

/-!
The hexadecimal output, `print_count_memory`.

The loop `print_symbol` shows the low digit of `eax` at the position in `ebx`, turns `eax` by
a digit and goes a cell to the left (`printSymbol_round`). Eight rounds show the eight
digits from right to left (`printSymbol_rounds`), and `eax` has made a whole turn.
-/

namespace OperatingSys

namespace ProtectedMode

open X86

variable {L : Layout} {s : State} {g : R32 → BitVec 32} {f : Flags} {st : List Slot}
  {m : ℕ → BitVec 8} {e : ℕ}

/-! ### Digits -/

/-- The sixteen digits, in upper case. -/
def hexChars : List (BitVec 8) := "0123456789ABCDEF".toList.map fun c => BitVec.ofNat 8 c.toNat

/-- The character of a digit. -/
def hexChar (d : ℕ) : BitVec 8 := hexChars.getD d 0

/-- The digit with the weight `16 ^ k`, a zero in front of the number. -/
def hexDigit (x : BitVec 32) (k : ℕ) : ℕ := (Nat.digits 16 x.toNat).getD k 0

/-- The number of the lowest digit. -/
def lowDigit (x : BitVec 32) : BitVec 4 := x.extractLsb' 0 4

/-- The digit that has been turned to the low end. -/
lemma lowDigit_rotateRight (x : BitVec 32) {k : ℕ} (hk : k < 8) :
    (lowDigit (x.rotateRight (4 * k))).toNat = hexDigit x k := by
  rw [lowDigit, extractLsb'_rotateRight x (by omega), BitVec.extractLsb'_toNat, hexDigit,
    Nat.getD_digits _ _ (by decide), Nat.shiftRight_eq_div_pow, pow_mul]
  rfl

/-- `and dl, 0Fh`. -/
lemma and_low (x : BitVec 32) : (Reg.lo .eax).of x &&& 0x0F = (lowDigit x).setWidth 8 := by
  apply BitVec.eq_of_toNat_eq
  have h15 : (0x0F : BitVec 8).toNat = 2 ^ 4 - 1 := rfl
  rw [BitVec.toNat_and, h15, Nat.and_two_pow_sub_one_eq_mod, lowDigit, Reg.of,
    BitVec.extractLsb'_toNat, BitVec.toNat_setWidth, BitVec.extractLsb'_toNat]
  omega

/-- The digits up to nine. -/
lemma hexChar_of_lt : ∀ d : BitVec 4, (d.setWidth 8).slt 10 = true →
    Alu.add.result (d.setWidth 8) 0x30 = hexChar d.toNat := by
  decide

/-- The letters. -/
lemma hexChar_of_ge : ∀ d : BitVec 4, (d.setWidth 8).slt 10 = false →
    Alu.add.result (Alu.sub.result (d.setWidth 8) 10) 0x41 = hexChar d.toNat := by
  decide

/-! ### A round -/

/-- The registers with another low byte of `edx`. -/
def withDl (g : R32 → BitVec 32) (v : BitVec 8) : R32 → BitVec 32 :=
  Function.update g .edx ((Reg.lo .edx).put v (g .edx))

lemma exec_alu_dl {op : Alu} (hop : op.stores = true) (v k : BitVec 8) :
    (Instr.alu op dl (imm k)).exec L.board find (s.moved e (withDl g v) f st m)
      = some (s.moved (e + 1) (withDl g (op.result v k)) (op.flags v k) st m) := by
  simp only [Instr.exec, Opd.read, Opd.write, State.get, State.moved_reg, withDl, Reg.whole,
    Function.update_self, Reg.of_put, Option.bind_some, hop, if_true]
  refine congrArg some (State.eq_of_reg rfl fun r => ?_)
  cases r <;> simp [Reg.whole]

lemma exec_cmp_dl (v k : BitVec 8) :
    (Instr.alu .cmp dl (imm k)).exec L.board find (s.moved e (withDl g v) f st m)
      = some (s.moved (e + 1) (withDl g v) (Alu.cmp.flags v k) st m) := by
  simp only [Instr.exec, Opd.read, State.get, State.moved_reg, withDl, Reg.whole,
    Function.update_self, Reg.of_put, Option.bind_some, Alu.stores]
  rfl

/-- The digit is made into a character, on either branch. -/
lemma printSymbol_digit : ∃ f', Leads L.board code32 (s.moved 87 g f st m) []
    (s.moved 95 (withDl g (hexChar (lowDigit (g .eax)).toNat)) f' st m) := by
  have hdl : (Instr.mov dl al).exec L.board find (s.moved 87 g f st m)
      = some (s.moved 88 (withDl g ((Reg.lo .eax).of (g .eax))) f st m) := rfl
  have hand : (Instr.alu .and dl (imm 0x0F)).exec L.board find
      (s.moved 88 (withDl g ((Reg.lo .eax).of (g .eax))) f st m) = some (s.moved 89
        (withDl g ((lowDigit (g .eax)).setWidth 8))
        (Alu.and.flags ((Reg.lo .eax).of (g .eax)) 0x0F) st m) := by
    rw [exec_alu_dl rfl, Alu.result, and_low]
  have hjl := fun (b : Bool) (hb : ((lowDigit (g .eax)).setWidth 8).slt 10 = b) =>
    @exec_jcc Label L.board find (s.moved 90 (withDl g ((lowDigit (g .eax)).setWidth 8))
      (Alu.cmp.flags ((lowDigit (g .eax)).setWidth 8) 10) st m) .l .toTen b (holds_l_cmp.trans hb)
  by_cases hd : ((lowDigit (g .eax)).setWidth 8).slt 10 = true
  · rw [← hexChar_of_lt _ hd]
    refine ⟨Alu.add.flags ((lowDigit (g .eax)).setWidth 8) 0x30,
      .quiet rfl hdl rfl (.quiet rfl hand rfl ?_)⟩
    refine .quiet rfl (exec_cmp_dl _ _) rfl (.quiet rfl (hjl true hd) rfl ?_)
    exact .quiet rfl (exec_alu_dl (e := 94) rfl _ _) rfl (.refl _)
  · rw [Bool.not_eq_true] at hd
    rw [← hexChar_of_ge _ hd]
    refine ⟨Alu.add.flags (Alu.sub.result ((lowDigit (g .eax)).setWidth 8) 10) 0x41,
      .quiet rfl hdl rfl (.quiet rfl hand rfl ?_)⟩
    refine .quiet rfl (exec_cmp_dl _ _) rfl (.quiet rfl (hjl false hd) rfl ?_)
    refine .quiet rfl (exec_alu_dl (e := 91) rfl _ _) rfl ?_
    exact .quiet rfl (exec_alu_dl rfl _ _) rfl (.quiet rfl rfl rfl (.refl _))

/-- The registers after a round that has shown the character `v`. -/
def turned (g : R32 → BitVec 32) (v : BitVec 8) : R32 → BitVec 32
  | .eax => (g .eax).rotateRight 4
  | .ebx => g .ebx - 2
  | .ecx => g .ecx - 1
  | .edx => (Reg.lo .edx).put v (g .edx)
  | .esi => g .esi
  | .edi => g .edi

/-- The cell at an offset of the video page is stored. -/
def showCell (L : Layout) (m : ℕ → BitVec 8) (n : ℕ) (v : BitVec 8) : ℕ → BitVec 8 :=
  L.board.store m (video + n) (param ++ v)

/-- A character is shown at the position in `ebx`, with the attribute. -/
lemma exec_show {r : R32} {n : ℕ} {v : BitVec 8} (hes : s.seg .es = video16s)
    (hebx : (g .ebx).toNat = n) (hn : n + 2 ≤ 4000) (hr : (Reg.r16 r).of (g r) = param ++ v) :
    (Instr.mov (idx .es 0 .ebx) (.reg (.r16 r))).exec L.board find (s.moved e g f st m)
        = some (s.moved (e + 1) g f st (showCell L m n v))
      ∧ (Instr.mov (idx .es 0 .ebx) (.reg (.r16 r)) : Instr Label).accesses (s.moved e g f st m)
        = [⟨video16s, n, 2⟩] := by
  have hcell : L.board.at ⟨s.seg .es, (BitVec.ofNat 32 0 + g .ebx).toNat, 2⟩
      = some (video + n) := by
    rw [hes, offset_zero, hebx]
    exact board_video L hn
  have hacc : [Access.mk (s.seg .es) (BitVec.ofNat 32 0 + g .ebx).toNat 2]
      = [⟨video16s, n, 2⟩] := by
    rw [hes, offset_zero, hebx]
  refine ⟨?_, hacc⟩
  rw [showCell, ← hr]
  exact exec_mov_store (s := s.moved e g f st m) rfl hcell

/-- The character is shown, and the registers are turned. -/
lemma printSymbol_shown {v : BitVec 8} (hes : s.seg .es = video16s)
    (hdh : (Reg.hi .edx).of (g .edx) = param) (hfit : (g .ebx).toNat + 2 ≤ 4000) :
    ∃ f', Leads L.board code32 (s.moved 95 (withDl g v) f st m)
      [⟨video16s, (g .ebx).toNat, 2⟩]
      (s.moved (if g .ecx - 1 = 0 then 99 else 87) (turned g v) f' st
        (showCell L m (g .ebx).toNat v)) := by
  have hdx : (Reg.r16 .edx).of (withDl g v .edx) = param ++ v := by
    rw [withDl, Function.update_self, of_r16_eq, of_hi_put_lo, Reg.of_put, hdh]
  obtain ⟨hstore, hacc⟩ := @exec_show L s (withDl g v) f st m 95 .edx _ v hes rfl hfit hdx
  refine ⟨Alu.sub.flags (g .ebx) 2, ?_⟩
  change Leads _ _ _ ([_] ++ []) _
  refine .touch rfl hstore hacc (.quiet rfl rfl rfl (.quiet rfl rfl rfl (.quiet rfl rfl rfl ?_)))
  refine Leads.of_eq (State.eq_of_reg rfl fun r => ?_)
  cases r <;> rfl

/-- **A round.** -/
lemma printSymbol_round (hes : s.seg .es = video16s) (hdh : (Reg.hi .edx).of (g .edx) = param)
    (hfit : (g .ebx).toNat + 2 ≤ 4000) :
    ∃ f', Leads L.board code32 (s.moved 87 g f st m) [⟨video16s, (g .ebx).toNat, 2⟩]
      (s.moved (if g .ecx - 1 = 0 then 99 else 87)
        (turned g (hexChar (lowDigit (g .eax)).toNat)) f' st
        (showCell L m (g .ebx).toNat (hexChar (lowDigit (g .eax)).toNat))) := by
  obtain ⟨f₁, hdigit⟩ := @printSymbol_digit L s g f st m
  obtain ⟨f₂, hshown⟩ := @printSymbol_shown L s g f₁ st m (hexChar (lowDigit (g .eax)).toNat)
    hes hdh hfit
  exact ⟨f₂, hdigit.trans hshown⟩

/-! ### The rounds -/

/-- The memory after some rounds that begin with the number `x` and the cell at `n`. -/
def showDigits (L : Layout) : ℕ → BitVec 32 → ℕ → (ℕ → BitVec 8) → ℕ → BitVec 8
  | 0, _, _, m => m
  | k + 1, x, n, m =>
      showDigits L k (x.rotateRight 4) (n - 2) (showCell L m n (hexChar (lowDigit x).toNat))

/-- The cells from the offset `n` on to the left. -/
def cellsLeft (n k : ℕ) : List Access := (List.range k).map fun i => ⟨video16s, n - 2 * i, 2⟩

lemma cellsLeft_succ (n k : ℕ) :
    cellsLeft n (k + 1) = [⟨video16s, n, 2⟩] ++ cellsLeft (n - 2) k := by
  rw [cellsLeft, List.range_succ_eq_map, List.map_cons, List.map_map]
  refine congrArg₂ List.cons rfl (List.map_congr_left fun i _ => ?_)
  change Access.mk video16s (n - 2 * (i + 1)) 2 = ⟨video16s, n - 2 - 2 * i, 2⟩
  rw [show n - 2 * (i + 1) = n - 2 - 2 * i by omega]

/-- The registers that the rounds leave. -/
structure Shown (g g' : R32 → BitVec 32) (k : ℕ) : Prop where
  eax : g' .eax = (g .eax).rotateRight (4 * k)
  esi : g' .esi = g .esi
  edi : g' .edi = g .edi

/-- **The rounds**: as many digits as `ecx` says are shown, from right to left. -/
lemma printSymbol_rounds (hes : s.seg .es = video16s) {k : ℕ}
    (hdh : (Reg.hi .edx).of (g .edx) = param) (hecx : (g .ecx).toNat = k + 1)
    (hroom : 2 * k ≤ (g .ebx).toNat) (hfit : (g .ebx).toNat + 2 ≤ 4000) :
    ∃ g' f', Leads L.board code32 (s.moved 87 g f st m) (cellsLeft (g .ebx).toNat (k + 1))
        (s.moved 99 g' f' st (showDigits L (k + 1) (g .eax) (g .ebx).toNat m))
      ∧ Shown g g' (k + 1) := by
  induction k generalizing g f m with
  | zero =>
      -- the last digit, and `loop` ends
      obtain ⟨f', hround⟩ := @printSymbol_round L s g f st m hes hdh hfit
      rw [if_pos (pred_eq_zero hecx)] at hround
      exact ⟨_, f', hround, rfl, rfl, rfl⟩
  | succ k ih =>
      obtain ⟨f₁, hround⟩ := @printSymbol_round L s g f st m hes hdh hfit
      obtain ⟨hpred, hne⟩ := pred_of_succ hecx
      -- `ebx` goes one cell to the left
      have hleft : (g .ebx - 2).toNat = (g .ebx).toNat - 2 := by
        rw [BitVec.toNat_sub_of_le (by rw [BitVec.le_def]; change 2 ≤ _; omega)]
        rfl
      rw [if_neg hne] at hround
      obtain ⟨g', f', hrest, hshown⟩ := ih (g := turned g (hexChar (lowDigit (g .eax)).toNat))
        (f := f₁) (m := showCell L m (g .ebx).toNat (hexChar (lowDigit (g .eax)).toNat))
        ((of_hi_put_lo _ _ _ _).trans hdh) hpred (by change _ ≤ (g .ebx - 2).toNat; omega)
        (by change (g .ebx - 2).toNat + 2 ≤ _; omega)
      refine ⟨g', f', ?_, ?_, hshown.esi, hshown.edi⟩
      · rw [cellsLeft_succ]
        refine hround.trans ?_
        rw [showDigits, ← hleft]
        exact hrest
      · rw [hshown.eax]
        change ((g .eax).rotateRight 4).rotateRight _ = _
        rw [rotateRight_rotateRight, Nat.mul_succ 4 (k + 1), Nat.add_comm]

/-! ### What is shown -/

/-- The rounds change nothing outside their cells. -/
lemma showDigits_elsewhere {k n : ℕ} {x : BitVec 32} {a : ℕ} (hroom : 2 * k ≤ n)
    (ha : a < video + (n + 2 - 2 * k) ∨ video + n + 2 ≤ a) : showDigits L k x n m a = m a := by
  induction k generalizing x n m with
  | zero => rfl
  | succ k ih =>
      rw [showDigits, ih (by omega) (by omega)]
      exact store_of_not_mem (by omega)

/-- A cell shows the digit that has been turned to the low end in its round. -/
lemma load_showDigits {k n j : ℕ} {x : BitVec 32} (hj : j < k) (hroom : 2 * k ≤ n)
    (hfit : n + 2 ≤ 4000) : load 16 (showDigits L k x n m) (video + (n - 2 * j))
      = param ++ hexChar (lowDigit (x.rotateRight (4 * j))).toNat := by
  induction k generalizing x n m j with
  | zero => omega
  | succ k ih =>
      rw [showDigits]
      cases j with
      | zero =>
          have hram : video + n + 2 ≤ L.board.ram := by
            have hmem : 2 ^ 20 ≤ L.board.ram := L.installed
            have hpage : video + 4000 ≤ 2 ^ 20 := by decide
            omega
          rw [load_congr fun b hb hlt => showDigits_elsewhere (by omega) (Or.inr (by omega))]
          exact (load_store rfl hram).trans (by rw [Nat.mul_zero, rotateRight_zero])
      | succ j =>
          have hrest := ih (x := x.rotateRight 4) (n := n - 2)
            (m := showCell L m n (hexChar (lowDigit x).toNat)) (j := j) (by omega) (by omega)
            (by omega)
          rw [rotateRight_rotateRight] at hrest
          rw [show n - 2 * (j + 1) = n - 2 - 2 * j by omega, hrest,
            show 4 * (j + 1) = 4 + 4 * j by omega]

/-! ### The procedure -/

/-- The cells of the number. -/
def numberCells : List Access := cellsLeft memValuePos 8

/-- The registers at the first round. -/
def printing0 (g : R32 → BitVec 32) : R32 → BitVec 32 :=
  Function.update (Function.update g .ecx 8) .edx ((Reg.hi .edx).put param (g .edx))

/-- The stack inside the procedure. -/
def pushed (g : R32 → BitVec 32) (e : ℕ) (st : List Slot) : List Slot :=
  .word (g .edx) :: .word (g .ebx) :: .word (g .ecx) :: .ret e :: st

/-- From the call to the first round. -/
lemma printCountMemory_enter : Leads L.board code32
    (s.moved (find .printCountMemory) g f (.ret e :: st) m) []
    (s.moved 87 (printing0 g) f (pushed g e st) m) := by
  refine .quiet rfl rfl rfl (.quiet rfl rfl rfl (.quiet rfl rfl rfl ?_))
  refine .quiet rfl rfl rfl (.quiet rfl rfl rfl ?_)
  exact .of_eq rfl

/-- From the last round to the return. -/
lemma printCountMemory_leave {g g' : R32 → BitVec 32} (h : Shown g g' 8) :
    Leads L.board code32 (s.moved 99 g' f (pushed g e st) m) [] (s.moved e g f st m) := by
  refine .quiet rfl rfl rfl (.quiet rfl rfl rfl (.quiet rfl rfl rfl (.quiet rfl rfl rfl ?_)))
  refine .of_eq (State.eq_of_reg rfl fun r => ?_)
  cases r with
  | eax => exact h.eax.trans (rotateRight_self _)
  | ebx | ecx | edx => rfl
  | esi => exact h.esi
  | edi => exact h.edi

/-- **The procedure**, from its call to its return: it shows the number, and leaves the
registers as they were. -/
lemma printCountMemory_leads (hes : s.seg .es = video16s)
    (hebx : g .ebx = BitVec.ofNat 32 memValuePos) :
    ∃ f', Leads L.board code32 (s.moved (find .printCountMemory) g f (.ret e :: st) m) numberCells
      (s.moved e g f' st (showDigits L 8 (g .eax) memValuePos m)) := by
  have hpos : (printing0 g .ebx).toNat = memValuePos := congrArg BitVec.toNat hebx
  obtain ⟨g', f', hrounds, hshown⟩ := @printSymbol_rounds L s (printing0 g) f (pushed g e st) m hes
    7 (Reg.of_put _ _ _) rfl (by rw [hpos]; decide) (by rw [hpos]; decide)
  rw [hpos] at hrounds
  have hleave := @printCountMemory_leave L s f' st (showDigits L 8 (g .eax) memValuePos m) e g g'
    ⟨hshown.eax, hshown.esi, hshown.edi⟩
  refine ⟨f', ?_⟩
  have hall := printCountMemory_enter.trans (hrounds.trans hleave)
  rwa [List.nil_append, List.append_nil] at hall

/-- **The hexadecimal output**: called with any number in `eax`, the procedure returns with
the registers as they were. It has written eight cells, the digits of the number from right
to left, and no other byte has changed. -/
theorem number_shown (L : Layout) (s : State) (e : ℕ) (st : List Slot)
    (heip : s.eip = find .printCountMemory) (hstack : s.stack = .ret e :: st)
    (hes : s.seg .es = video16s) (hebx : s.reg .ebx = BitVec.ofNat 32 memValuePos) :
    ∃ t, Leads L.board code32 s numberCells t ∧ t.eip = e ∧ t.stack = st ∧ t.reg = s.reg
      ∧ (∀ k < 8, load 16 t.mem (video + (memValuePos - 2 * k))
        = param ++ hexChar (hexDigit (s.reg .eax) k))
      ∧ ∀ a, a < video + (memValuePos - 14) ∨ video + memValuePos + 2 ≤ a →
        t.mem a = s.mem a := by
  obtain ⟨f', hrun⟩ := @printCountMemory_leads L s s.reg s.flags st s.mem e hes hebx
  rw [← eq_moved heip hstack] at hrun
  have hroom : 2 * 8 ≤ memValuePos := by decide
  have hfit : memValuePos + 2 ≤ 4000 := by decide
  refine ⟨_, hrun, rfl, rfl, rfl, fun k hk => ?_, fun a ha => ?_⟩
  · rw [← lowDigit_rotateRight _ hk]
    exact load_showDigits hk hroom hfit
  · exact showDigits_elsewhere hroom ha

/-- A layout with 32 megabytes. -/
def plainLayout : Layout where
  data32 := 0x100
  ram := 2 ^ 25
  below := by decide
  installed := by decide

/-- A call that shows the number `16`. -/
def callOfOutput : State where
  eip := find .printCountMemory
  reg := fun r => if r = .eax then 16 else BitVec.ofNat 32 memValuePos
  seg := fun r => if r = .es then video16s else data4gbs
  flags := ⟨false, false, false, false⟩
  intr := true
  stack := [.ret 71]
  mem := fun _ => 0
  port := fun _ => 0

/-- The number `16` is shown. -/
theorem number_shown_sixteen :
    ∃ t, Leads plainLayout.board code32 callOfOutput numberCells t ∧ t.eip = 71 ∧ t.stack = []
      ∧ t.reg = callOfOutput.reg
      ∧ (∀ k < 8, load 16 t.mem (video + (memValuePos - 2 * k))
        = param ++ hexChar (hexDigit (callOfOutput.reg .eax) k))
      ∧ ∀ a, a < video + (memValuePos - 14) ∨ video + memValuePos + 2 ≤ a →
        t.mem a = callOfOutput.mem a :=
  number_shown plainLayout callOfOutput 71 [] rfl rfl rfl rfl

end ProtectedMode

end OperatingSys
