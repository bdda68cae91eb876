import OperatingSys.Foundations.X86Frame

/-!
Handlers, instruction by instruction.

`toIret_quiet`, `toIret_touch`, `toIret_fault` and `toIret_ret` say how the code up to an
`iretd` goes on behind its first instruction. The lemmas before them say what parts of
registers hold, what instructions with an operand in memory do, and what the conditions of
the jumps mean after a comparison.
-/

namespace OperatingSys

namespace X86

variable {ι : Type} {B : Board}

/-! ### Parts of registers -/

@[simp] lemma Reg.of_put {w : ℕ} (r : Reg w) (v : BitVec w) (x : BitVec 32) :
    r.of (r.put v x) = v := by
  cases r with
  | r32 r => rfl
  | r16 r => exact BitVec.extractLsb'_append_eq_right
  | lo r => exact BitVec.extractLsb'_append_eq_right
  | hi r =>
      refine (BitVec.extractLsb'_append_eq_of_le (le_refl 8)).trans ?_
      exact BitVec.extractLsb'_append_eq_right

@[simp] lemma get_set_self {w : ℕ} (s : State) (r : Reg w) (v : BitVec w) :
    (s.set r v).get r = v := by
  simp [State.get]

/-- The low half of a register whose second byte has been cleared is its low byte. -/
lemma of_r16_cleared (r : R32) (x : BitVec 32) :
    (Reg.r16 r).of ((Reg.hi r).put 0 x) = ((Reg.lo r).of x).setWidth 16 := by
  apply BitVec.eq_of_getLsbD_eq
  intro i hi
  simp only [Reg.of, Reg.put, BitVec.getLsbD_extractLsb', BitVec.getLsbD_append,
    BitVec.getLsbD_setWidth]
  by_cases h : i < 8
  · simp [h, hi]
  · simp [h, hi, show i - 8 < 8 by omega]

/-- A cleared register whose low half is set. -/
lemma put_r16_zero (r : R32) (v : BitVec 16) : (Reg.r16 r).put v 0 = v.setWidth 32 := by
  apply BitVec.eq_of_getLsbD_eq
  intro i hi
  simp only [Reg.put, BitVec.getLsbD_append, BitVec.getLsbD_setWidth, BitVec.getLsbD_extractLsb']
  by_cases h : i < 16
  · simp [h, hi]
  · simp [h, hi, BitVec.getLsbD_of_ge v i (by omega)]

/-! ### Operands in memory -/

section Operands

variable {find : ι → ℕ} {w : ℕ} {s t : State} {seg : Sreg} {base : Option R32}
  {disp : BitVec 32} {a : ℕ}

lemma exec_mov_load {d : Opd w} (ha : B.at ⟨s.seg seg, s.offset base disp, w / 8⟩ = some a)
    (ht : d.write B (load w s.mem a) s.next = some t) :
    (Instr.mov d (.mem seg base disp)).exec B find s = some t :=
  Option.bind_eq_some_iff.mpr ⟨_, Option.map_eq_some_iff.mpr ⟨a, ha, rfl⟩, ht⟩

lemma exec_mov_store {src : Opd w} {v : BitVec w} (hv : src.read B s = some v)
    (ha : B.at ⟨s.seg seg, s.offset base disp, w / 8⟩ = some a) :
    (Instr.mov (.mem seg base disp) src).exec B find s
      = some (s.next.setMem (B.store s.mem a v)) :=
  Option.bind_eq_some_iff.mpr ⟨v, hv, Option.map_eq_some_iff.mpr ⟨a, ha, rfl⟩⟩

/-- A store past the limit is a fault. -/
lemma exec_mov_fault {src : Opd w} (ha : B.at ⟨s.seg seg, s.offset base disp, w / 8⟩ = none) :
    (Instr.mov (.mem seg base disp) src).exec B find s = none := by
  refine Option.bind_eq_none_iff.mpr fun v _ => ?_
  exact Option.map_eq_none_iff.mpr ha

lemma exec_alu_store {op : Alu} {src : Opd w} {v : BitVec w} (hop : op.stores = true)
    (hv : src.read B s = some v) (ha : B.at ⟨s.seg seg, s.offset base disp, w / 8⟩ = some a) :
    (Instr.alu op (.mem seg base disp) src).exec B find s
      = some ((s.next.setFlags (op.flags (load w s.mem a) v)).setMem
          (B.store s.mem a (op.result (load w s.mem a) v))) := by
  refine Option.bind_eq_some_iff.mpr ⟨_, Option.map_eq_some_iff.mpr ⟨a, ha, rfl⟩, ?_⟩
  refine Option.bind_eq_some_iff.mpr ⟨v, hv, ?_⟩
  rw [if_pos hop]
  exact Option.map_eq_some_iff.mpr ⟨a, ha, rfl⟩

lemma exec_stosw (ha : B.at ⟨s.seg .es, s.offset (some .edi) 0, 2⟩ = some a) :
    (Instr.stosw : Instr ι).exec B find s
      = some ((s.next.setMem (B.store s.mem a (s.get (.r16 .eax)))).set (.r32 .edi)
          (s.reg .edi + 2)) :=
  Option.map_eq_some_iff.mpr ⟨_, Option.map_eq_some_iff.mpr ⟨a, ha, rfl⟩, rfl⟩

lemma exec_xor_self {r : Reg w} :
    (Instr.alu .xor (.reg r) (.reg r)).exec B find s
      = some ((s.next.setFlags (Alu.xor.flags (s.get r) (s.get r))).set r 0) := by
  rw [show (0 : BitVec w) = s.get r ^^^ s.get r from BitVec.xor_self.symm]
  rfl

lemma exec_jcc {c : Cond} {l : ι} {b : Bool} (hb : c.holds s.flags = b) :
    (Instr.jcc c l).exec B find s = some (s.goto (if b then find l else s.eip + 1)) := by
  rw [Instr.exec, hb]

/-- The last round of a loop. -/
lemma exec_loop_end {l : ι} (h : s.reg .ecx - 1 = 0) :
    (Instr.loop l).exec B find s
      = some ((s.set (.r32 .ecx) (s.reg .ecx - 1)).goto (s.eip + 1)) := by
  rw [Instr.exec, if_pos h]

lemma exec_loop_back {l : ι} (h : s.reg .ecx - 1 ≠ 0) :
    (Instr.loop l).exec B find s
      = some ((s.set (.r32 .ecx) (s.reg .ecx - 1)).goto (find l)) := by
  rw [Instr.exec, if_neg h]

end Operands

/-! ### Conditions after a comparison -/

section Conditions

variable {w : ℕ} {a b : BitVec w}

lemma zero_cmp : (Alu.cmp.flags a b).zero = decide (a = b) := by
  rw [Bool.eq_iff_iff, decide_eq_true_iff]
  refine beq_iff_eq.trans ⟨fun h => ?_, fun h => ?_⟩
  · have hab : a - b = 0#w := h
    rw [← BitVec.sub_add_cancel a b, hab, BitVec.zero_add]
  · rw [h]
    exact BitVec.sub_self b

lemma holds_ne_cmp : Cond.ne.holds (Alu.cmp.flags a b) = decide (a ≠ b) := by
  rw [Cond.holds, zero_cmp, decide_not]

lemma holds_a_cmp : Cond.a.holds (Alu.cmp.flags a b) = decide (b < a) := by
  rw [Cond.holds, zero_cmp, Bool.eq_iff_iff, decide_eq_true_iff, Bool.and_eq_true,
    Bool.not_eq_true', Bool.not_eq_true', decide_eq_false_iff_not]
  have hc : (Alu.cmp.flags a b).carry = false ↔ b ≤ a := by
    refine decide_eq_false_iff_not.trans ?_
    exact Nat.not_lt
  rw [hc]
  refine ⟨fun h => BitVec.lt_of_le_ne h.1 (Ne.symm h.2), fun h => ⟨BitVec.le_of_lt h, ?_⟩⟩
  rintro rfl
  exact BitVec.lt_irrefl _ h

end Conditions

/-! ### The rules -/

section Rules

variable {P : Program ι} {n : ℕ} {s t u : State} {acc : List Access} {i : Instr ι}

lemma toIret_of_exec (hi : P.code[s.eip]? = some i) (hret : returns P s = false)
    (h : i.exec B P.find s = some t) :
    toIret B P (n + 1) s = (toIret B P n t).map fun q => (i.accesses s ++ q.1, q.2) := by
  rw [toIret, step_of_exec hi h, Option.bind_some, if_neg (by simp [hret])]

/-- An instruction that accesses no memory. -/
lemma toIret_quiet (hi : P.code[s.eip]? = some i) (hret : returns P s = false)
    (h : i.exec B P.find s = some t) (hacc : i.accesses s = []) :
    toIret B P (n + 1) s = toIret B P n t := by
  rw [toIret_of_exec hi hret h, hacc]
  exact Option.map_id' (x := toIret B P n t)

/-- An instruction that faults. -/
lemma toIret_fault (hi : P.code[s.eip]? = some i) (h : i.exec B P.find s = none) :
    toIret B P (n + 1) s = none := by
  rw [toIret, step, hi, Option.bind_some, h]
  rfl

/-- The end. -/
lemma toIret_ret (hi : P.code[s.eip]? = some .iretd)
    (h : (Instr.iretd : Instr ι).exec B P.find s = some t) :
    toIret B P (n + 1) s = some ([], t) := by
  have hret : returns P s = true := by rw [returns, hi]
  rw [toIret, step_of_exec hi h, Option.bind_some, if_pos hret]
  rfl

/-- An instruction that accesses memory. -/
lemma toIret_touch {l : List Access} (hi : P.code[s.eip]? = some i) (hret : returns P s = false)
    (h : i.exec B P.find s = some t) (hacc : i.accesses s = l) :
    toIret B P (n + 1) s = (toIret B P n t).map fun q => (l ++ q.1, q.2) := by
  rw [toIret_of_exec hi hret h, hacc]

end Rules

end X86

end OperatingSys
