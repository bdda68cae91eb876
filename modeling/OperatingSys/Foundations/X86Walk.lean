import OperatingSys.Foundations.X86Run

/-!
Stretches of a program.

`Leads B P s l t` says that some instructions lead from `s` to `t` and access the bytes
`l`. Stretches are put together by `Leads.trans`, and `Leads.quiet` and `Leads.touch` put
an instruction in front of one, so that a stretch of code is followed with its number of
instructions left open. `State.moved` names the states on the way.
-/

namespace OperatingSys

namespace X86

variable {ι : Type} {B : Board} {P : Program ι}

/-! ### Parts of registers -/

/-- The low half of a register is made of its two bytes. -/
lemma of_r16_eq (r : R32) (x : BitVec 32) :
    (Reg.r16 r).of x = (Reg.hi r).of x ++ (Reg.lo r).of x := by
  apply BitVec.eq_of_getLsbD_eq
  intro i hi
  simp only [Reg.of, BitVec.getLsbD_extractLsb', BitVec.getLsbD_append]
  by_cases h : i < 8
  · simp [h, hi]
  · simp [h, hi, show i - 8 < 8 by omega, show 8 + (i - 8) = i by omega]

/-- The low byte may be replaced without the high one. -/
@[simp] lemma of_hi_put_lo (r r' : R32) (v : BitVec 8) (x : BitVec 32) :
    (Reg.hi r).of ((Reg.lo r').put v x) = (Reg.hi r).of x := by
  apply BitVec.eq_of_getLsbD_eq
  intro i hi
  simp only [Reg.of, Reg.put, BitVec.getLsbD_extractLsb', BitVec.getLsbD_append]
  simp [hi, show i < 24 by omega]

/-- The high byte may be replaced without the low one. -/
@[simp] lemma of_lo_put_hi (r r' : R32) (v : BitVec 8) (x : BitVec 32) :
    (Reg.lo r).of ((Reg.hi r').put v x) = (Reg.lo r).of x := by
  apply BitVec.eq_of_getLsbD_eq
  intro i hi
  simp only [Reg.of, Reg.put, BitVec.getLsbD_extractLsb', BitVec.getLsbD_append]
  simp [hi]

/-- Both bytes of the low half have been replaced. -/
lemma of_r16_put_put (r : R32) (v v' : BitVec 8) (x : BitVec 32) :
    (Reg.r16 r).of ((Reg.lo r).put v ((Reg.hi r).put v' x)) = v' ++ v := by
  rw [of_r16_eq, of_hi_put_lo, Reg.of_put, Reg.of_put]

@[simp] lemma put_lo_put_lo (r r' : R32) (v v' : BitVec 8) (x : BitVec 32) :
    (Reg.lo r).put v ((Reg.lo r').put v' x) = (Reg.lo r).put v x :=
  congrArg (· ++ v) BitVec.extractLsb'_append_eq_left

/-! ### Rotations -/

/-- A bit of a rotated value. -/
lemma getLsbD_rotateRight_mod {w : ℕ} (x : BitVec w) (r : ℕ) {i : ℕ} (hi : i < w) :
    (x.rotateRight r).getLsbD i = x.getLsbD ((r + i) % w) := by
  have hr : r % w < w := Nat.mod_lt _ (by omega)
  rw [BitVec.getLsbD_rotateRight, ← Nat.mod_add_mod]
  by_cases h : i < w - r % w
  · rw [Nat.mod_eq_of_lt (show r % w + i < w by omega)]
    simp [h]
  · have hwrap : (r % w + i) % w = i - (w - r % w) := by
      rw [Nat.mod_eq_sub_mod (by omega), Nat.mod_eq_of_lt (by omega)]
      omega
    rw [hwrap]
    simp [h, hi]

lemma rotateRight_zero {w : ℕ} (x : BitVec w) : x.rotateRight 0 = x := by
  apply BitVec.eq_of_getLsbD_eq
  intro i hi
  rw [getLsbD_rotateRight_mod _ _ hi, Nat.zero_add, Nat.mod_eq_of_lt hi]

/-- Rotations add up. -/
lemma rotateRight_rotateRight {w : ℕ} (x : BitVec w) (m n : ℕ) :
    (x.rotateRight m).rotateRight n = x.rotateRight (m + n) := by
  apply BitVec.eq_of_getLsbD_eq
  intro i hi
  rw [getLsbD_rotateRight_mod _ _ hi, getLsbD_rotateRight_mod _ _ hi,
    getLsbD_rotateRight_mod _ _ (Nat.mod_lt _ (by omega)), Nat.add_mod_mod, ← Nat.add_assoc]

/-- A whole turn. -/
lemma rotateRight_self {w : ℕ} (x : BitVec w) : x.rotateRight w = x := by
  apply BitVec.eq_of_getLsbD_eq
  intro i hi
  rw [getLsbD_rotateRight_mod _ _ hi, Nat.add_mod_left, Nat.mod_eq_of_lt hi]

/-- A rotation brings bits down to the low end. -/
lemma extractLsb'_rotateRight {w n k : ℕ} (x : BitVec w) (h : k + n ≤ w) :
    (x.rotateRight k).extractLsb' 0 n = x.extractLsb' k n := by
  apply BitVec.eq_of_getLsbD_eq
  intro i hi
  rw [BitVec.getLsbD_extractLsb', BitVec.getLsbD_extractLsb', Nat.zero_add,
    getLsbD_rotateRight_mod _ _ (by omega), Nat.mod_eq_of_lt (by omega)]

/-! ### Stores and loads -/

lemma load_byte (m : ℕ → BitVec 8) (a : ℕ) : load 8 m a = m a := by
  rw [load]
  change BitVec.ofNat 8 ((m a).toNat + 256 * 0) = m a
  rw [Nat.mul_zero, Nat.add_zero, BitVec.ofNat_toNat, BitVec.setWidth_eq]

/-- A byte that is stored where there is memory. -/
lemma store_byte {m : ℕ → BitVec 8} {a : ℕ} (h : a < B.ram) (v : BitVec 8) :
    B.store m a v = Function.update m a v := by
  funext x
  by_cases hx : x = a
  · rw [hx, Function.update_self, Board.store, if_pos ⟨h, le_rfl, by omega⟩, Nat.sub_self]
    exact BitVec.extractLsb'_eq_self
  · rw [Function.update_of_ne hx]
    exact store_of_not_mem fun hin => hx (by omega)

/-- What is stored where there is no memory is lost. -/
lemma store_past {w : ℕ} {m : ℕ → BitVec 8} {a : ℕ} (h : B.ram ≤ a) (v : BitVec w) :
    B.store m a v = m := by
  funext x
  exact if_neg fun hx => by omega

/-! ### Comparison -/

/-- A comparison or a test of an operand in memory. -/
lemma exec_alu_look {find : ι → ℕ} {w : ℕ} {s : State} {seg : Sreg} {base : Option R32}
    {disp : BitVec 32} {a : ℕ} {op : Alu} {src : Opd w} {v : BitVec w} (hop : op.stores = false)
    (hv : src.read B s = some v) (ha : B.at ⟨s.seg seg, s.offset base disp, w / 8⟩ = some a) :
    (Instr.alu op (.mem seg base disp) src).exec B find s
      = some (s.next.setFlags (op.flags (load w s.mem a) v)) := by
  refine Option.bind_eq_some_iff.mpr ⟨_, Option.map_eq_some_iff.mpr ⟨a, ha, rfl⟩, ?_⟩
  refine Option.bind_eq_some_iff.mpr ⟨v, hv, ?_⟩
  rw [if_neg (by simp [hop])]

/-- `jl` is the comparison of signed values. -/
lemma holds_l_cmp {w : ℕ} {a b : BitVec w} : Cond.l.holds (Alu.cmp.flags a b) = a.slt b := by
  rw [BitVec.slt_eq_decide]
  change ((a - b).msb != BitVec.ssubOverflow a b) = _
  have ha := a.two_mul_toInt_lt
  have ha' := a.le_two_mul_toInt
  have hb := b.two_mul_toInt_lt
  have hb' := b.le_two_mul_toInt
  rw [BitVec.msb_eq_toInt, BitVec.toInt_sub, BitVec.ssubOverflow]
  rcases w with _ | k
  · simp [BitVec.eq_nil a, BitVec.eq_nil b]
  · -- the difference is taken modulo `2 ^ (k + 1)`, and lies within one turn of it
    have hpow : (2 : ℤ) ^ (k + 1) = 2 * 2 ^ k := pow_succ' 2 k
    rw [Int.bmod_def, Nat.cast_pow, Nat.cast_ofNat, Nat.add_sub_cancel, hpow]
    generalize (2 : ℤ) ^ k = h at *
    generalize a.toInt = x at *
    generalize b.toInt = y at *
    by_cases hxy : x < y
    · have hmod : (x - y) % (2 * h) = x - y + 2 * h := by
        rw [← Int.add_emod_right]
        exact Int.emod_eq_of_lt (by omega) (by omega)
      rw [hmod]
      grind
    · have hmod : (x - y) % (2 * h) = x - y := Int.emod_eq_of_lt (by omega) (by omega)
      rw [hmod]
      grind

/-! ### Stretches -/

/-- `n` instructions, with the bytes they access. -/
def walk (B : Board) (P : Program ι) : ℕ → State → Option (List Access × State)
  | 0, s => some ([], s)
  | n + 1, s => (step B P s).bind fun r => (walk B P n r.2).map fun q => (r.1 ++ q.1, q.2)

/-- Some instructions lead from `s` to `t`, and access the bytes `l`. -/
def Leads (B : Board) (P : Program ι) (s : State) (l : List Access) (t : State) : Prop :=
  ∃ n, walk B P n s = some (l, t)

namespace Leads

variable {s t u : State} {l l' : List Access} {i : Instr ι}

lemma refl (s : State) : Leads B P s [] s := ⟨0, rfl⟩

lemma of_eq (h : s = t) : Leads B P s [] t := h ▸ refl s

/-- An instruction in front of a stretch. -/
lemma head (hi : P.code[s.eip]? = some i) (h : i.exec B P.find s = some t)
    (hrest : Leads B P t l u) : Leads B P s (i.accesses s ++ l) u := by
  obtain ⟨n, hn⟩ := hrest
  refine ⟨n + 1, ?_⟩
  rw [walk, step_of_exec hi h, Option.bind_some, hn]
  rfl

/-- An instruction that accesses no memory. -/
lemma quiet (hi : P.code[s.eip]? = some i) (h : i.exec B P.find s = some t)
    (hacc : i.accesses s = []) (hrest : Leads B P t l u) : Leads B P s l u := by
  have := head hi h hrest
  rwa [hacc] at this

/-- An instruction that accesses memory. -/
lemma touch (hi : P.code[s.eip]? = some i) (h : i.exec B P.find s = some t)
    (hacc : i.accesses s = l) (hrest : Leads B P t l' u) : Leads B P s (l ++ l') u := by
  have := head hi h hrest
  rwa [hacc] at this

lemma trans (h : Leads B P s l t) (h' : Leads B P t l' u) : Leads B P s (l ++ l') u := by
  obtain ⟨n, hn⟩ := h
  induction n generalizing s l with
  | zero =>
      cases hn
      exact h'
  | succ n ih =>
      obtain ⟨⟨acc, s₁⟩, hs, hw⟩ := Option.bind_eq_some_iff.mp hn
      obtain ⟨⟨acc', t₁⟩, hw', hr⟩ := Option.map_eq_some_iff.mp hw
      cases hr
      obtain ⟨i, hi, hex, rfl⟩ := step_exec hs
      have := head hi hex (ih hw')
      rwa [← List.append_assoc] at this

/-- Where the program stops is determined. -/
lemma end_unique (h : Leads B P s l t) (h' : Leads B P s l' u) (ht : step B P t = none)
    (hu : step B P u = none) : t = u := by
  obtain ⟨n, hn⟩ := h
  obtain ⟨k, hk⟩ := h'
  induction n generalizing s l l' k with
  | zero =>
      cases hn
      cases k with
      | zero => cases hk; rfl
      | succ k => rw [walk, ht] at hk; cases hk
  | succ n ih =>
      obtain ⟨⟨acc, s₁⟩, hs, hw⟩ := Option.bind_eq_some_iff.mp hn
      obtain ⟨⟨acc₁, t₁⟩, hrest, hr⟩ := Option.map_eq_some_iff.mp hw
      cases hr
      cases k with
      | zero => cases hk; rw [hu] at hs; cases hs
      | succ k =>
          rw [walk, hs] at hk
          obtain ⟨⟨acc₂, t₂⟩, hrest', hr⟩ := Option.map_eq_some_iff.mp hk
          cases hr
          exact ih hrest k hrest'

end Leads

/-- The state at another place, with other registers, flags, stack and memory. -/
@[simps] def State.moved (s : State) (e : ℕ) (g : R32 → BitVec 32) (f : Flags)
    (st : List Slot) (m : ℕ → BitVec 8) : State where
  eip := e
  reg := g
  seg := s.seg
  flags := f
  intr := s.intr
  stack := st
  mem := m
  port := s.port

lemma eq_moved {s : State} {e : ℕ} {st : List Slot} (he : s.eip = e) (hst : s.stack = st) :
    s = s.moved e s.reg s.flags st s.mem :=
  State.ext he rfl rfl rfl rfl hst rfl rfl

/-- A call. -/
lemma exec_call {find : ι → ℕ} {s : State} {e : ℕ} {g : R32 → BitVec 32} {f : Flags}
    {st : List Slot} {m : ℕ → BitVec 8} (l : ι) : (Instr.call l).exec B find (s.moved e g f st m)
      = some (s.moved (find l) g f (.ret (e + 1) :: st) m) :=
  rfl

end X86

end OperatingSys
