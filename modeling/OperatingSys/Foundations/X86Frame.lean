import OperatingSys.Foundations.X86

/-!
What an instruction depends on, and what it changes.

* `exec_mem`, `toIret_mem`: the memory changes at most in the bytes that are written.
* `exec_withMem`: in a state that differs in some bytes of the memory and in the ports
  alone, an instruction that reads none of these bytes does the same.
* `load_store`: what has been stored is loaded again.
* `toIret_succ`: a handler taken apart at its first instruction.
-/

namespace OperatingSys

namespace X86

variable {ι : Type} {B : Board}

/-- The byte `a` is one of the access. -/
def Board.Covers (B : Board) (x : Access) (a : ℕ) : Prop :=
  ∃ b, B.at x = some b ∧ b ≤ a ∧ a < b + x.len

/-- The state with another memory and other ports. -/
@[simps! -fullyApplied] def State.withMem (s : State) (m : ℕ → BitVec 8)
    (p : BitVec 8 → BitVec 8) : State :=
  (s.setMem m).setPort p

section WithMem

variable (s : State) (m : ℕ → BitVec 8) (p : BitVec 8 → BitVec 8)

@[simp] lemma withMem_self : s.withMem s.mem s.port = s := rfl

@[simp] lemma withMem_withMem (m' : ℕ → BitVec 8) (p' : BitVec 8 → BitVec 8) :
    (s.withMem m p).withMem m' p' = s.withMem m' p' := rfl

end WithMem

/-- The instruction reads a port. -/
def Instr.inputs : Instr ι → Bool
  | .inAl _ => true
  | _ => false

/-- The instruction may read or write memory, or reads a port. -/
def Instr.outward : Instr ι → Bool
  | .mov _ _ | .alu _ _ _ | .stosw | .inAl _ => true
  | _ => false

/-- The other instructions do not depend on the memory and the ports and leave them. -/
lemma exec_inward {find : ι → ℕ} {i : Instr ι} (hi : i.outward = false) (s : State)
    (m : ℕ → BitVec 8) (p : BitVec 8 → BitVec 8) :
    i.exec B find (s.withMem m p) = (i.exec B find s).map fun t => t.withMem m p := by
  cases i with
  | mov d src => cases hi
  | alu op d src => cases hi
  | stosw => cases hi
  | inAl q => cases hi
  | movSeg d r =>
      simp only [Instr.exec, apply_ite (Option.map _)]
      rfl
  | div r =>
      simp only [Instr.exec, Option.map_map]
      rfl
  | pop r =>
      simp only [Instr.exec, State.withMem_stack]
      split <;> rfl
  | popSeg r =>
      simp only [Instr.exec, State.withMem_stack]
      split
      · rw [apply_ite (Option.map _)]
        rfl
      · rfl
  | ret =>
      simp only [Instr.exec, State.withMem_stack]
      split <;> rfl
  | iretd =>
      simp only [Instr.exec, State.withMem_stack]
      split <;> rfl
  | _ => rfl

lemma exec_inward_mem {find : ι → ℕ} {i : Instr ι} (hi : i.outward = false) {s t : State}
    (h : i.exec B find s = some t) : t.mem = s.mem := by
  have hs := @exec_inward _ B find _ hi s s.mem s.port
  rw [withMem_self, h, Option.map_some] at hs
  have ht : t = t.withMem s.mem s.port := Option.some.inj hs
  rw [ht, State.withMem_mem]

/-! ### Instructions with an operand in memory -/

def Opd.isMem {w : ℕ} : Opd w → Bool
  | .mem _ _ _ => true
  | .reg _ | .imm _ => false

def Instr.reads : Instr ι → Bool
  | .mov _ src => src.isMem
  | .alu _ d src => d.isMem || src.isMem
  | _ => false

def Instr.writes : Instr ι → Bool
  | .mov d _ => d.isMem
  | .alu op d _ => op.stores && d.isMem
  | .stosw => true
  | _ => false

lemma access_of_not_mem {w : ℕ} {o : Opd w} {s : State} (h : o.isMem = false) :
    o.access s = [] := by
  cases o with
  | reg r => rfl
  | imm v => rfl
  | mem seg base disp => cases h

lemma reads_of_mem_loads {i : Instr ι} {s : State} {x : Access} (hx : x ∈ i.loads s) :
    i.reads = true := by
  by_contra h
  rw [Bool.not_eq_true] at h
  cases i with
  | mov d src =>
      rw [Instr.loads, access_of_not_mem h] at hx
      cases hx
  | alu op d src =>
      obtain ⟨hd, hs⟩ := Bool.or_eq_false_iff.mp h
      rw [Instr.loads, access_of_not_mem hd, access_of_not_mem hs] at hx
      cases hx
  | _ => cases hx

lemma writes_of_mem_stores {i : Instr ι} {s : State} {x : Access} (hx : x ∈ i.stores s) :
    i.writes = true := by
  by_contra h
  rw [Bool.not_eq_true] at h
  cases i with
  | mov d src =>
      rw [Instr.stores, access_of_not_mem h] at hx
      cases hx
  | alu op d src =>
      rw [Instr.stores] at hx
      split_ifs at hx with hop
      · rw [Instr.writes, hop, Bool.true_and] at h
        rw [access_of_not_mem h] at hx
        cases hx
      · cases hx
  | stosw => cases h
  | _ => cases hx

/-! ### The bytes that are written -/

lemma store_of_not_mem {w : ℕ} {m : ℕ → BitVec 8} {a x : ℕ} {v : BitVec w}
    (h : ¬ (a ≤ x ∧ x < a + w / 8)) : B.store m a v x = m x :=
  if_neg fun hx => h hx.2

lemma write_mem {w : ℕ} {d : Opd w} {v : BitVec w} {s t u : State}
    (h : d.write B v s = some t) (hseg : s.seg = u.seg) (hreg : s.reg = u.reg) {a : ℕ}
    (ha : ∀ x ∈ d.access u, ¬ B.Covers x a) : t.mem a = s.mem a := by
  cases d with
  | reg r =>
      cases h
      rfl
  | imm _ => cases h
  | mem seg base disp =>
      obtain ⟨b, hb, rfl⟩ := Option.map_eq_some_iff.mp h
      rw [hseg, State.offset.eq_def, hreg] at hb
      exact store_of_not_mem fun hx => ha _ List.mem_cons_self ⟨b, hb, hx⟩

/-- An instruction changes the memory at most in the bytes it writes. -/
theorem exec_mem {find : ι → ℕ} {i : Instr ι} {s t : State} (h : i.exec B find s = some t)
    {a : ℕ} (ha : ∀ x ∈ i.stores s, ¬ B.Covers x a) : t.mem a = s.mem a := by
  cases hi : i.outward with
  | false => rw [exec_inward_mem hi h]
  | true =>
    cases i with
    | mov d src =>
        obtain ⟨v, -, hw⟩ := Option.bind_eq_some_iff.mp h
        exact write_mem (u := s) hw rfl rfl ha
    | alu op d src =>
        obtain ⟨v, -, h⟩ := Option.bind_eq_some_iff.mp h
        obtain ⟨v', -, h⟩ := Option.bind_eq_some_iff.mp h
        split_ifs at h with hop
        · refine write_mem (u := s) h rfl rfl fun x hx => ha x ?_
          rw [Instr.stores, if_pos hop]
          exact hx
        · cases h
          rfl
    | stosw =>
        obtain ⟨t', hw, rfl⟩ := Option.map_eq_some_iff.mp h
        exact write_mem (u := s) hw rfl rfl ha
    | inAl q =>
        cases h
        rfl
    | _ => cases hi

/-! ### The registers that are written -/

/-- The register an operand stands for. -/
def Opd.whole {w : ℕ} : Opd w → List R32
  | .reg r => [r.whole]
  | .imm _ => []
  | .mem _ _ _ => []

/-- The registers an instruction may change. -/
def Instr.changes : Instr ι → List R32
  | .mov d _ => d.whole
  | .alu _ d _ => d.whole
  | .inc r => [r]
  | .ror r _ => [r.whole]
  | .div _ => [.eax, .edx]
  | .pop r => [r]
  | .stosw => [.edi]
  | .loop _ => [.ecx]
  | .inAl _ => [.eax]
  | _ => []

lemma write_reg {w : ℕ} {d : Opd w} {v : BitVec w} {s t : State} {r : R32}
    (h : d.write B v s = some t) (hr : r ∉ d.whole) : t.reg r = s.reg r := by
  cases d with
  | reg r' =>
      cases h
      exact Function.update_of_ne (List.ne_of_not_mem_cons hr) _ _
  | imm _ => cases h
  | mem seg base disp =>
      obtain ⟨b, -, rfl⟩ := Option.map_eq_some_iff.mp h
      rfl

/-- An instruction keeps the other registers. -/
theorem exec_reg {find : ι → ℕ} {i : Instr ι} {s t : State} {r : R32}
    (h : i.exec B find s = some t) (hr : r ∉ i.changes) : t.reg r = s.reg r := by
  cases i with
  | mov d src =>
      obtain ⟨v, -, hw⟩ := Option.bind_eq_some_iff.mp h
      exact (write_reg hw hr).trans rfl
  | alu op d src =>
      obtain ⟨v, -, h⟩ := Option.bind_eq_some_iff.mp h
      obtain ⟨v', -, h⟩ := Option.bind_eq_some_iff.mp h
      split_ifs at h with hop
      · exact (write_reg h hr).trans rfl
      · cases h
        rfl
  | inc q =>
      cases h
      exact Function.update_of_ne (List.ne_of_not_mem_cons hr) _ _
  | ror q n =>
      cases h
      exact Function.update_of_ne (List.ne_of_not_mem_cons hr) _ _
  | div q =>
      obtain ⟨qr, -, rfl⟩ := Option.map_eq_some_iff.mp h
      -- the quotient goes to one register, the rest to the other
      have ha : r ≠ .eax := List.ne_of_not_mem_cons hr
      have hd : r ≠ .edx := List.ne_of_not_mem_cons (List.not_mem_of_not_mem_cons hr)
      exact (Function.update_of_ne hd _ _).trans (Function.update_of_ne ha _ _)
  | stosw =>
      obtain ⟨t', hw, rfl⟩ := Option.map_eq_some_iff.mp h
      have hw' := write_reg (r := r) hw List.not_mem_nil
      exact (Function.update_of_ne (List.ne_of_not_mem_cons hr) _ _).trans hw'
  | loop l =>
      cases h
      exact Function.update_of_ne (List.ne_of_not_mem_cons hr) _ _
  | inAl p =>
      cases h
      exact Function.update_of_ne (List.ne_of_not_mem_cons hr) _ _
  | movSeg d q =>
      simp only [Instr.exec] at h
      split_ifs at h
      cases h
      rfl
  | pop q =>
      simp only [Instr.exec] at h
      split at h <;> cases h
      exact Function.update_of_ne (List.ne_of_not_mem_cons hr) _ _
  | popSeg q =>
      simp only [Instr.exec] at h
      split at h
      · split_ifs at h
        cases h
        rfl
      · cases h
  | ret =>
      simp only [Instr.exec] at h
      split at h <;> cases h
      rfl
  | iretd =>
      simp only [Instr.exec] at h
      split at h <;> cases h
      rfl
  | jmpFar => cases h
  | _ =>
      cases h
      rfl

/-! ### The bytes that are read -/

lemma bytes_congr {m m' : ℕ → BitVec 8} {a n : ℕ} (h : ∀ b, a ≤ b → b < a + n → m' b = m b) :
    bytes m' a n = bytes m a n := by
  induction n generalizing a with
  | zero => rfl
  | succ n ih =>
      rw [bytes, bytes, h a le_rfl (by omega), ih fun b hb hlt => h b (by omega) (by omega)]

lemma load_congr {w : ℕ} {m m' : ℕ → BitVec 8} {a : ℕ}
    (h : ∀ b, a ≤ b → b < a + w / 8 → m' b = m b) : load w m' a = load w m a :=
  congrArg (BitVec.ofNat w) (bytes_congr h)

/-- The bytes of a value that has been stored in the memory that is there. -/
lemma bytes_store {w : ℕ} {m : ℕ → BitVec 8} {a : ℕ} {v : BitVec w} (hram : a + w / 8 ≤ B.ram) :
    ∀ n j, j + n ≤ w / 8 →
      bytes (B.store m a v) (a + j) n = v.toNat / 2 ^ (8 * j) % 2 ^ (8 * n)
  | 0, j, _ => by rw [bytes, Nat.mul_zero, Nat.pow_zero, Nat.mod_one]
  | n + 1, j, hj => by
      have hbyte : B.store m a v (a + j) = v.extractLsb' (8 * j) 8 := by
        rw [Board.store, if_pos ⟨by omega, by omega, by omega⟩, Nat.add_sub_cancel_left]
      have hrest := bytes_store (m := m) (v := v) hram n (j + 1) (by omega)
      have hdiv : v.toNat / 2 ^ (8 * (j + 1)) = v.toNat / 2 ^ (8 * j) / 256 := by
        rw [Nat.mul_add, Nat.pow_add, Nat.div_div_eq_div_mul]
      rw [bytes, hbyte, BitVec.extractLsb'_toNat, Nat.shiftRight_eq_div_pow, Nat.add_assoc, hrest,
        hdiv, Nat.mul_add, Nat.add_comm (8 * n), Nat.pow_add, Nat.mod_mul]

/-- What has been stored is loaded again. -/
lemma load_store {w : ℕ} {m : ℕ → BitVec 8} {a : ℕ} {v : BitVec w} (hw : 8 * (w / 8) = w)
    (hram : a + w / 8 ≤ B.ram) : load w (B.store m a v) a = v := by
  have h := bytes_store (m := m) (v := v) hram (w / 8) 0 (by omega)
  rw [Nat.add_zero, Nat.mul_zero, Nat.pow_zero, Nat.div_one, hw, Nat.mod_eq_of_lt v.isLt] at h
  rw [load, h, BitVec.ofNat_toNat, BitVec.setWidth_eq]

section Alike

variable {P : ℕ → Prop} {m : ℕ → BitVec 8} {p : BitVec 8 → BitVec 8}

lemma read_withMem {w : ℕ} {src : Opd w} {s : State} (hm : ∀ a, ¬ P a → m a = s.mem a)
    (hr : ∀ x ∈ src.access s, ∀ a, B.Covers x a → ¬ P a) :
    src.read B (s.withMem m p) = src.read B s := by
  cases src with
  | reg r => rfl
  | imm v => rfl
  | mem seg base disp =>
      refine Option.map_congr fun b hb => ?_
      exact load_congr fun a ha hlt => hm a (hr _ List.mem_cons_self a ⟨b, hb, ha, hlt⟩)

lemma write_withMem {w : ℕ} {d : Opd w} {v : BitVec w} {s t : State}
    (hm : ∀ a, ¬ P a → m a = s.mem a) (h : d.write B v s = some t) :
    ∃ m', d.write B v (s.withMem m p) = some (t.withMem m' p) ∧ ∀ a, ¬ P a → m' a = t.mem a := by
  cases d with
  | reg r =>
      cases h
      exact ⟨m, rfl, hm⟩
  | imm v => cases h
  | mem seg base disp =>
      obtain ⟨b, hb, rfl⟩ := Option.map_eq_some_iff.mp h
      refine ⟨B.store m b v, ?_, fun a ha => ?_⟩
      · exact Option.map_eq_some_iff.mpr ⟨b, hb, rfl⟩
      · simp only [Board.store, State.setMem_mem, hm a ha]

/-- **An instruction depends on what it reads**: in a state with other bytes in `P`, and
other ports, an instruction that reads no byte of `P` and no port does the same. -/
theorem exec_withMem {find : ι → ℕ} {i : Instr ι} {s t : State}
    (hm : ∀ a, ¬ P a → m a = s.mem a) (hr : ∀ x ∈ i.loads s, ∀ a, B.Covers x a → ¬ P a)
    (hin : i.inputs = false) (h : i.exec B find s = some t) :
    ∃ m', i.exec B find (s.withMem m p) = some (t.withMem m' p) ∧ ∀ a, ¬ P a → m' a = t.mem a := by
  cases hi : i.outward with
  | false =>
      -- it neither reads nor writes the memory
      refine ⟨m, ?_, fun a ha => ?_⟩
      · rw [exec_inward hi, h, Option.map_some]
      · rw [exec_inward_mem hi h, hm a ha]
  | true =>
    cases i with
    | mov d src =>
        obtain ⟨v, hv, hw⟩ := Option.bind_eq_some_iff.mp h
        obtain ⟨m', hw', hm'⟩ := write_withMem (s := s.next) (p := p) hm hw
        exact ⟨m', Option.bind_eq_some_iff.mpr ⟨v, (read_withMem hm hr).trans hv, hw'⟩, hm'⟩
    | alu op d src =>
        obtain ⟨v, hv, h⟩ := Option.bind_eq_some_iff.mp h
        obtain ⟨v', hv', h⟩ := Option.bind_eq_some_iff.mp h
        have hd : d.read B (s.withMem m p) = some v :=
          (read_withMem hm fun x hx => hr x (List.mem_append_left _ hx)).trans hv
        have hs : src.read B (s.withMem m p) = some v' :=
          (read_withMem hm fun x hx => hr x (List.mem_append_right _ hx)).trans hv'
        simp only [Instr.exec, hd, hs, Option.bind_some]
        split_ifs at h ⊢ with hop
        · exact write_withMem (s := s.next.setFlags (op.flags v v')) hm h
        · cases h
          exact ⟨m, rfl, hm⟩
    | stosw =>
        obtain ⟨t', hw, rfl⟩ := Option.map_eq_some_iff.mp h
        obtain ⟨m', hw', hm'⟩ := write_withMem (s := s.next) (p := p) hm hw
        exact ⟨m', Option.map_eq_some_iff.mpr ⟨_, hw', rfl⟩, hm'⟩
    | inAl q => cases hin
    | _ => cases hi

end Alike

/-! ### Steps and handlers -/

section Step

variable {P : Program ι} {s t : State} {acc : List Access}

/-- The instruction behind a step. -/
lemma step_exec (h : step B P s = some (acc, t)) :
    ∃ i, P.code[s.eip]? = some i ∧ i.exec B P.find s = some t ∧ acc = i.accesses s := by
  obtain ⟨i, hi, h⟩ := Option.bind_eq_some_iff.mp h
  obtain ⟨u, hu, hr⟩ := Option.map_eq_some_iff.mp h
  cases hr
  exact ⟨i, hi, hu, rfl⟩

lemma step_of_exec {i : Instr ι} (hi : P.code[s.eip]? = some i) (h : i.exec B P.find s = some t) :
    step B P s = some (i.accesses s, t) := by
  rw [step, hi, Option.bind_some, h]
  rfl

lemma step_mem (h : step B P s = some (acc, t)) {a : ℕ} (ha : ∀ x ∈ acc, ¬ B.Covers x a) :
    t.mem a = s.mem a := by
  obtain ⟨i, -, hex, rfl⟩ := step_exec h
  exact exec_mem hex fun x hx => ha x (List.mem_append_right _ hx)

/-- A run up to `iretd` taken apart: its first instruction is the `iretd`, or the run
goes on behind it. -/
lemma toIret_succ {n : ℕ} (h : toIret B P (n + 1) s = some (acc, t)) :
    ∃ acc₁ s₁, step B P s = some (acc₁, s₁) ∧
      ((returns P s = true ∧ acc = acc₁ ∧ t = s₁) ∨ (returns P s = false
        ∧ ∃ acc₂, toIret B P n s₁ = some (acc₂, t) ∧ acc = acc₁ ++ acc₂)) := by
  obtain ⟨⟨acc₁, s₁⟩, hs, h⟩ := Option.bind_eq_some_iff.mp h
  refine ⟨acc₁, s₁, hs, ?_⟩
  cases hret : returns P s with
  | true =>
      rw [if_pos hret] at h
      cases h
      exact Or.inl ⟨rfl, rfl, rfl⟩
  | false =>
      rw [if_neg (by simp [hret])] at h
      obtain ⟨⟨acc₂, t₂⟩, h₂, hr⟩ := Option.map_eq_some_iff.mp h
      cases hr
      exact Or.inr ⟨rfl, acc₂, h₂, rfl⟩

/-- A handler changes the memory at most in the bytes it accesses. -/
theorem toIret_mem {n : ℕ} (h : toIret B P n s = some (acc, t)) {a : ℕ}
    (ha : ∀ x ∈ acc, ¬ B.Covers x a) : t.mem a = s.mem a := by
  induction n generalizing s acc with
  | zero => cases h
  | succ n ih =>
      obtain ⟨acc₁, s₁, hs, ⟨-, rfl, rfl⟩ | ⟨-, acc₂, h₂, rfl⟩⟩ := toIret_succ h
      · exact step_mem hs ha
      · rw [ih h₂ fun x hx => ha x (List.mem_append_right _ hx),
          step_mem hs fun x hx => ha x (List.mem_append_left _ hx)]

end Step

end X86

end OperatingSys
