import OperatingSys.Foundations.X86Run

/-!
Notes on a program: at every place the selectors in `ds` and `es`, the content of `ax`
where it is known, and the shape of the stack.

`Instr.after` works out what is known behind an instruction, at each place it may lead to,
and is right about it (`exec_after`). `checks` compares that with the notes, and where it
finds nothing wrong a step keeps to them (`Annotated.step`).
-/

namespace OperatingSys

namespace X86

/-! ### Notes -/

/-- What is known at a place. On the stack, `none` stands for some register. -/
structure Note where
  ds : BitVec 16
  es : BitVec 16
  ax : Option (BitVec 16)
  stack : List (Option Slot)
  deriving DecidableEq

/-- A stack is of a shape. -/
def Fits : List (Option Slot) → List Slot → Prop
  | [], st => st = []
  | none :: p, st => ∃ v st', st = .word v :: st' ∧ Fits p st'
  | some x :: p, st => ∃ st', st = x :: st' ∧ Fits p st'

/-- A state is as it is noted. -/
structure Typed (a : Note) (s : State) : Prop where
  ds : s.seg .ds = a.ds
  es : s.seg .es = a.es
  ax : ∀ v, a.ax = some v → s.get (.r16 .eax) = v
  stack : Fits a.stack s.stack

/-- The note without the content of `ax`. -/
def Note.anyAx (a : Note) : Note := { a with ax := none }

def Note.setSeg (a : Note) (r : Sreg) (v : BitVec 16) : Note :=
  match r with
  | .ds => { a with ds := v }
  | .es => { a with es := v }

def Note.seg (a : Note) : Sreg → BitVec 16
  | .ds => a.ds
  | .es => a.es

/-! ### What is known behind an instruction -/

variable {ι : Type}

/-- The content of `ax` behind a `mov`. -/
def movedAx : {w : ℕ} → Opd w → Opd w → Option (BitVec 16)
  | _, .reg (.r16 .eax), .imm v => some v
  | _, _, _ => none

/-- The places an instruction at `e` may lead to, with what is known there; `none` where
nothing can be said. -/
def Instr.after (find : ι → ℕ) (e : ℕ) (a : Note) : Instr ι → Option (List (ℕ × Note))
  | .mov d src => some [(e + 1, { a with ax := movedAx d src })]
  | .movSeg d .eax => a.ax.map fun v => [(e + 1, a.setSeg d v)]
  | .movSeg _ _ => none
  | .alu _ _ _ => some [(e + 1, a.anyAx)]
  | .inc _ => some [(e + 1, a.anyAx)]
  | .ror _ _ => some [(e + 1, a.anyAx)]
  | .div _ => some [(e + 1, a.anyAx)]
  | .push _ => some [(e + 1, { a with stack := none :: a.stack })]
  | .pop _ =>
      match a.stack with
      | none :: p => some [(e + 1, { a with ax := none, stack := p })]
      | _ => none
  | .pushSeg r =>
      some [(e + 1, { a with stack := some (.word ((a.seg r).setWidth 32)) :: a.stack })]
  | .popSeg r =>
      match a.stack with
      | some (.word v) :: p => some [(e + 1, { a.setSeg r (v.setWidth 16) with stack := p })]
      | _ => none
  | .stosw => some [(e + 1, a.anyAx)]
  | .loop l => some [(e + 1, a), (find l, a)]
  | .jcc _ l => some [(e + 1, a), (find l, a)]
  | .jmp l => some [(find l, a)]
  | .jmpFar => some []
  | .call l => some [(find l, { a with stack := some (.ret (e + 1)) :: a.stack })]
  | .ret =>
      match a.stack with
      | some (.ret e') :: p => some [(e', { a with stack := p })]
      | _ => none
  | .iretd => none
  | .inAl _ => some [(e + 1, a.anyAx)]
  | .outAl _ => some [(e + 1, a)]
  | .cli => some [(e + 1, a)]

section Rules

variable {B : Board} {find : ι → ℕ} {a : Note} {s t : State}

lemma Typed.anyAx (h : Typed a s) (hseg : t.seg = s.seg) (hstack : t.stack = s.stack) :
    Typed a.anyAx t where
  ds := hseg ▸ h.ds
  es := hseg ▸ h.es
  ax := fun _ hv => by cases hv
  stack := hstack ▸ h.stack

lemma Typed.same (h : Typed a s) (hseg : t.seg = s.seg) (hstack : t.stack = s.stack)
    (hax : t.get (.r16 .eax) = s.get (.r16 .eax)) : Typed a t where
  ds := hseg ▸ h.ds
  es := hseg ▸ h.es
  ax := fun v hv => hax.trans (h.ax v hv)
  stack := hstack ▸ h.stack

lemma Typed.seg (h : Typed a s) (r : Sreg) : s.seg r = a.seg r := by
  cases r with
  | ds => exact h.ds
  | es => exact h.es

lemma Typed.setSeg {r : Sreg} {v : BitVec 16} (h : Typed a s)
    (hseg : t.seg = Function.update s.seg r v) (hstack : t.stack = s.stack)
    (hreg : ∀ q : R32, t.reg q = s.reg q) : Typed (a.setSeg r v) t where
  ds := by
    rw [hseg]
    cases r with
    | ds => rfl
    | es => exact h.ds
  es := by
    rw [hseg]
    cases r with
    | ds => exact h.es
    | es => rfl
  ax := fun w hw => by
    rw [State.get, hreg]
    refine h.ax w ?_
    cases r <;> exact hw
  stack := by
    rw [hstack]
    cases r <;> exact h.stack

lemma Typed.withStack {p : List (Option Slot)} {st : List Slot} (h : Typed a s) (hst : Fits p st) :
    Typed { a with stack := p } (s.setStack st) :=
  ⟨h.ds, h.es, h.ax, hst⟩

lemma write_keeps {w : ℕ} {d : Opd w} {v : BitVec w} (h : d.write B v s = some t) :
    t.eip = s.eip ∧ t.seg = s.seg ∧ t.stack = s.stack := by
  cases d with
  | reg r =>
      cases h
      exact ⟨rfl, rfl, rfl⟩
  | imm _ => cases h
  | mem seg base disp =>
      obtain ⟨b, -, rfl⟩ := Option.map_eq_some_iff.mp h
      exact ⟨rfl, rfl, rfl⟩

lemma get_of_movedAx {w : ℕ} {d src : Opd w} {v : BitVec 16} (hv : movedAx d src = some v)
    (hex : (Instr.mov d src).exec B find s = some t) : t.get (.r16 .eax) = v := by
  unfold movedAx at hv
  split at hv
  · cases hv
    cases hex
    exact get_set_self _ _ _
  · cases hv

/-- **What is said behind an instruction is right.** -/
theorem exec_after {i : Instr ι} {l : List (ℕ × Note)} (h : Typed a s)
    (hex : i.exec B find s = some t) (ha : i.after find s.eip a = some l) :
    ∃ q ∈ l, t.eip = q.1 ∧ Typed q.2 t := by
  cases i with
  | mov d src =>
      obtain ⟨v, hv, hw⟩ := Option.bind_eq_some_iff.mp hex
      obtain ⟨heip, hseg, hstack⟩ := write_keeps hw
      cases ha
      refine ⟨_, List.mem_singleton_self _, heip, ⟨hseg ▸ h.ds, hseg ▸ h.es, fun v hv => ?_,
        hstack ▸ h.stack⟩⟩
      exact get_of_movedAx hv hex
  | movSeg d r =>
      cases r with
      | eax =>
          obtain ⟨v, hv, rfl⟩ := Option.map_eq_some_iff.mp ha
          simp only [Instr.exec] at hex
          split_ifs at hex
          cases hex
          rw [h.ax v hv]
          refine ⟨_, List.mem_singleton_self _, rfl, ?_⟩
          exact h.setSeg rfl rfl fun _ => rfl
      | _ => cases ha
  | alu op d src =>
      cases ha
      obtain ⟨v, -, hex⟩ := Option.bind_eq_some_iff.mp hex
      obtain ⟨v', -, hex⟩ := Option.bind_eq_some_iff.mp hex
      split_ifs at hex with hop
      · obtain ⟨heip, hseg, hstack⟩ := write_keeps hex
        exact ⟨_, List.mem_singleton_self _, heip, h.anyAx hseg hstack⟩
      · cases hex
        exact ⟨_, List.mem_singleton_self _, rfl, h.anyAx rfl rfl⟩
  | inc r =>
      cases ha
      cases hex
      exact ⟨_, List.mem_singleton_self _, rfl, h.anyAx rfl rfl⟩
  | ror r n =>
      cases ha
      cases hex
      exact ⟨_, List.mem_singleton_self _, rfl, h.anyAx rfl rfl⟩
  | div r =>
      cases ha
      obtain ⟨q, -, rfl⟩ := Option.map_eq_some_iff.mp hex
      exact ⟨_, List.mem_singleton_self _, rfl, h.anyAx rfl rfl⟩
  | push r =>
      cases ha
      cases hex
      exact ⟨_, List.mem_singleton_self _, rfl, ⟨h.ds, h.es, h.ax, _, _, rfl, h.stack⟩⟩
  | pop r =>
      simp only [Instr.after] at ha
      split at ha
      · next p hp =>
          cases ha
          -- the return address is not taken for a value
          obtain ⟨v, st, hst, hfits⟩ := hp ▸ h.stack
          simp only [Instr.exec, hst] at hex
          cases hex
          refine ⟨_, List.mem_singleton_self _, rfl, ⟨h.ds, h.es, fun _ hv => ?_, hfits⟩⟩
          cases hv
      · cases ha
  | pushSeg r =>
      cases ha
      cases hex
      refine ⟨_, List.mem_singleton_self _, rfl, ⟨h.ds, h.es, h.ax, s.stack, ?_, h.stack⟩⟩
      rw [← h.seg r]
      rfl
  | popSeg r =>
      simp only [Instr.after] at ha
      split at ha
      · next v p hp =>
          cases ha
          obtain ⟨st, hst, hfits⟩ := hp ▸ h.stack
          simp only [Instr.exec, hst] at hex
          split_ifs at hex
          cases hex
          refine ⟨_, List.mem_singleton_self _, rfl, ?_⟩
          have hseg := h.setSeg (t := s.next.setSeg r (v.setWidth 16)) rfl rfl fun _ => rfl
          exact hseg.withStack hfits
      · cases ha
  | stosw =>
      cases ha
      obtain ⟨t', hw, rfl⟩ := Option.map_eq_some_iff.mp hex
      obtain ⟨heip, hseg, hstack⟩ := write_keeps hw
      exact ⟨_, List.mem_singleton_self _, heip, h.anyAx hseg hstack⟩
  | loop l =>
      cases ha
      cases hex
      -- it leaves the loop, or goes back
      by_cases hz : s.reg .ecx - 1 = 0
      · refine ⟨_, List.mem_cons_self, ?_, h.same rfl rfl rfl⟩
        exact if_pos hz
      · refine ⟨_, List.mem_cons_of_mem _ (List.mem_singleton_self _), ?_, h.same rfl rfl rfl⟩
        exact if_neg hz
  | jcc c l =>
      cases ha
      cases hex
      cases hc : c.holds s.flags with
      | false =>
          exact ⟨_, List.mem_cons_self, rfl, h.same rfl rfl rfl⟩
      | true =>
          exact ⟨_, List.mem_cons_of_mem _ (List.mem_singleton_self _), rfl, h.same rfl rfl rfl⟩
  | jmp l =>
      cases ha
      cases hex
      exact ⟨_, List.mem_singleton_self _, rfl, h.same rfl rfl rfl⟩
  | jmpFar => cases hex
  | call l =>
      cases ha
      cases hex
      exact ⟨_, List.mem_singleton_self _, rfl, ⟨h.ds, h.es, h.ax, _, rfl, h.stack⟩⟩
  | ret =>
      simp only [Instr.after] at ha
      split at ha
      · next e' p hp =>
          cases ha
          obtain ⟨st, hst, hfits⟩ := hp ▸ h.stack
          simp only [Instr.exec, hst] at hex
          cases hex
          exact ⟨_, List.mem_singleton_self _, rfl, ⟨h.ds, h.es, h.ax, hfits⟩⟩
      · cases ha
  | iretd => cases ha
  | inAl p =>
      cases ha
      cases hex
      exact ⟨_, List.mem_singleton_self _, rfl, h.anyAx rfl rfl⟩
  | outAl p =>
      cases ha
      cases hex
      exact ⟨_, List.mem_singleton_self _, rfl, h.same rfl rfl rfl⟩
  | cli =>
      cases ha
      cases hex
      exact ⟨_, List.mem_singleton_self _, rfl, h.same rfl rfl rfl⟩

end Rules

/-! ### Notes on a program -/

/-- A shape says no more than another. -/
def shapeLe : List (Option Slot) → List (Option Slot) → Bool
  | [], [] => true
  | none :: p, some (.word _) :: q => shapeLe p q
  | x :: p, y :: q => x == y && shapeLe p q
  | _, _ => false

/-- A note says no more than another. -/
def Note.le (a b : Note) : Bool :=
  a.ds == b.ds && a.es == b.es && (a.ax == none || a.ax == b.ax) && shapeLe a.stack b.stack

lemma Fits.weaken {p q : List (Option Slot)} {st : List Slot} (h : Fits q st)
    (hle : shapeLe p q = true) : Fits p st := by
  induction p generalizing q st with
  | nil =>
      cases q with
      | nil => exact h
      | cons y q => cases hle
  | cons x p ih =>
      cases q with
      | nil => cases x <;> cases hle
      | cons y q =>
          -- where the slots are the same the rest decides
          have hsame : (x == y && shapeLe p q) = true → Fits (x :: p) st := by
            intro hxy
            rw [Bool.and_eq_true, beq_iff_eq] at hxy
            obtain ⟨rfl, hpq⟩ := hxy
            cases x with
            | none =>
                obtain ⟨v, st', hst, hfits⟩ := h
                exact ⟨v, st', hst, ih hfits hpq⟩
            | some x =>
                obtain ⟨st', hst, hfits⟩ := h
                exact ⟨st', hst, ih hfits hpq⟩
          cases x with
          | some x => exact hsame hle
          | none =>
              rcases y with _ | ⟨v⟩ | e | ⟨e, f, b⟩
              · exact hsame hle
              · obtain ⟨st', hst, hfits⟩ := h
                exact ⟨v, st', hst, ih hfits hle⟩
              · exact hsame hle
              · exact hsame hle

lemma Typed.weaken {a b : Note} {s : State} (h : Typed b s) (hle : a.le b = true) : Typed a s := by
  simp only [Note.le, Bool.and_eq_true, Bool.or_eq_true, beq_iff_eq] at hle
  obtain ⟨⟨⟨hds, hes⟩, hax⟩, hstack⟩ := hle
  refine ⟨hds ▸ h.ds, hes ▸ h.es, fun v hv => ?_, h.stack.weaken hstack⟩
  rcases hax with hax | hax
  · rw [hax] at hv
    cases hv
  · exact h.ax v (hax ▸ hv)

variable {B : Board} (P : Program ι) (notes : ℕ → Option Note)

/-- What is noted at a place agrees with the instruction there. -/
def checks (e : ℕ) : Bool :=
  match notes e with
  | none => true
  | some a =>
      match (P.code[e]?).bind fun i => i.after P.find e a with
      | none => false
      | some l => l.all fun q =>
          match notes q.1 with
          | none => false
          | some b => b.le q.2

variable {P notes}

/-- A state is as it is noted at its place. -/
def Annotated (notes : ℕ → Option Note) (s : State) : Prop := ∃ a, notes s.eip = some a ∧ Typed a s

/-- **A step keeps to the notes** where they agree with the program; and it leads to a
place that the instruction may lead to. -/
theorem Annotated.step (hc : ∀ e, checks P notes e = true) {s t : State} {i : Instr ι}
    (h : Annotated notes s) (hi : P.code[s.eip]? = some i) (hex : i.exec B P.find s = some t) :
    Annotated notes t ∧ ∃ a l, notes s.eip = some a ∧ i.after P.find s.eip a = some l
      ∧ ∃ q ∈ l, t.eip = q.1 := by
  obtain ⟨a, ha, htyped⟩ := h
  have hcheck := hc s.eip
  rw [checks, ha, hi] at hcheck
  simp only [Option.bind_some] at hcheck
  split at hcheck
  · cases hcheck
  · next l hl =>
      obtain ⟨q, hq, heip, htyped'⟩ := exec_after htyped hex hl
      have hle := List.all_eq_true.mp hcheck q hq
      split at hle
      · cases hle
      · next b hb =>
          refine ⟨⟨b, heip ▸ hb, htyped'.weaken hle⟩, a, l, ha, hl, q, hq, heip⟩

end X86

end OperatingSys
