import Mathlib.Tactic

/-!
A part of the 32-bit x86 instruction set in protected mode.

A program is a list of labelled instructions and `eip` a place in it. Data is reached
through a segment register: its selector names a descriptor, an offset past the limit is
a fault, and the descriptor's base is added to the rest. The memory has `ram` bytes, and
what is stored behind them is lost. The stack is kept apart from the memory, and the
direction flag is clear.

* `Reg`, `Opd`, `Instr`: registers, operands and instructions.
* `State`, `Board`: the state of the processor with its memory, and what it is built
  into: the descriptors and the size of the memory.
* `Instr.exec`: one instruction, `none` for a fault; `Instr.loads` and `Instr.stores`
  are the bytes it reads and writes.
* `step`, `interrupt`, `toIret`: the instruction at `eip`, the delivery of an interrupt,
  and its handler up to `iretd`.
-/

namespace OperatingSys

namespace X86

/-! ### Registers -/

inductive R32 where
  | eax | ebx | ecx | edx | esi | edi
  deriving DecidableEq, Repr

inductive Sreg where
  | ds | es
  deriving DecidableEq, Repr

/-- A register of `w` bits: a whole one, its low half, or one of the bytes of that. -/
inductive Reg : ℕ → Type
  | r32 (r : R32) : Reg 32
  | r16 (r : R32) : Reg 16
  | lo (r : R32) : Reg 8
  | hi (r : R32) : Reg 8
  deriving DecidableEq

/-- The register it is a part of. -/
def Reg.whole : {w : ℕ} → Reg w → R32
  | _, .r32 r => r
  | _, .r16 r => r
  | _, .lo r => r
  | _, .hi r => r

/-- The part of a value. -/
def Reg.of : {w : ℕ} → Reg w → BitVec 32 → BitVec w
  | _, .r32 _, x => x
  | _, .r16 _, x => x.extractLsb' 0 16
  | _, .lo _, x => x.extractLsb' 0 8
  | _, .hi _, x => x.extractLsb' 8 8

/-- The value with the part replaced. -/
def Reg.put : {w : ℕ} → Reg w → BitVec w → BitVec 32 → BitVec 32
  | _, .r32 _, v, _ => v
  | _, .r16 _, v, x => x.extractLsb' 16 16 ++ v
  | _, .lo _, v, x => x.extractLsb' 8 24 ++ v
  | _, .hi _, v, x => (x.extractLsb' 16 16 ++ v) ++ x.extractLsb' 0 8

/-! ### Instructions -/

/-- An operand of `w` bits. An address is a register, if one is named, and a
displacement. -/
inductive Opd (w : ℕ) where
  | reg (r : Reg w)
  | imm (v : BitVec w)
  | mem (seg : Sreg) (base : Option R32) (disp : BitVec 32)
  deriving DecidableEq

inductive Alu where
  | add | sub | cmp | and | or | xor | test
  deriving DecidableEq, Repr

/-- The conditions of `jz`, `jne`, `jl` and `ja`. -/
inductive Cond where
  | z | ne | l | a
  deriving DecidableEq, Repr

/-- The instructions, with labels in `ι`. `inAl` reads a port and `outAl` writes one;
`jmpFar` leaves the program. -/
inductive Instr (ι : Type) where
  | mov {w : ℕ} (d src : Opd w)
  | movSeg (d : Sreg) (r : R32)
  | alu {w : ℕ} (op : Alu) (d src : Opd w)
  | inc (r : R32)
  | ror {w : ℕ} (r : Reg w) (n : ℕ)
  | div (r : R32)
  | push (r : R32)
  | pop (r : R32)
  | pushSeg (r : Sreg)
  | popSeg (r : Sreg)
  | stosw
  | loop (l : ι)
  | jcc (c : Cond) (l : ι)
  | jmp (l : ι)
  | jmpFar
  | call (l : ι)
  | ret
  | iretd
  | inAl (port : BitVec 8)
  | outAl (port : BitVec 8)
  | cli

/-! ### States -/

structure Flags where
  carry : Bool
  zero : Bool
  sign : Bool
  overflow : Bool
  deriving DecidableEq, Repr

/-- What is on the stack: a register, a return address, or the frame of an interrupt
with the flags and the interrupt flag. -/
inductive Slot where
  | word (v : BitVec 32)
  | ret (eip : ℕ)
  | frame (eip : ℕ) (flags : Flags) (intr : Bool)
  deriving DecidableEq, Repr

/-- The processor, its stack, its memory and what its ports deliver. -/
@[ext]
structure State where
  eip : ℕ
  reg : R32 → BitVec 32
  seg : Sreg → BitVec 16
  flags : Flags
  intr : Bool
  stack : List Slot
  mem : ℕ → BitVec 8
  port : BitVec 8 → BitVec 8

/-- A segment: its linear base and its last offset. -/
structure Descr where
  base : ℕ
  limit : ℕ
  fits : base + limit < 2 ^ 32

/-- The descriptors, by selector, and the number of bytes of memory. -/
structure Board where
  gdt : BitVec 16 → Option Descr
  ram : ℕ

/-- Some bytes of a segment. -/
structure Access where
  sel : BitVec 16
  off : ℕ
  len : ℕ
  deriving DecidableEq, Repr

/-- Their linear address, if they lie inside the limit. -/
def Board.at (B : Board) (x : Access) : Option ℕ :=
  (B.gdt x.sel).bind fun d => if x.off + x.len ≤ d.limit + 1 then some (d.base + x.off) else none

/-- The number in `n` bytes, the lowest first. -/
def bytes (m : ℕ → BitVec 8) (a : ℕ) : ℕ → ℕ
  | 0 => 0
  | n + 1 => (m a).toNat + 256 * bytes m (a + 1) n

/-- The value of `w` bits at an address. -/
def load (w : ℕ) (m : ℕ → BitVec 8) (a : ℕ) : BitVec w := BitVec.ofNat w (bytes m a (w / 8))

/-- The memory after a value of `w` bits has been stored. -/
def Board.store {w : ℕ} (B : Board) (m : ℕ → BitVec 8) (a : ℕ) (v : BitVec w) (x : ℕ) : BitVec 8 :=
  if x < B.ram ∧ a ≤ x ∧ x < a + w / 8 then v.extractLsb' (8 * (x - a)) 8 else m x

namespace State

variable (s : State)

@[simps -fullyApplied] def goto (e : ℕ) : State := { s with eip := e }

/-- The next place. -/
@[simps! -fullyApplied] def next : State := s.goto (s.eip + 1)

def get {w : ℕ} (r : Reg w) : BitVec w := r.of (s.reg r.whole)

@[simps -fullyApplied] def set {w : ℕ} (r : Reg w) (v : BitVec w) : State :=
  { s with reg := Function.update s.reg r.whole (r.put v (s.reg r.whole)) }

@[simps -fullyApplied] def setSeg (r : Sreg) (v : BitVec 16) : State :=
  { s with seg := Function.update s.seg r v }

@[simps -fullyApplied] def setFlags (f : Flags) : State := { s with flags := f }

@[simps -fullyApplied] def setIntr (b : Bool) : State := { s with intr := b }

@[simps -fullyApplied] def setStack (st : List Slot) : State := { s with stack := st }

@[simps -fullyApplied] def setMem (m : ℕ → BitVec 8) : State := { s with mem := m }

@[simps -fullyApplied] def setPort (p : BitVec 8 → BitVec 8) : State := { s with port := p }

/-- States that agree but for their registers, and there one by one. -/
lemma eq_of_reg {s t : State} (hrest : { s with reg := t.reg } = t)
    (hreg : ∀ r, s.reg r = t.reg r) : s = t := by
  have hregs : s.reg = t.reg := funext hreg
  calc s = { s with reg := t.reg } := by rw [← hregs]
    _ = t := hrest

end State

/-! ### Operands -/

/-- The offset of an operand in memory. -/
abbrev State.offset (s : State) (base : Option R32) (disp : BitVec 32) : ℕ :=
  (disp + (match base with | some r => s.reg r | none => 0)).toNat

namespace Opd

variable {w : ℕ}

/-- The bytes an operand in memory stands for. -/
def access (s : State) : Opd w → List Access
  | .reg _ => []
  | .imm _ => []
  | .mem seg base disp => [⟨s.seg seg, s.offset base disp, w / 8⟩]

def read (B : Board) (s : State) : Opd w → Option (BitVec w)
  | .reg r => some (s.get r)
  | .imm v => some v
  | .mem seg base disp => (B.at ⟨s.seg seg, s.offset base disp, w / 8⟩).map (load w s.mem)

def write (B : Board) (v : BitVec w) (s : State) : Opd w → Option State
  | .reg r => some (s.set r v)
  | .imm _ => none
  | .mem seg base disp =>
      (B.at ⟨s.seg seg, s.offset base disp, w / 8⟩).map fun a => s.setMem (B.store s.mem a v)

end Opd

/-! ### Arithmetic -/

namespace Alu

variable {w : ℕ}

def result : Alu → BitVec w → BitVec w → BitVec w
  | .add, a, b => a + b
  | .sub, a, b => a - b
  | .cmp, a, b => a - b
  | .and, a, b => a &&& b
  | .or, a, b => a ||| b
  | .xor, a, b => a ^^^ b
  | .test, a, b => a &&& b

/-- Whether the result is stored. -/
def stores : Alu → Bool
  | .add | .sub | .and | .or | .xor => true
  | .cmp | .test => false

def carry : Alu → BitVec w → BitVec w → Bool
  | .add, a, b => BitVec.uaddOverflow a b
  | .sub, a, b => BitVec.usubOverflow a b
  | .cmp, a, b => BitVec.usubOverflow a b
  | .and, _, _ | .or, _, _ | .xor, _, _ | .test, _, _ => false

def overflow : Alu → BitVec w → BitVec w → Bool
  | .add, a, b => BitVec.saddOverflow a b
  | .sub, a, b => BitVec.ssubOverflow a b
  | .cmp, a, b => BitVec.ssubOverflow a b
  | .and, _, _ | .or, _, _ | .xor, _, _ | .test, _, _ => false

def flags (op : Alu) (a b : BitVec w) : Flags where
  carry := op.carry a b
  zero := op.result a b == 0
  sign := (op.result a b).msb
  overflow := op.overflow a b

end Alu

/-- The quotient and the remainder of `div`. -/
def divide (high low d : BitVec 32) : Option (BitVec 32 × BitVec 32) :=
  let n := high.toNat * 2 ^ 32 + low.toNat
  if d = 0 ∨ 2 ^ 32 ≤ n / d.toNat then none
  else some (BitVec.ofNat 32 (n / d.toNat), BitVec.ofNat 32 (n % d.toNat))

def Cond.holds (f : Flags) : Cond → Bool
  | .z => f.zero
  | .ne => !f.zero
  | .l => f.sign != f.overflow
  | .a => !f.carry && !f.zero

/-! ### One instruction -/

namespace Instr

variable {ι : Type}

/-- The bytes an instruction reads. -/
def loads (s : State) : Instr ι → List Access
  | .mov _ src => src.access s
  | .alu _ d src => d.access s ++ src.access s
  | _ => []

/-- The bytes an instruction writes. -/
def stores (s : State) : Instr ι → List Access
  | .mov d _ => d.access s
  | .alu op d _ => if op.stores then d.access s else []
  | .stosw => (Opd.mem .es (some .edi) 0 : Opd 16).access s
  | _ => []

def accesses (s : State) (i : Instr ι) : List Access := i.loads s ++ i.stores s

/-- One instruction, with the places of the labels. -/
def exec (B : Board) (find : ι → ℕ) (i : Instr ι) (s : State) : Option State :=
  match i with
  | .mov d src => (src.read B s).bind fun v => d.write B v s.next
  | .movSeg d r =>
      if (B.gdt (s.get (.r16 r))).isSome then some (s.next.setSeg d (s.get (.r16 r))) else none
  | .alu op d src =>
      (d.read B s).bind fun a => (src.read B s).bind fun b =>
        if op.stores then d.write B (op.result a b) (s.next.setFlags (op.flags a b))
        else some (s.next.setFlags (op.flags a b))
  | .inc r =>
      some ((s.next.set (.r32 r) (s.reg r + 1)).setFlags
        { Alu.add.flags (s.reg r) 1 with carry := s.flags.carry })
  | .ror r n =>
      let v := (s.get r).rotateRight n
      some ((s.next.set r v).setFlags
        { s.flags with
          carry := v.msb
          overflow := if n = 1 then v.msb != v.getMsbD 1 else s.flags.overflow })
  | .div r =>
      (divide (s.reg .edx) (s.reg .eax) (s.reg r)).map fun q =>
        (s.next.set (.r32 .eax) q.1).set (.r32 .edx) q.2
  | .push r => some (s.next.setStack (.word (s.reg r) :: s.stack))
  | .pop r =>
      match s.stack with
      | .word v :: st => some ((s.next.set (.r32 r) v).setStack st)
      | _ => none
  | .pushSeg r => some (s.next.setStack (.word ((s.seg r).setWidth 32) :: s.stack))
  | .popSeg r =>
      match s.stack with
      | .word v :: st =>
          if (B.gdt (v.setWidth 16)).isSome then
            some ((s.next.setSeg r (v.setWidth 16)).setStack st)
          else none
      | _ => none
  | .stosw =>
      ((Opd.mem .es (some .edi) 0).write B (s.get (.r16 .eax)) s.next).map fun t =>
        t.set (.r32 .edi) (s.reg .edi + 2)
  | .loop l =>
      some ((s.set (.r32 .ecx) (s.reg .ecx - 1)).goto
        (if s.reg .ecx - 1 = 0 then s.eip + 1 else find l))
  | .jcc c l => some (s.goto (if c.holds s.flags then find l else s.eip + 1))
  | .jmp l => some (s.goto (find l))
  | .jmpFar => none
  | .call l => some ((s.goto (find l)).setStack (.ret (s.eip + 1) :: s.stack))
  | .ret =>
      match s.stack with
      | .ret e :: st => some ((s.goto e).setStack st)
      | _ => none
  | .iretd =>
      match s.stack with
      | .frame e f b :: st => some ((((s.goto e).setFlags f).setIntr b).setStack st)
      | _ => none
  | .inAl p => some (s.next.set (.lo .eax) (s.port p))
  | .outAl _ => some s.next
  | .cli => some (s.next.setIntr false)

end Instr

/-! ### Programs -/

/-- A program: its instructions, and the place of each label. -/
structure Program (ι : Type) where
  code : List (Instr ι)
  find : ι → ℕ

section Step

variable {ι : Type} (B : Board) (P : Program ι)

/-- The instruction at `eip`, with the bytes it reads and writes. -/
def step (s : State) : Option (List Access × State) :=
  (P.code[s.eip]?).bind fun i => (i.exec B P.find s).map fun t => (i.accesses s, t)

/-- The delivery of an interrupt. -/
def interrupt (entry : ℕ) (s : State) : State :=
  ((s.goto entry).setIntr false).setStack (.frame s.eip s.flags s.intr :: s.stack)

/-- The instruction at `eip` is `iretd`. -/
def returns (s : State) : Bool :=
  match P.code[s.eip]? with
  | some .iretd => true
  | _ => false

/-- The instructions up to the first `iretd`, at most `n`. -/
def toIret : ℕ → State → Option (List Access × State)
  | 0, _ => none
  | n + 1, s =>
      (step B P s).bind fun r =>
        if returns P s then some r else (toIret n r.2).map fun q => (r.1 ++ q.1, q.2)

end Step

end X86

end OperatingSys
