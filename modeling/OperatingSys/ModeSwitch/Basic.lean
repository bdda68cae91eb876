import OperatingSys.Foundations.Stretch
import OperatingSys.ProtectedMode.SetUp

/-!
The program `os_01/lab_02/main.asm`, which goes into protected mode and back.

Behind each segment register stands its shadow register, and every access goes through that.
In protected mode a load of a segment register takes base, limit and attributes from the
descriptor. In real mode it sets the base alone: what the limit and the attributes are stays.

* `Segment`, `Core`: a segment register with its shadow register, and the processor with the
  tables of the program.
* `Instr.exec`: one instruction, `none` for a fault; `code`: the program.
* `machine`: the processor and the interrupts of real mode. A handler returns with all
  registers as they were, and loads those segment registers anew that it has saved.

The instructions are those of the source with their constants. What is stored through `es`
is the event of the store, the linear address and the word.
-/

namespace OperatingSys

namespace ModeSwitch

open ProtectedMode (SegDescr Pseudo)

/-! ### Segments -/

inductive Sreg where
  | cs | ds | ss | es
  deriving DecidableEq, Repr

/-- A segment register, and its shadow register. -/
structure Segment where
  sel : BitVec 16
  base : ℕ
  limit : ℕ
  attr : BitVec 8
  deriving DecidableEq

/-- The last offset of the segment of a descriptor, in bytes or in pages. -/
def lastOffset (d : SegDescr) : ℕ :=
  let l := d.limit.toNat + 2 ^ 16 * (d.attr2.toNat % 16)
  if d.attr2.toNat < 128 then l else 2 ^ 12 * l + (2 ^ 12 - 1)

/-- Descriptors with these attributes may be loaded: code into `cs`, data that can be written
into `ss`, and what can be read into the others. -/
def Sreg.permits (r : Sreg) (attr : BitVec 8) : Bool :=
  match r with
  | .cs => attr &&& 0x98 = 0x98
  | .ss => attr &&& 0x9A = 0x92
  | .ds | .es => attr &&& 0x90 = 0x90 ∧ (attr &&& 0x08 = 0 ∨ attr &&& 0x02 = 0x02)

/-- The segment can be written. -/
def Segment.writable (g : Segment) : Bool := g.attr &&& 0x0A = 0x02

/-- The segment register loaded in real mode. -/
def Segment.reload (g : Segment) (v : BitVec 16) : Segment :=
  { g with sel := v, base := 16 * v.toNat }

/-- The segment register loaded with a descriptor. -/
def Segment.ofDescr (v : BitVec 16) (d : SegDescr) : Segment := ⟨v, d.base, lastOffset d, d.attr1⟩

/-! ### The data segment of the program -/

/-- The descriptors behind `gdt_null`. -/
inductive Entry where
  | data | code | stack | screen
  deriving DecidableEq, Repr

/-- The place of a descriptor in the table, which is its selector. -/
def entryAt (off : BitVec 16) : Option Entry :=
  if off = 8 then some .data
  else if off = 16 then some .code
  else if off = 24 then some .stack
  else if off = 32 then some .screen
  else none

structure Gdt where
  data : SegDescr
  code : SegDescr
  stack : SegDescr
  screen : SegDescr

def Gdt.get (T : Gdt) : Entry → SegDescr
  | .data => T.data
  | .code => T.code
  | .stack => T.stack
  | .screen => T.screen

def Gdt.set (T : Gdt) (e : Entry) (d : SegDescr) : Gdt :=
  match e with
  | .data => { T with data := d }
  | .code => { T with code := d }
  | .stack => { T with stack := d }
  | .screen => { T with screen := d }

/-- The bytes of a text. -/
def text (s : String) : List (BitVec 8) := s.toList.map fun c => BitVec.ofNat 8 c.toNat

def msg : List (BitVec 8) := text "Real mode"

def msgProtected : List (BitVec 8) := text "Protected mode"

/-- The offset of `pdescr`, and below of `msg`, with `msg_protected` behind it. -/
def pdescrAt : ℕ := 40

def msgAt : ℕ := 46

def dataSize : ℕ := 69

/-- `gdt_size`. -/
def gdtSize : ℕ := 40

/-- A byte of the texts. -/
def byteAt (off : ℕ) : Option (BitVec 8) :=
  if msgAt ≤ off then (msg ++ msgProtected)[off - msgAt]? else none

/-! ### The processor -/

/-- The registers, the interrupt flag, the segment registers, the descriptors in the data
segment with `pdescr`, and what is on the stack. -/
structure Core where
  eax : BitVec 32
  ebp : BitVec 32
  bx : BitVec 16
  cx : BitVec 16
  di : BitVec 16
  sp : BitVec 16
  cr0 : BitVec 32
  intr : Bool
  cs : Segment
  ds : Segment
  ss : Segment
  es : Segment
  gdtr : Pseudo
  gdt : Gdt
  pdescr : Pseudo
  stack : List (BitVec 16)

/-- The bit of `cr0` that says that the processor is in protected mode. -/
def peBit (cr0 : BitVec 32) : Bool := cr0.getLsbD 0

/-- Where the program has been loaded, as segment values, the stack it is started with, the
register `cr0`, and the last offset of the code. -/
structure Placement where
  data : BitVec 16
  text : BitVec 16
  stk : BitVec 16
  ss : BitVec 16
  sp : BitVec 16
  room : 2 ≤ sp.toNat ∧ sp.toNat ≤ 256
  cr0 : BitVec 32
  real : peBit cr0 = false
  codeLimit : BitVec 16

namespace Core

/-- The processor is in protected mode. -/
def pe (c : Core) : Bool := peBit c.cr0

def seg (c : Core) : Sreg → Segment
  | .cs => c.cs
  | .ds => c.ds
  | .ss => c.ss
  | .es => c.es

def setSeg (c : Core) (r : Sreg) (g : Segment) : Core :=
  match r with
  | .cs => { c with cs := g }
  | .ds => { c with ds := g }
  | .ss => { c with ss := g }
  | .es => { c with es := g }

def ax (c : Core) : BitVec 16 := (X86.Reg.r16 .eax).of c.eax

/-- `ds` is the data segment of the program, with these bytes inside the limit. -/
def Reads (P : Placement) (c : Core) (off len : ℕ) : Prop :=
  c.ds.base = 16 * P.data.toNat ∧ off + len ≤ c.ds.limit + 1

/-- These bytes of the segment can be written. -/
def Writes (c : Core) (g : Segment) (off len : ℕ) : Prop :=
  off + len ≤ g.limit + 1 ∧ (c.pe = true → g.writable = true)

instance (P : Placement) (c : Core) (off len : ℕ) : Decidable (c.Reads P off len) :=
  inferInstanceAs (Decidable (_ ∧ _))

instance (c : Core) (g : Segment) (off len : ℕ) : Decidable (c.Writes g off len) :=
  inferInstanceAs (Decidable (_ ∧ _))

/-- The descriptor of a selector, in the table that `gdtr` tells of. -/
def descr (P : Placement) (c : Core) (v : BitVec 16) : Option SegDescr :=
  if c.gdtr.base.toNat = 16 * P.data.toNat ∧ v.toNat + 7 ≤ c.gdtr.limit.toNat then
    (entryAt v).map c.gdt.get
  else none

/-- A segment register is loaded. -/
def load (P : Placement) (c : Core) (r : Sreg) (v : BitVec 16) : Option Core :=
  if c.pe then
    (c.descr P v).bind fun d =>
      if r.permits d.attr1 then some (c.setSeg r (.ofDescr v d)) else none
  else some (c.setSeg r ((c.seg r).reload v))

end Core

/-! ### The instructions -/

/-- The instructions, with the places of their labels. `putBase1` and `putBaseM` store into the
descriptor at `bx`, and `int21` ends the program. -/
inductive Instr where
  | movAx (v : BitVec 16)
  | movSeg (r : Sreg)
  | movAxSeg (r : Sreg)
  | movDi (v : BitVec 16)
  | movBx (v : BitVec 16)
  | movCx (v : BitVec 16)
  | movSp (v : BitVec 16)
  | movAh (v : BitVec 8)
  | movAlBx
  | incBx
  | stosw
  | xorEax
  | shlEax (n : ℕ)
  | shrEax (n : ℕ)
  | movEbpEax
  | putBase1
  | putBaseM
  | movPdescrBase
  | movPdescrLimit (v : BitVec 16)
  | lgdt
  | cli
  | sti
  | movEaxCr0
  | orEax (v : BitVec 32)
  | andEax (v : BitVec 32)
  | movCr0Eax
  | movLim (e : Entry) (v : BitVec 16)
  | push (r : Sreg)
  | pop (r : Sreg)
  | loop (l : ℕ)
  | jmpFar (v : BitVec 16) (l : ℕ)
  | int21
  deriving DecidableEq

/-- A word stored through `es`, with its linear address. -/
abbrev Store := ℕ × BitVec 16

namespace Instr

/-- A descriptor in the data segment is stored into. -/
def putDescr (P : Placement) (c : Core) (off len : ℕ) (e : Option Entry)
    (f : SegDescr → SegDescr) : Option Core :=
  e.bind fun e =>
    if c.Reads P off len ∧ c.Writes c.ds off len then
      some { c with gdt := c.gdt.set e (f (c.gdt.get e)) }
    else none

/-- `pdescr` is stored into. -/
def putPdescr (P : Placement) (c : Core) (off len : ℕ) (f : Pseudo → Pseudo) : Option Core :=
  if c.Reads P off len ∧ c.Writes c.ds off len then some { c with pdescr := f c.pdescr } else none

/-- An instruction that goes on with the next one. -/
def exec (P : Placement) (i : Instr) (c : Core) : Option (Option Store × Core) :=
  match i with
  | .movAx v => some (none, { c with eax := (X86.Reg.r16 .eax).put v c.eax })
  | .movSeg r => (c.load P r c.ax).map (none, ·)
  | .movAxSeg r => some (none, { c with eax := (X86.Reg.r16 .eax).put (c.seg r).sel c.eax })
  | .movDi v => some (none, { c with di := v })
  | .movBx v => some (none, { c with bx := v })
  | .movCx v => some (none, { c with cx := v })
  | .movSp v => some (none, { c with sp := v })
  | .movAh v => some (none, { c with eax := (X86.Reg.hi .eax).put v c.eax })
  | .movAlBx =>
      if c.Reads P c.bx.toNat 1 then
        (byteAt c.bx.toNat).map fun v => (none, { c with eax := (X86.Reg.lo .eax).put v c.eax })
      else none
  | .incBx => some (none, { c with bx := c.bx + 1 })
  | .stosw =>
      if c.Writes c.es c.di.toNat 2 then
        some (some (c.es.base + c.di.toNat, c.ax), { c with di := c.di + 2 })
      else none
  | .xorEax => some (none, { c with eax := c.eax ^^^ c.eax })
  | .shlEax n => some (none, { c with eax := c.eax <<< n })
  | .shrEax n => some (none, { c with eax := c.eax >>> n })
  | .movEbpEax => some (none, { c with ebp := c.eax })
  | .putBase1 =>
      (putDescr P c (c.bx.toNat + 2) 2 (entryAt c.bx) fun d => { d with baseL := c.ax }).map
        (none, ·)
  | .putBaseM =>
      (putDescr P c (c.bx.toNat + 4) 1 (entryAt c.bx)
        fun d => { d with baseM := (X86.Reg.lo .eax).of c.eax }).map (none, ·)
  | .movPdescrBase =>
      (putPdescr P c (pdescrAt + 2) 4 fun p => { p with base := c.ebp }).map (none, ·)
  | .movPdescrLimit v =>
      (putPdescr P c pdescrAt 2 fun p => { p with limit := v }).map (none, ·)
  | .lgdt => if c.Reads P pdescrAt 6 then some (none, { c with gdtr := c.pdescr }) else none
  | .cli => some (none, { c with intr := false })
  | .sti => some (none, { c with intr := true })
  | .movEaxCr0 => some (none, { c with eax := c.cr0 })
  | .orEax v => some (none, { c with eax := c.eax ||| v })
  | .andEax v => some (none, { c with eax := c.eax &&& v })
  | .movCr0Eax => some (none, { c with cr0 := c.eax })
  | .movLim e v =>
      (putDescr P c (match e with | .data => 8 | .code => 16 | .stack => 24 | .screen => 32) 2
        (some e) fun d => { d with limit := v }).map (none, ·)
  | .push r =>
      if 2 ≤ c.sp.toNat ∧ c.Writes c.ss (c.sp.toNat - 2) 2 then
        some (none, { c with sp := c.sp - 2, stack := (c.seg r).sel :: c.stack })
      else none
  | .pop r =>
      match c.stack with
      | v :: st =>
          if c.sp.toNat + 2 ≤ c.ss.limit + 1 then
            ({ c with sp := c.sp + 2, stack := st }.load P r v).map (none, ·)
          else none
      | [] => none
  | .loop _ | .jmpFar _ _ | .int21 => none

end Instr

/-! ### The program -/

/-- A text is printed, with the loop at the place `l`. -/
def printText (di bx cx : BitVec 16) (l : ℕ) : List Instr :=
  [.movDi di, .movBx bx, .movCx cx, .movAh 0x1E, .movAlBx, .incBx, .stosw, .loop l]

/-- The base in `eax` is stored into the descriptor at `off`. -/
def storeBase (off : BitVec 16) : List Instr :=
  [.movBx off, .putBase1, .shrEax 16, .putBaseM]

def CONTINUE : ℕ := 43

def GO : ℕ := 68

def RETURN : ℕ := 72

/-- The place of `INT 21h`. -/
def FINISH : ℕ := 87

/-- The screen behind `es`, up to the label `print1`. -/
def toScreen (P : Placement) : List Instr :=
  [.movAx P.data, .movSeg .ds, .movAx 0xB800, .movSeg .es]

/-- The bases of the segments, and `pdescr`. -/
def setUp (P : Placement) : List Instr :=
  [Instr.xorEax, .movAx P.data, .movSeg .ds, .shlEax 4, .movEbpEax] ++ storeBase 8
    ++ [Instr.xorEax, .movAxSeg .cs, .shlEax 4] ++ storeBase 16
    ++ [Instr.xorEax, .movAxSeg .ss, .shlEax 4] ++ storeBase 24
    ++ [Instr.movPdescrBase, .movPdescrLimit (BitVec.ofNat 16 (gdtSize - 1)), .lgdt, .cli]

/-- Into protected mode. -/
def enter : List Instr := [.movEaxCr0, .orEax 1, .movCr0Eax]

/-- The selectors. -/
def selectors : List Instr :=
  [.movAx 8, .movSeg .ds, .movAx 24, .movSeg .ss, .movAx 32, .movSeg .es]

/-- The limits of real mode. -/
def limits : List Instr :=
  [.movLim .data 0xFFFF, .movLim .code 0xFFFF, .movLim .stack 0xFFFF, .movLim .screen 0xFFFF,
    .push .ds, .pop .ds, .push .ss, .pop .ss, .push .es, .pop .es]

/-- Back into real mode. -/
def leave : List Instr := [.movEaxCr0, .andEax 0xFFFFFFFE, .movCr0Eax]

/-- The segments of real mode, from the label `return` on. -/
def restore (P : Placement) : List Instr :=
  [.movAx P.data, .movSeg .ds, .movAx P.stk, .movSeg .ss, .movSp 256]

/-- `main`. -/
def code (P : Placement) : List Instr :=
  toScreen P ++ printText 1920 46 9 8
    ++ setUp P ++ enter ++ [Instr.jmpFar 16 CONTINUE]
    ++ selectors ++ printText 2080 55 14 53
    ++ limits ++ [Instr.jmpFar 16 GO] ++ leave ++ [Instr.jmpFar P.text RETURN]
    ++ restore P ++ [Instr.sti] ++ printText 2240 46 9 82
    ++ [Instr.movAx 0x4C00, .int21]

/-! ### The machine -/

/-- The next instruction, and the processor. -/
structure State where
  ip : ℕ
  core : Core

/-- The segment registers that an interrupt handler saves. -/
structure Saved where
  cs : Bool
  ds : Bool
  ss : Bool
  es : Bool
  deriving DecidableEq, Repr

/-- An instruction, or an interrupt with its handler. -/
inductive Mover where
  | cpu
  | irq (saved : Saved)
  deriving DecidableEq, Repr

/-- The instruction at `ip`. -/
def cpu (P : Placement) (s : State) : Option (Option Store × State) :=
  match (code P)[s.ip]? with
  | none => none
  | some (.loop l) =>
      some (none, ⟨if s.core.cx - 1 = 0 then s.ip + 1 else l, { s.core with cx := s.core.cx - 1 }⟩)
  | some (.jmpFar v l) => (s.core.load P .cs v).map fun c => (none, ⟨l, c⟩)
  | some i => (i.exec P s.core).map fun q => (q.1, ⟨s.ip + 1, q.2⟩)

/-- A segment register that is saved is loaded again. -/
def Segment.again (g : Segment) (saved : Bool) : Segment := if saved then g.reload g.sel else g

/-- What is left of the segment registers when a handler has returned. -/
def Core.served (c : Core) (saved : Saved) : Core :=
  { c with
    cs := c.cs.again saved.cs
    ds := c.ds.again saved.ds
    ss := c.ss.again saved.ss
    es := c.es.again saved.es }

/-- An interrupt. There are no gates for protected mode. -/
def irq (s : State) (saved : Saved) : Option (Option Store × State) :=
  if s.core.intr ∧ s.core.pe = false then some (none, { s with core := s.core.served saved })
  else none

/-- The program and the interrupts. -/
def machine (P : Placement) : Machine State Mover (Option Store) where
  step s
    | .cpu => cpu P s
    | .irq saved => irq s saved

/-- The descriptors with their constants. -/
def initialGdt (P : Placement) : Gdt where
  data := ⟨BitVec.ofNat 16 (dataSize - 1), 0, 0, 0x92, 0, 0⟩
  code := ⟨P.codeLimit, 0, 0, 0x98, 0, 0⟩
  stack := ⟨255, 0, 0, 0x92, 0, 0⟩
  screen := ⟨3999, 0x8000, 0x0B, 0x92, 0, 0⟩

/-- A segment register of real mode. -/
def realSegment (v : BitVec 16) : Segment := ⟨v, 16 * v.toNat, 0xFFFF, 0x93⟩

/-- The program has been loaded and is started in real mode. -/
structure Loaded (P : Placement) (s : State) : Prop where
  ip : s.ip = 0
  cr0 : s.core.cr0 = P.cr0
  intr : s.core.intr = true
  cs : s.core.cs = realSegment P.text
  ss : s.core.ss = realSegment P.ss
  ds : ∃ v, s.core.ds = realSegment v
  es : ∃ v, s.core.es = realSegment v
  sp : s.core.sp = P.sp
  gdt : s.core.gdt = initialGdt P
  stack : s.core.stack = []

end ModeSwitch

end OperatingSys
