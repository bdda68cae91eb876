import OperatingSys.Foundations.Machine
import OperatingSys.Foundations.X86Frame

/-!
The protected-mode part of `os_01/lab_02/task.asm`.

* `asciimap`, `symlPos`, ...: the offsets of the variables of the segment `data32`, each
  behind the one before it.
* `Layout`: where `data32` has been loaded and how much memory there is, with the
  descriptors of the segments that hold data.
* `code32`: the code, from the instruction after `sti`. `proc uses` stands for the pushes
  at the beginning of a procedure and the pops before its return. The handlers of the
  exceptions are left out: an exception ends a run.
* `pc`: the machine. Between two instructions a timer or a keyboard interrupt may come
  while they are not disabled; through an interrupt gate, its handler runs to its end.
-/

namespace OperatingSys

namespace ProtectedMode

open X86

/-! ### The data segment -/

/-- Seven descriptors stand in front of `pdescr`. -/
def pdescr : ℕ := 7 * 8

def idt : ℕ := pdescr + 6

/-- The gates are those of vectors 0 to 12, 13, 14 to 31, and the two interrupts. -/
def ipdescr : ℕ := idt + (13 + 1 + 18 + 2) * 8

def ipdescr16 : ℕ := ipdescr + 6

def maskMaster : ℕ := ipdescr16 + 3 * 2

def maskSlave : ℕ := maskMaster + 1

def asciimap : ℕ := maskSlave + 1

/-- The content of `asciimap`. -/
def asciimapBytes : List (BitVec 8) :=
  [0, 0, 49, 50, 51, 52, 53, 54, 55, 56, 57, 48, 45, 61, 0, 0,
    81, 87, 69, 82, 84, 89, 85, 73, 79, 80, 91, 93, 0, 0, 65, 83,
    68, 70, 71, 72, 74, 75, 76, 59, 39, 96, 0, 92, 90, 88, 67,
    86, 66, 78, 77, 44, 46, 47]

def flagEnterPr : ℕ := asciimap + asciimapBytes.length

def cntTime : ℕ := flagEnterPr + 1

def symlPos : ℕ := cntTime + 1

def paramInt8 : ℕ := symlPos + 4

def rmMsg : ℕ := paramInt8 + 1

def pmMsgWait : ℕ := rmMsg + (1 + 25 + 1 + 4 + 1)

def pmMsgOut : ℕ := pmMsgWait + (1 + 48 + 1 + 4)

def pmMemCount : ℕ := pmMsgOut + (1 + 31 + 1 + 4)

/-- Behind the eight characters of `'Memory: '`. -/
def dataSize : ℕ := pmMemCount + 8

/-! ### The constants -/

def data4gbs : BitVec 16 := 16

def data32s : BitVec 16 := 32

def video16s : BitVec 16 := 48

def memPos : ℕ := 0

def memValuePos : ℕ := 14 + 16

def mbPos : ℕ := 30 + 2

def cursorPos : ℕ := 80

def param : BitVec 8 := 0x1E

def cursorSymb : BitVec 8 := 219

/-- The linear address of the video page. -/
def video : ℕ := 0xB8000

/-- The scan code of the Enter key. -/
def enterCode : BitVec 8 := 0x1C

/-! ### The segments -/

/-- The segment value of `data32` and the size of the memory. The program is loaded
below the video page, and the first megabyte is there. -/
structure Layout where
  data32 : BitVec 16
  ram : ℕ
  below : 16 * data32.toNat + dataSize ≤ video
  installed : 2 ^ 20 ≤ ram

namespace Layout

variable (L : Layout)

/-- The base of `data32`. -/
def base : ℕ := 16 * L.data32.toNat

/-- `gdt_data4gb`, `gdt_data32` and `gdt_video16`. -/
def board : Board where
  gdt sel :=
    if sel = data4gbs then some ⟨0, 0xFFFFFFFF, by decide⟩
    else if sel = data32s then
      some ⟨L.base, dataSize - 1, by
        have := L.below
        simp only [video] at this
        rw [base]
        omega⟩
    else if sel = video16s then some ⟨video, 3999, by decide⟩
    else none
  ram := L.ram

end Layout

/-! ### The code -/

/-- The labels of `code32` that are jumped to or called. -/
inductive Label where
  | printMemoryMsg | proccess | newInt08 | newInt09 | printValue | exit | countMemoryProc
  | countMemory | printMemoryCounter | printCountMemory | printSymbol | toTen | afterTen
  deriving DecidableEq, Repr

section Operands

abbrev al : Opd 8 := .reg (.lo .eax)
abbrev ah : Opd 8 := .reg (.hi .eax)
abbrev ax : Opd 16 := .reg (.r16 .eax)
abbrev bx : Opd 16 := .reg (.r16 .ebx)
abbrev cx : Opd 16 := .reg (.r16 .ecx)
abbrev dx : Opd 16 := .reg (.r16 .edx)
abbrev dl : Opd 8 := .reg (.lo .edx)
abbrev dh : Opd 8 := .reg (.hi .edx)
abbrev di : Opd 16 := .reg (.r16 .edi)
abbrev r32 (r : R32) : Opd 32 := .reg (.r32 r)
abbrev imm {w : ℕ} (v : BitVec w) : Opd w := .imm v

/-- An offset in a segment. -/
abbrev off {w : ℕ} (seg : Sreg) (n : ℕ) : Opd w := .mem seg none (BitVec.ofNat 32 n)

/-- An offset in a segment and a register. -/
abbrev idx {w : ℕ} (seg : Sreg) (n : ℕ) (r : R32) : Opd w := .mem seg (some r) (BitVec.ofNat 32 n)

end Operands

/-- A line of the program: a label, if there is one, and an instruction. -/
abbrev Line : Type := Option Label × Instr Label

/-- `pm_start` after `sti`. -/
def pmStart : List Line := [
  (none, .mov di (imm (BitVec.ofNat 16 memPos))),
  (none, .mov ah (imm param)),
  (none, .alu .xor (r32 .esi) (r32 .esi)),
  (none, .alu .xor (r32 .ecx) (r32 .ecx)),
  (none, .mov cx (imm 8)),
  (some .printMemoryMsg, .mov al (idx .ds pmMemCount .esi)),
  (none, .stosw),
  (none, .inc .esi),
  (none, .loop .printMemoryMsg),
  (none, .call .countMemoryProc),
  (some .proccess, .alu .test (off .ds flagEnterPr : Opd 8) (imm 1)),
  (none, .jcc .z .proccess),
  (none, .cli),
  (none, .jmpFar)]

/-- `new_int08 proc uses eax`. -/
def newInt08 : List Line := [
  (some .newInt08, .push .eax),
  (none, .mov (r32 .edi) (imm (BitVec.ofNat 32 cursorPos))),
  (none, .mov ah (off .ds paramInt8)),
  (none, .ror (.hi .eax) 1),
  (none, .mov (off .ds paramInt8) ah),
  (none, .mov al (imm cursorSymb)),
  (none, .stosw),
  (none, .mov al (imm 0x20)),
  (none, .outAl 0x20),
  (none, .pop .eax),
  (none, .iretd)]

/-- `new_int09 proc uses eax ebx edx`. -/
def newInt09 : List Line := [
  (some .newInt09, .push .eax),
  (none, .push .ebx),
  (none, .push .edx),
  (none, .inAl 0x60),
  (none, .alu .cmp al (imm enterCode)),
  (none, .jcc .ne .printValue),
  (none, .alu .or (off .ds flagEnterPr : Opd 8) (imm 1)),
  (none, .jmp .exit),
  (some .printValue, .alu .cmp al (imm 0x80)),
  (none, .jcc .a .exit),
  (none, .alu .xor ah ah),
  (none, .alu .xor (r32 .ebx) (r32 .ebx)),
  (none, .mov bx ax),
  (none, .mov dh (imm param)),
  (none, .mov dl (idx .ds asciimap .ebx)),
  (none, .mov (r32 .ebx) (off .ds symlPos)),
  (none, .mov (idx .es 0 .ebx) dx),
  (none, .alu .add (r32 .ebx) (imm 2)),
  (none, .mov (off .ds symlPos) (r32 .ebx)),
  (some .exit, .mov al (imm 0x20)),
  (none, .outAl 0x20),
  (none, .pop .edx),
  (none, .pop .ebx),
  (none, .pop .eax),
  (none, .iretd)]

/-- `count_memory_proc proc uses ds eax ebx`. -/
def countMemoryProc : List Line := [
  (some .countMemoryProc, .pushSeg .ds),
  (none, .push .eax),
  (none, .push .ebx),
  (none, .mov ax (imm data4gbs)),
  (none, .movSeg .ds .eax),
  (none, .mov (r32 .ebx) (imm 0x100001)),
  (none, .mov dl (imm 0xAE)),
  (none, .mov (r32 .ecx) (imm 0xFFEFFFFE)),
  (some .countMemory, .mov dh (idx .ds 0 .ebx)),
  (none, .mov (idx .ds 0 .ebx) dl),
  (none, .alu .cmp (idx .ds 0 .ebx) dl),
  (none, .jcc .ne .printMemoryCounter),
  (none, .mov (idx .ds 0 .ebx) dh),
  (none, .inc .ebx),
  (none, .loop .countMemory),
  (some .printMemoryCounter, .mov (r32 .eax) (r32 .ebx)),
  (none, .alu .xor (r32 .edx) (r32 .edx)),
  (none, .mov (r32 .ebx) (imm 0x100000)),
  (none, .div .ebx),
  (none, .mov (r32 .ebx) (imm (BitVec.ofNat 32 memValuePos))),
  (none, .call .printCountMemory),
  (none, .mov ah (imm param)),
  (none, .mov (r32 .ebx) (imm (BitVec.ofNat 32 mbPos))),
  (none, .mov al (imm 0x4D)),
  (none, .mov (idx .es 0 .ebx) ax),
  (none, .mov (r32 .ebx) (imm (BitVec.ofNat 32 (mbPos + 2)))),
  (none, .mov al (imm 0x62)),
  (none, .mov (idx .es 0 .ebx) ax),
  (none, .pop .ebx),
  (none, .pop .eax),
  (none, .popSeg .ds),
  (none, .ret)]

/-- `print_count_memory proc uses ecx ebx edx`. -/
def printCountMemory : List Line := [
  (some .printCountMemory, .push .ecx),
  (none, .push .ebx),
  (none, .push .edx),
  (none, .mov (r32 .ecx) (imm 8)),
  (none, .mov dh (imm param)),
  (some .printSymbol, .mov dl al),
  (none, .alu .and dl (imm 0x0F)),
  (none, .alu .cmp dl (imm 10)),
  (none, .jcc .l .toTen),
  (none, .alu .sub dl (imm 10)),
  (none, .alu .add dl (imm 0x41)),
  (none, .jmp .afterTen),
  (some .toTen, .alu .add dl (imm 0x30)),
  (some .afterTen, .mov (idx .es 0 .ebx) dx),
  (none, .ror (.r32 .eax) 4),
  (none, .alu .sub (r32 .ebx) (imm 2)),
  (none, .loop .printSymbol),
  (none, .pop .edx),
  (none, .pop .ebx),
  (none, .pop .ecx),
  (none, .ret)]

/-- The code segment. -/
def lines : List Line := pmStart ++ newInt08 ++ newInt09 ++ countMemoryProc ++ printCountMemory

/-- The place of a label. -/
def find (l : Label) : ℕ := lines.findIdx fun line => line.1 == some l

def code32 : Program Label where
  code := lines.map Prod.snd
  find := find

/-! ### The machine -/

/-- The next instruction, a timer interrupt, or a keyboard interrupt with the scan code it
delivers. -/
inductive Mover where
  | cpu
  | timer
  | keyboard (data : BitVec 8)
  deriving DecidableEq

/-- An interrupt and its handler, when interrupts are enabled. -/
def deliver (L : Layout) (l : Label) (s : State) : Option (List Access × State) :=
  if s.intr then toIret L.board code32 code32.code.length (interrupt (find l) s) else none

/-- The machine. Its steps show the bytes they access. -/
def pc (L : Layout) : Machine State Mover (List Access) where
  step s
    | .cpu => step L.board code32 s
    | .timer => deliver L .newInt08 s
    | .keyboard data => deliver L .newInt09 (s.setPort (Function.update s.port 0x60 data))

end ProtectedMode

end OperatingSys
