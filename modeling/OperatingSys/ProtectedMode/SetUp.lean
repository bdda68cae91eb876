import OperatingSys.Foundations.X86Run
import OperatingSys.ProtectedMode.Basic

/-!
The tables, and the code at `start` that fills them in.

The descriptors of the segments and the gates of the interrupts stand in `data32` with their
constant fields. In real mode `start` stores the bases of four segments, which depend on
where the program has been loaded, the offsets of the handlers, and the addresses of the
two tables. Only `eax` and the tables are changed on the way.

* `Tables`: the two tables and their pseudo-descriptors, `initialTables` as they are loaded.
* `setUp`: the code, from `xor eax, eax` to the store of the size of the `idt`.
* `storeBase_run`, `storeOffset_run`: what its blocks do.
-/

namespace OperatingSys

namespace ProtectedMode

open X86

/-! ### The tables -/

/-- `descr`. -/
@[ext]
structure SegDescr where
  limit : BitVec 16 := 0
  baseL : BitVec 16 := 0
  baseM : BitVec 8 := 0
  attr1 : BitVec 8 := 0
  attr2 : BitVec 8 := 0
  baseH : BitVec 8 := 0
  deriving DecidableEq

/-- `idescr`. -/
@[ext]
structure Gate where
  offsL : BitVec 16 := 0
  sel : BitVec 16 := 0
  cntr : BitVec 8 := 0
  attr : BitVec 8 := 0
  offsH : BitVec 16 := 0
  deriving DecidableEq

/-- The six bytes of `pdescr` and of `ipdescr`: the size of a table, less one, and its linear
address. -/
structure Pseudo where
  limit : BitVec 16 := 0
  base : BitVec 32 := 0
  deriving DecidableEq

/-- The entries of the `gdt`. -/
inductive GdtEntry where
  | null | code16 | data4gb | code32 | data32 | stack32 | video16
  deriving DecidableEq, Repr

/-- The number of gates in the `idt`. -/
def gates : ℕ := 13 + 1 + 18 + 2

/-- The tables of `data32`, the `idt` by vector. -/
structure Tables where
  gdt : GdtEntry → SegDescr
  pdescr : Pseudo
  idt : Fin gates → Gate
  ipdescr : Pseudo

/-- The base a descriptor holds. -/
def SegDescr.base (d : SegDescr) : ℕ :=
  d.baseL.toNat + 2 ^ 16 * d.baseM.toNat + 2 ^ 24 * d.baseH.toNat

/-- The offset a gate holds. -/
def Gate.offset (g : Gate) : BitVec 32 := g.offsH ++ g.offsL

def code32s : BitVec 16 := 24

def stackSize : ℕ := 0x100

/-- The offset of `gdt_null`, with which `data32` begins. -/
def gdtNull : ℕ := 0

/-- `$-gdt_null`, behind the last descriptor. -/
def gdtSize : ℕ := pdescr

/-- `$-idt`. -/
def idtSize : ℕ := ipdescr - idt

/-- The tables as they are loaded, for code segments of the given sizes. -/
def initialTables (code16Size code32Size : ℕ) : Tables where
  gdt
    | .null => {}
    | .code16 => ⟨BitVec.ofNat 16 (code16Size - 1), 0, 0, 0x98, 0, 0⟩
    | .data4gb => ⟨0xFFFF, 0, 0, 0x92, 0xCF, 0⟩
    | .code32 => ⟨BitVec.ofNat 16 (code32Size - 1), 0, 0, 0x98, 0x40, 0⟩
    | .data32 => ⟨BitVec.ofNat 16 (dataSize - 1), 0, 0, 0x92, 0x40, 0⟩
    | .stack32 => ⟨BitVec.ofNat 16 (stackSize - 1), 0, 0, 0x92, 0x40, 0⟩
    | .video16 => ⟨3999, 0x8000, 0x0B, 0x92, 0, 0⟩
  pdescr := {}
  idt v := if v.val < 32 then ⟨0, code32s, 0, 0x8F, 0⟩ else ⟨0, code32s, 0, 0x8E, 0⟩
  ipdescr := {}

/-! ### The code -/

/-- The register and the tables. -/
structure Setting where
  eax : BitVec 32
  tables : Tables

/-- Where the program has been loaded, as segment values, and the offsets of the handlers in
`code32`. -/
structure Placement where
  code16 : BitVec 16
  code32 : BitVec 16
  data32 : BitVec 16
  stack32 : BitVec 16
  except1 : BitVec 32
  except13 : BitVec 32
  newInt08 : BitVec 32
  newInt09 : BitVec 32

section Instructions

/-- `xor eax, eax`. -/
def xorEax (s : Setting) : Setting := { s with eax := s.eax ^^^ s.eax }

/-- `mov ax, v`. -/
def movAx (v : BitVec 16) (s : Setting) : Setting :=
  { s with eax := (Reg.r16 .eax).put v s.eax }

/-- `shl eax, n`. -/
def shlEax (n : ℕ) (s : Setting) : Setting := { s with eax := s.eax <<< n }

/-- `shr eax, n`. -/
def shrEax (n : ℕ) (s : Setting) : Setting := { s with eax := s.eax >>> n }

/-- `add eax, v`. -/
def addEax (v : BitVec 32) (s : Setting) : Setting := { s with eax := s.eax + v }

/-- `lea eax, es:label`, for the offset of the label. -/
def leaEax (v : BitVec 32) (s : Setting) : Setting := { s with eax := v }

/-- A field of a descriptor is stored. -/
def putDescr (g : GdtEntry) (f : BitVec 32 → SegDescr → SegDescr) (s : Setting) : Setting :=
  { s with tables := { s.tables with
      gdt := Function.update s.tables.gdt g (f s.eax (s.tables.gdt g)) } }

/-- `mov word ptr gdt_....base_l, ax`. -/
def putBaseL (g : GdtEntry) : Setting → Setting :=
  putDescr g fun eax d => { d with baseL := (Reg.r16 .eax).of eax }

/-- `mov byte ptr gdt_....base_m, al`. -/
def putBaseM (g : GdtEntry) : Setting → Setting :=
  putDescr g fun eax d => { d with baseM := (Reg.lo .eax).of eax }

/-- `mov byte ptr gdt_....base_h, ah`. -/
def putBaseH (g : GdtEntry) : Setting → Setting :=
  putDescr g fun eax d => { d with baseH := (Reg.hi .eax).of eax }

/-- A field of a gate is stored. -/
def putGate (v : Fin gates) (f : BitVec 32 → Gate → Gate) (s : Setting) : Setting :=
  { s with tables := { s.tables with
      idt := Function.update s.tables.idt v (f s.eax (s.tables.idt v)) } }

/-- `mov idescr_....offs_l, ax`. -/
def putOffsL (v : Fin gates) : Setting → Setting :=
  putGate v fun eax g => { g with offsL := (Reg.r16 .eax).of eax }

/-- `mov idescr_....offs_h, ax`. -/
def putOffsH (v : Fin gates) : Setting → Setting :=
  putGate v fun eax g => { g with offsH := (Reg.r16 .eax).of eax }

/-- `mov dword ptr pdescr+2, eax` and `mov word ptr pdescr, gdt_size-1`. -/
def putPdescr (s : Setting) : Setting :=
  { s with tables := { s.tables with pdescr := ⟨BitVec.ofNat 16 (gdtSize - 1), s.eax⟩ } }

/-- `mov dword ptr ipdescr + 2, eax` and `mov word ptr ipdescr, idt_size-1`. -/
def putIpdescr (s : Setting) : Setting :=
  { s with tables := { s.tables with ipdescr := ⟨BitVec.ofNat 16 (idtSize - 1), s.eax⟩ } }

end Instructions

/-- Code without jumps. -/
def run (code : List (Setting → Setting)) (s : Setting) : Setting :=
  code.foldl (fun s f => f s) s

/-- The block for a segment. -/
def storeBase (g : GdtEntry) (v : BitVec 16) : List (Setting → Setting) :=
  [movAx v, shlEax 4, putBaseL g, shrEax 16, putBaseM g, putBaseH g]

/-- The block for a gate. The repeated gates have the name of the first of them. -/
def storeOffset (v : Fin gates) (offset : BitVec 32) : List (Setting → Setting) :=
  [leaEax offset, putOffsL v, shrEax 16, putOffsH v]

/-- `idescr_0_12`, and below the other labels of gates. -/
def idescr0To12 : Fin gates := ⟨0, by decide⟩

def idescr13 : Fin gates := ⟨13, by decide⟩

def idescr14To31 : Fin gates := ⟨14, by decide⟩

def int08 : Fin gates := ⟨32, by decide⟩

def int09 : Fin gates := ⟨33, by decide⟩

/-- The descriptors and `pdescr`. -/
def setUpGdt (P : Placement) : List (Setting → Setting) :=
  [xorEax] ++ storeBase .code16 P.code16 ++ storeBase .code32 P.code32
    ++ storeBase .data32 P.data32 ++ storeBase .stack32 P.stack32
    ++ [movAx P.data32, shlEax 4, addEax (BitVec.ofNat 32 gdtNull), putPdescr]

/-- The gates and `ipdescr`. The first `mov` is on the way to `es`. -/
def setUpIdt (P : Placement) : List (Setting → Setting) :=
  [movAx P.code32] ++ storeOffset idescr0To12 P.except1 ++ storeOffset idescr13 P.except13
    ++ storeOffset idescr14To31 P.except1 ++ storeOffset int08 P.newInt08
    ++ storeOffset int09 P.newInt09
    ++ [movAx P.data32, shlEax 4, addEax (BitVec.ofNat 32 idt), putIpdescr]

/-- The code at `start`, behind `ClearScreen`. -/
def setUp (P : Placement) : List (Setting → Setting) := setUpGdt P ++ setUpIdt P

/-- The tables after it. -/
def tablesAfter (P : Placement) (s : Setting) : Tables := (run (setUp P) s).tables

/-! ### The blocks -/

lemma run_append (c c' : List (Setting → Setting)) (s : Setting) :
    run (c ++ c') s = run c' (run c s) := List.foldl_append

/-- The linear address of a segment. -/
def linear (v : BitVec 16) : BitVec 32 := v.setWidth 32 <<< 4

lemma linear_toNat (v : BitVec 16) : (linear v).toNat = 16 * v.toNat := by
  have hv := v.isLt
  rw [linear, BitVec.toNat_shiftLeft, BitVec.toNat_setWidth, Nat.shiftLeft_eq]
  omega

/-- The descriptor with a base. -/
def SegDescr.setBase (d : SegDescr) (x : BitVec 32) : SegDescr :=
  { d with
    baseL := (Reg.r16 .eax).of x
    baseM := (Reg.lo .eax).of (x >>> 16)
    baseH := (Reg.hi .eax).of (x >>> 16) }

/-- The pieces of a base make it up. -/
lemma SegDescr.base_setBase (d : SegDescr) (x : BitVec 32) : (d.setBase x).base = x.toNat := by
  have hx := x.isLt
  simp only [base, setBase, Reg.of, BitVec.extractLsb'_toNat, BitVec.toNat_ushiftRight,
    Nat.shiftRight_eq_div_pow]
  omega

/-- The gate with an offset. -/
def Gate.setOffset (g : Gate) (x : BitVec 32) : Gate :=
  { g with offsL := (Reg.r16 .eax).of x, offsH := (Reg.r16 .eax).of (x >>> 16) }

/-- The halves of an offset make it up. -/
lemma Gate.offset_setOffset (g : Gate) (x : BitVec 32) : (g.setOffset x).offset = x := by
  apply BitVec.eq_of_getLsbD_eq
  intro i hi
  simp only [offset, setOffset, Reg.of, BitVec.getLsbD_append, BitVec.getLsbD_extractLsb',
    BitVec.getLsbD_ushiftRight]
  by_cases h : i < 16
  · simp [h]
  · simp [h, show i - 16 < 16 by omega, show 16 + (i - 16) = i by omega]

def Tables.setBase (T : Tables) (g : GdtEntry) (x : BitVec 32) : Tables :=
  { T with gdt := Function.update T.gdt g ((T.gdt g).setBase x) }

def Tables.setOffset (T : Tables) (v : Fin gates) (x : BitVec 32) : Tables :=
  { T with idt := Function.update T.idt v ((T.idt v).setOffset x) }

/-- The high half of the register is clear. -/
def HighClear (x : BitVec 32) : Prop := x.extractLsb' 16 16 = 0

lemma highClear_shr (x : BitVec 32) : HighClear (x >>> 16) := by
  apply BitVec.eq_of_toNat_eq
  have hx := x.isLt
  rw [BitVec.extractLsb'_toNat, BitVec.toNat_ushiftRight, Nat.shiftRight_eq_div_pow,
    Nat.shiftRight_eq_div_pow]
  change x.toNat / 2 ^ 16 / 2 ^ 16 % 2 ^ 16 = 0
  omega

/-- A segment value loaded into the low half, with the high half clear. -/
lemma put_of_highClear {x : BitVec 32} (h : HighClear x) (v : BitVec 16) :
    (Reg.r16 .eax).put v x = v.setWidth 32 := by
  rw [← put_r16_zero .eax v, Reg.put, Reg.put, h]
  rfl

/-- **The block for a segment**: it stores the base, and leaves the high half of the
register clear for the next one. -/
lemma run_storeBase (g : GdtEntry) (v : BitVec 16) {s : Setting} (h : HighClear s.eax) :
    run (storeBase g v) s = ⟨linear v >>> 16, s.tables.setBase g (linear v)⟩ := by
  simp only [run, storeBase, List.foldl_cons, List.foldl_nil, movAx, shlEax, shrEax, putBaseL,
    putBaseM, putBaseH, putDescr, put_of_highClear h, Function.update_idem, Function.update_self]
  rfl

/-- **The block for a gate.** -/
lemma run_storeOffset (v : Fin gates) (x : BitVec 32) (s : Setting) :
    run (storeOffset v x) s = ⟨x >>> 16, s.tables.setOffset v x⟩ := by
  simp only [run, storeOffset, List.foldl_cons, List.foldl_nil, leaEax, shrEax, putOffsL,
    putOffsH, putGate, Function.update_idem, Function.update_self]
  rfl

/-- The address of a table in `data32`, and what is done with it. -/
lemma run_address (v : BitVec 16) (n : ℕ) (f : Setting → Setting) {s : Setting}
    (h : HighClear s.eax) : run [movAx v, shlEax 4, addEax (BitVec.ofNat 32 n), f] s
      = f ⟨linear v + BitVec.ofNat 32 n, s.tables⟩ := by
  simp only [run, List.foldl_cons, List.foldl_nil, movAx, shlEax, addEax, put_of_highClear h]
  rfl

section After

variable {c : List (Setting → Setting)} {s t : Setting} (hc : run c s = t)
include hc

/-- A segment behind other code. -/
lemma run_append_storeBase (ht : HighClear t.eax) (g : GdtEntry) (v : BitVec 16) :
    run (c ++ storeBase g v) s = ⟨linear v >>> 16, t.tables.setBase g (linear v)⟩ := by
  rw [run_append, hc, run_storeBase g v ht]

/-- A gate behind other code. -/
lemma run_append_storeOffset (v : Fin gates) (x : BitVec 32) :
    run (c ++ storeOffset v x) s = ⟨x >>> 16, t.tables.setOffset v x⟩ := by
  rw [run_append, hc, run_storeOffset]

/-- A table's address behind other code. -/
lemma run_append_address (ht : HighClear t.eax) (v : BitVec 16) (n : ℕ)
    (f : Setting → Setting) :
    run (c ++ [movAx v, shlEax 4, addEax (BitVec.ofNat 32 n), f]) s
      = f ⟨linear v + BitVec.ofNat 32 n, t.tables⟩ := by
  rw [run_append, hc, run_address v n f ht]

end After

/-! ### The whole code -/

/-- The tables with the bases of the four segments. -/
def Tables.withBases (P : Placement) (T : Tables) : Tables :=
  (((T.setBase .code16 (linear P.code16)).setBase .code32 (linear P.code32)).setBase .data32
    (linear P.data32)).setBase .stack32 (linear P.stack32)

/-- The tables with the offsets in the five gates that have a name. -/
def Tables.withOffsets (P : Placement) (T : Tables) : Tables :=
  ((((T.setOffset idescr0To12 P.except1).setOffset idescr13 P.except13).setOffset idescr14To31
    P.except1).setOffset int08 P.newInt08).setOffset int09 P.newInt09

/-- The linear address of an offset in `data32`. -/
def Placement.address (P : Placement) (n : ℕ) : BitVec 32 := linear P.data32 + BitVec.ofNat 32 n

lemma Placement.address_toNat (P : Placement) {n : ℕ} (hn : n < 2 ^ 16) :
    (P.address n).toNat = 16 * P.data32.toNat + n := by
  have hv := P.data32.isLt
  rw [address, BitVec.toNat_add, linear_toNat, BitVec.toNat_ofNat]
  omega

lemma run_setUpGdt (P : Placement) (s : Setting) : (run (setUpGdt P) s).tables
    = { s.tables.withBases P with
        pdescr := ⟨BitVec.ofNat 16 (gdtSize - 1), P.address gdtNull⟩ } := by
  have hxor : HighClear (xorEax s).eax := by
    rw [HighClear, xorEax, BitVec.xor_self]
    exact BitVec.extractLsb'_zero
  have h0 : run [xorEax] s = xorEax s := rfl
  have h1 := run_append_storeBase h0 hxor .code16 P.code16
  have h2 := run_append_storeBase h1 (highClear_shr _) .code32 P.code32
  have h3 := run_append_storeBase h2 (highClear_shr _) .data32 P.data32
  have h4 := run_append_storeBase h3 (highClear_shr _) .stack32 P.stack32
  exact congrArg Setting.tables
    (run_append_address h4 (highClear_shr _) P.data32 gdtNull putPdescr)

lemma run_setUpIdt (P : Placement) (s : Setting) : (run (setUpIdt P) s).tables
    = { s.tables.withOffsets P with
        ipdescr := ⟨BitVec.ofNat 16 (idtSize - 1), P.address idt⟩ } := by
  have h0 : run [movAx P.code32] s = movAx P.code32 s := rfl
  have h1 := run_append_storeOffset h0 idescr0To12 P.except1
  have h2 := run_append_storeOffset h1 idescr13 P.except13
  have h3 := run_append_storeOffset h2 idescr14To31 P.except1
  have h4 := run_append_storeOffset h3 int08 P.newInt08
  have h5 := run_append_storeOffset h4 int09 P.newInt09
  exact congrArg Setting.tables
    (run_append_address h5 (highClear_shr _) P.data32 idt putIpdescr)

/-- What the code makes of the tables. -/
lemma tablesAfter_eq (P : Placement) (s : Setting) : tablesAfter P s
    = { (s.tables.withBases P).withOffsets P with
        pdescr := ⟨BitVec.ofNat 16 (gdtSize - 1), P.address gdtNull⟩
        ipdescr := ⟨BitVec.ofNat 16 (idtSize - 1), P.address idt⟩ } := by
  rw [tablesAfter, setUp, run_append, run_setUpIdt, run_setUpGdt]
  rfl

/-! ### The descriptors -/

/-- The segments whose bases are stored, with their segment values. -/
def Placement.segment (P : Placement) : GdtEntry → Option (BitVec 16)
  | .code16 => some P.code16
  | .code32 => some P.code32
  | .data32 => some P.data32
  | .stack32 => some P.stack32
  | .null | .data4gb | .video16 => none

/-- The constant fields of two descriptors agree. -/
def SegDescr.SameRest (d d' : SegDescr) : Prop :=
  d.limit = d'.limit ∧ d.attr1 = d'.attr1 ∧ d.attr2 = d'.attr2

/-- The constant fields of two gates agree. -/
def Gate.SameRest (g g' : Gate) : Prop := g.sel = g'.sel ∧ g.cntr = g'.cntr ∧ g.attr = g'.attr

lemma withBases_gdt (P : Placement) (T : Tables) (g : GdtEntry) : (T.withBases P).gdt g
    = match P.segment g with
      | some v => (T.gdt g).setBase (linear v)
      | none => T.gdt g := by
  cases g <;> simp [Tables.withBases, Tables.setBase, Placement.segment]

lemma Gate.SameRest.trans {g g' g'' : Gate} (h : g.SameRest g') (h' : g'.SameRest g'') :
    g.SameRest g'' :=
  ⟨h.1.trans h'.1, h.2.1.trans h'.2.1, h.2.2.trans h'.2.2⟩

lemma sameRest_setOffset (T : Tables) (w : Fin gates) (x : BitVec 32) (v : Fin gates) :
    ((T.setOffset w x).idt v).SameRest (T.idt v) := by
  change (Function.update T.idt w ((T.idt w).setOffset x) v).SameRest (T.idt v)
  by_cases h : v = w
  · rw [h, Function.update_self]
    exact ⟨rfl, rfl, rfl⟩
  · rw [Function.update_of_ne h]
    exact ⟨rfl, rfl, rfl⟩

lemma sameRest_withOffsets (P : Placement) (T : Tables) (v : Fin gates) :
    ((T.withOffsets P).idt v).SameRest (T.idt v) := by
  refine (sameRest_setOffset _ _ _ v).trans ((sameRest_setOffset _ _ _ v).trans ?_)
  refine (sameRest_setOffset _ _ _ v).trans ((sameRest_setOffset _ _ _ v).trans ?_)
  exact sameRest_setOffset _ _ _ v

/-- **The bases and the pointers**: wherever the program has been loaded, the four descriptors
hold the bases of their segments, `pdescr` and `ipdescr` the addresses of the two tables,
and nothing else of a descriptor has changed. -/
theorem bases_and_pointers (P : Placement) (s : Setting) :
    (∀ g v, P.segment g = some v → ((tablesAfter P s).gdt g).base = 16 * v.toNat
        ∧ ((tablesAfter P s).gdt g).SameRest (s.tables.gdt g))
      ∧ (∀ g, P.segment g = none → (tablesAfter P s).gdt g = s.tables.gdt g)
      ∧ (tablesAfter P s).pdescr.base.toNat = 16 * P.data32.toNat + gdtNull
      ∧ (tablesAfter P s).ipdescr.base.toNat = 16 * P.data32.toNat + idt
      ∧ ∀ v, ((tablesAfter P s).idt v).SameRest (s.tables.idt v) := by
  rw [tablesAfter_eq]
  refine ⟨fun g v hg => ?_, fun g hg => ?_, P.address_toNat (by decide),
    P.address_toNat (by decide), fun v => ?_⟩
  · change (((s.tables.withBases P).gdt g).base = _ ∧ ((s.tables.withBases P).gdt g).SameRest _)
    rw [withBases_gdt, hg]
    exact ⟨(SegDescr.base_setBase _ _).trans (linear_toNat v), rfl, rfl, rfl⟩
  · exact (withBases_gdt P s.tables g).trans (by rw [hg])
  · exact sameRest_withOffsets P (s.tables.withBases P) v

/-! ### The gates -/

/-- The handler meant for a vector. -/
def Placement.handler (P : Placement) (v : Fin gates) : BitVec 32 :=
  if v.val = 13 then P.except13
  else if v.val < 32 then P.except1
  else if v.val = 32 then P.newInt08
  else P.newInt09

/-- The vectors whose gates have a name. -/
def namedGates : List (Fin gates) := [idescr0To12, idescr13, idescr14To31, int08, int09]

lemma withOffsets_named (P : Placement) (T : Tables) {v : Fin gates} (h : v ∈ namedGates) :
    ((T.withOffsets P).idt v).offset = P.handler v := by
  simp only [namedGates, List.mem_cons, List.not_mem_nil, or_false] at h
  rcases h with rfl | rfl | rfl | rfl | rfl <;> exact Gate.offset_setOffset _ _

lemma withOffsets_unnamed (P : Placement) (T : Tables) {v : Fin gates} (h : v ∉ namedGates) :
    (T.withOffsets P).idt v = T.idt v := by
  simp only [namedGates, List.mem_cons, List.not_mem_nil, or_false, not_or] at h
  obtain ⟨h0, h13, h14, h32, h33⟩ := h
  simp only [Tables.withOffsets, Tables.setOffset, Function.update_of_ne h0,
    Function.update_of_ne h13, Function.update_of_ne h14, Function.update_of_ne h32,
    Function.update_of_ne h33]

lemma handler_unnamed (P : Placement) {v : Fin gates} (h : v ∉ namedGates) :
    P.handler v = P.except1 := by
  have hall : ∀ v : Fin gates, v ∉ namedGates → v.val ≠ 13 ∧ v.val < 32 := by decide
  rw [Placement.handler, if_neg (hall v h).1, if_pos (hall v h).2]

lemma initialTables_offset (code16Size code32Size : ℕ) (v : Fin gates) :
    ((initialTables code16Size code32Size).idt v).offset = 0 := by
  simp only [initialTables, Gate.offset]
  split_ifs <;> rfl

/-- **The defect of the gates, exactly**: the `idt` covers the vectors of its gates, and one
of them leads to its handler just when its gate has a name, or the handler of the exceptions
lies at the beginning of `code32`. -/
theorem gates_meant_iff (P : Placement) (eax : BitVec 32) (code16Size code32Size : ℕ) :
    (tablesAfter P ⟨eax, initialTables code16Size code32Size⟩).ipdescr.limit.toNat + 1
        = 8 * gates
      ∧ ∀ v, ((tablesAfter P ⟨eax, initialTables code16Size code32Size⟩).idt v).offset
        = P.handler v ↔ v ∈ namedGates ∨ P.except1 = 0 := by
  rw [tablesAfter_eq]
  refine ⟨(by decide : (BitVec.ofNat 16 (idtSize - 1)).toNat + 1 = 8 * gates), fun v => ?_⟩
  change (((initialTables _ _).withBases P).withOffsets P |>.idt v).offset = _ ↔ _
  by_cases hv : v ∈ namedGates
  · exact iff_of_true (withOffsets_named P _ hv) (Or.inl hv)
  · rw [withOffsets_unnamed P _ hv, handler_unnamed P hv, or_iff_right hv]
    exact (initialTables_offset code16Size code32Size v).symm ▸ eq_comm

/-- A program loaded behind the first 4096 bytes, with its handlers behind `pm_start`. -/
def somewhere : Placement where
  code16 := 0x140
  code32 := 0x130
  data32 := 0x110
  stack32 := 0x100
  except1 := 0x60
  except13 := 0x61
  newInt08 := 0x64
  newInt09 := 0x90

/-- The gate of the divide error is filled in, and that of the next exception is not. -/
theorem second_gate_empty :
    ¬ ∀ v, ((tablesAfter somewhere ⟨0, initialTables 0x200 0x180⟩).idt v).offset
      = somewhere.handler v := by
  intro h
  have h1 := h ⟨1, by decide⟩
  rw [tablesAfter_eq] at h1
  exact absurd (h1.symm.trans (initialTables_offset 0x200 0x180 ⟨1, by decide⟩)) (by decide)

end ProtectedMode

end OperatingSys
