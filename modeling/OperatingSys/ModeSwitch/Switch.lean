import OperatingSys.ModeSwitch.Blocks

/-!
The way of `main.asm` into protected mode and back, up to `STI`.

The bases of the three segments go into the table, and protected mode is entered with it. There
the segment registers are loaded with the selectors, and loaded again when the limits of the
descriptors have been set to those of real mode. So real mode is entered with the limits it needs
(`Back`), and on the way nothing faults and the first two texts are printed (`stretch_before`).
-/

namespace OperatingSys

namespace ModeSwitch

open ProtectedMode (SegDescr Pseudo)

variable {P : Placement} {c c' : Core} {s s' : State} {i : Instr} {w : Option Store}

/-! ### Up to the switch -/

/-- In real mode, with the data segment of the program behind `ds`. -/
structure Started (P : Placement) (c : Core) : Prop where
  cr0 : c.cr0 = P.cr0
  intr : c.intr = true
  cs : c.cs = realSegment P.text
  ds : c.ds = realSegment P.data
  ss : c.ss = realSegment P.ss
  es : c.es = realSegment 0xB800
  sp : c.sp = P.sp
  gdt : c.gdt = initialGdt P
  stack : c.stack = []

lemma realSegment_agrees (v : BitVec 16) : (realSegment v).Agrees := rfl

lemma Loaded.quiet (h : Loaded P s) : s.core.Quiet := by
  obtain ⟨v, hds⟩ := h.ds
  obtain ⟨w, hes⟩ := h.es
  refine fun _ => ⟨?_, fun r => ?_⟩
  · rw [Core.pe, h.cr0, P.real]
  · cases r with
    | cs => rw [Core.seg, h.cs]; exact realSegment_agrees _
    | ds => rw [Core.seg, hds]; exact realSegment_agrees _
    | ss => rw [Core.seg, h.ss]; exact realSegment_agrees _
    | es => rw [Core.seg, hes]; exact realSegment_agrees _

/-- The processor in front of the first text. -/
def atFirst (P : Placement) (c : Core) : Core :=
  { c with
    eax := (X86.Reg.hi .eax).put 0x1E
      ((X86.Reg.r16 .eax).put 0xB800 ((X86.Reg.r16 .eax).put P.data c.eax))
    bx := 46
    cx := 9
    di := 1920
    ds := realSegment P.data
    es := realSegment 0xB800 }

/-- Up to the loop of the first text. -/
lemma runBlock_start (h : Loaded P s) :
    runBlock P (toScreen P ++ [.movDi 1920, .movBx 46, .movCx 9, .movAh 0x1E]) s.core
      = some ([], atFirst P s.core) := by
  obtain ⟨v, hds⟩ := h.ds
  obtain ⟨w, hes⟩ := h.es
  simp [toScreen, runBlock, Instr.exec, Core.load, Core.pe, h.cr0, P.real, Core.setSeg, Core.seg,
    Core.ax, Segment.reload, hds, hes, atFirst, realSegment]

lemma started_atFirst (h : Loaded P s) : Started P (atFirst P s.core) :=
  ⟨h.cr0, h.intr, h.cs, rfl, h.ss, rfl, h.sp, h.gdt, h.stack⟩

lemma printable_atFirst (h : Loaded P s) : Printable P (atFirst P s.core) msg where
  bytes := by change ∀ k < msg.length, byteAt ((46 : BitVec 16).toNat + k) = msg[k]?; decide
  count := rfl
  colored := X86.Reg.of_put _ _ _
  reads := ⟨rfl, by change 46 + 9 ≤ 0xFFFF + 1; omega⟩
  writes := by
    refine ⟨by change 1920 + 2 * 9 ≤ 0xFFFF + 1; omega, fun hpe => ?_⟩
    rw [Core.pe, (started_atFirst h).cr0, P.real] at hpe
    cases hpe
  bx := by change 46 + 9 < 2 ^ 16; omega
  di := by change 1920 + 2 * 9 < 2 ^ 16; omega

/-! ### The tables -/

/-- A descriptor with the base of a segment, less than a megabyte. -/
def based (d : SegDescr) (v : BitVec 16) : SegDescr :=
  { d with
    baseL := (X86.Reg.r16 .eax).of (ProtectedMode.linear v)
    baseM := (X86.Reg.lo .eax).of (ProtectedMode.linear v >>> 16) }

/-- The descriptors with their bases. -/
def preparedGdt (P : Placement) : Gdt where
  data := based (initialGdt P).data P.data
  code := based (initialGdt P).code P.text
  stack := based (initialGdt P).stack P.ss
  screen := (initialGdt P).screen

/-- The address and the size of the table. -/
def pseudo (P : Placement) : Pseudo :=
  ⟨BitVec.ofNat 16 (gdtSize - 1), ProtectedMode.linear P.data⟩

/-- A segment value in the cleared register. -/
lemma put_cleared (x : BitVec 32) (v : BitVec 16) :
    (X86.Reg.r16 .eax).put v (x ^^^ x) = v.setWidth 32 := by
  rw [BitVec.xor_self]
  exact X86.put_r16_zero .eax v

/-- The processor behind the store of a base. -/
def Core.withBase (c : Core) (off : BitVec 16) (e : Entry) (v : BitVec 16) : Core :=
  { c with
    eax := ProtectedMode.linear v >>> 16
    bx := off
    gdt := c.gdt.set e (based (c.gdt.get e) v) }

lemma runBlock_cons {is : List Instr} {ws : List Store} {c₁ c₂ : Core}
    (he : i.exec P c = some (w, c₁)) (hr : runBlock P is c₁ = some (ws, c₂)) :
    runBlock P (i :: is) c = some (w.toList ++ ws, c₂) := by
  rw [runBlock, he, Option.bind_some, hr]
  rfl

/-- An instruction that stores nothing behind `es`. -/
lemma runBlock_silent {is : List Instr} {ws : List Store} {c₁ c₂ : Core}
    (he : i.exec P c = some (none, c₁)) (hr : runBlock P is c₁ = some (ws, c₂)) :
    runBlock P (i :: is) c = some (ws, c₂) := runBlock_cons he hr

lemma runBlock_append {is js : List Instr} {ws ws' : List Store} {c₁ c₂ : Core}
    (hi : runBlock P is c = some (ws, c₁)) (hj : runBlock P js c₁ = some (ws', c₂)) :
    runBlock P (is ++ js) c = some (ws ++ ws', c₂) := by
  induction is generalizing c ws with
  | nil =>
      cases hi
      exact hj
  | cons i is ih =>
      obtain ⟨⟨w, c'⟩, he, hr⟩ := Option.bind_eq_some_iff.mp hi
      obtain ⟨⟨ws₁, c₃⟩, hrun, hr⟩ := Option.map_eq_some_iff.mp hr
      cases hr
      rw [List.append_assoc]
      exact runBlock_cons he (ih hrun)

/-- The tables are inside the data segment in real mode. -/
lemma tables_inside (hpe : c.pe = false) (hds : c.ds = realSegment P.data) {off len : ℕ}
    (hoff : off + len ≤ 2 ^ 16) : c.Reads P off len ∧ c.Writes c.ds off len := by
  rw [Core.Reads, Core.Writes, hds, hpe]
  exact ⟨⟨rfl, hoff⟩, hoff, nofun⟩

@[simp] lemma Gdt.get_set (T : Gdt) (e : Entry) (d : SegDescr) : (T.set e d).get e = d := by
  cases e <;> rfl

@[simp] lemma Gdt.set_set (T : Gdt) (e : Entry) (d d' : SegDescr) :
    (T.set e d).set e d' = T.set e d' := by
  cases e <;> rfl

/-- A store into a descriptor in real mode. -/
lemma putDescr_of_real (hpe : c.pe = false) (hds : c.ds = realSegment P.data) {off len : ℕ}
    (hoff : off + len ≤ 2 ^ 16) (e : Entry) (f : SegDescr → SegDescr) :
    Instr.putDescr P c off len (some e) f
      = some { c with gdt := c.gdt.set e (f (c.gdt.get e)) } :=
  if_pos (tables_inside hpe hds hoff)

lemma exec_putBase1 {e : Entry} (hpe : c.pe = false) (hds : c.ds = realSegment P.data)
    (he : entryAt c.bx = some e) (hoff : c.bx.toNat ≤ 24) : Instr.exec P .putBase1 c
      = some (none, { c with gdt := c.gdt.set e { c.gdt.get e with baseL := c.ax } }) := by
  have hroom : c.bx.toNat + 2 + 2 ≤ 2 ^ 16 := by omega
  rw [Instr.exec, he, putDescr_of_real hpe hds hroom]
  rfl

lemma exec_putBaseM {e : Entry} (hpe : c.pe = false) (hds : c.ds = realSegment P.data)
    (he : entryAt c.bx = some e) (hoff : c.bx.toNat ≤ 24) : Instr.exec P .putBaseM c
      = some (none, { c with
        gdt := c.gdt.set e { c.gdt.get e with baseM := (X86.Reg.lo .eax).of c.eax } }) := by
  have hroom : c.bx.toNat + 4 + 1 ≤ 2 ^ 16 := by omega
  rw [Instr.exec, he, putDescr_of_real hpe hds hroom]
  rfl

/-- The base of a segment below a megabyte goes into its descriptor. -/
lemma runBlock_storeBase {off v : BitVec 16} {e : Entry} (heax : c.eax = ProtectedMode.linear v)
    (hpe : c.pe = false) (hds : c.ds = realSegment P.data) (he : entryAt off = some e)
    (hoff : off.toNat ≤ 24) :
    runBlock P (storeBase off) c = some ([], c.withBase off e v) := by
  have hput₁ := exec_putBase1 (c := { c with bx := off }) hpe hds he hoff
  have hputM := exec_putBaseM (c := { c with
    bx := off
    eax := c.eax >>> 16
    gdt := c.gdt.set e { c.gdt.get e with baseL := c.ax } }) hpe hds he hoff
  refine (runBlock_silent rfl (runBlock_silent hput₁ (runBlock_silent rfl
    (runBlock_silent hputM rfl)))).trans ?_
  dsimp only
  rw [Gdt.get_set, Gdt.set_set, Core.withBase, based, Core.ax, heax]

/-- The processor in front of the switch. -/
def atReady (P : Placement) (c : Core) : Core :=
  { c with
    eax := ProtectedMode.linear P.ss >>> 16
    ebp := ProtectedMode.linear P.data
    bx := 24
    intr := false
    gdtr := pseudo P
    gdt := preparedGdt P
    pdescr := pseudo P }

/-- The linear address of a segment register. -/
lemma runBlock_linear (c : Core) (r : Sreg) : runBlock P [.xorEax, .movAxSeg r, .shlEax 4] c
    = some ([], { c with eax := ProtectedMode.linear (c.seg r).sel }) := by
  have hseg : ({ c with eax := c.eax ^^^ c.eax } : Core).seg r = c.seg r := by cases r <;> rfl
  simp only [runBlock, Instr.exec, Option.bind_some, Option.map_some, Option.toList_none,
    List.nil_append, hseg, put_cleared, ProtectedMode.linear]

/-- `ds` and the address of the tables. -/
lemma runBlock_data (h : Started P c) :
    runBlock P [.xorEax, .movAx P.data, .movSeg .ds, .shlEax 4, .movEbpEax] c
      = some ([], { c with
        eax := ProtectedMode.linear P.data
        ebp := ProtectedMode.linear P.data }) := by
  have hload : Instr.exec P (.movSeg .ds) { c with eax := P.data.setWidth 32 }
      = some (none, { c with eax := P.data.setWidth 32 }) := by
    have hpe : Core.pe { c with eax := P.data.setWidth 32 } = false := by
      rw [Core.pe, h.cr0, P.real]
    have hax : Core.ax { c with eax := P.data.setWidth 32 } = P.data := by
      rw [Core.ax, ← X86.put_r16_zero .eax]
      exact X86.Reg.of_put _ _ _
    have hsame : c.ds.reload P.data = c.ds := by rw [h.ds]; rfl
    rw [Instr.exec, hax, load_of_real hpe, Core.setSeg, Core.seg, hsame]
    rfl
  have hclear : Instr.exec P (.movAx P.data) { c with eax := c.eax ^^^ c.eax }
      = some (none, { c with eax := P.data.setWidth 32 }) := by
    rw [Instr.exec, put_cleared]
  exact runBlock_silent rfl (runBlock_silent hclear (runBlock_silent hload rfl))

/-- The tables behind the stores of the three bases. -/
lemma preparedGdt_eq (P : Placement) : (((initialGdt P).set .data
    (based (initialGdt P).data P.data)).set .code (based (initialGdt P).code P.text)).set .stack
      (based (initialGdt P).stack P.ss) = preparedGdt P := rfl

/-- A store into `pdescr` in real mode. -/
lemma putPdescr_of_real (hpe : c.pe = false) (hds : c.ds = realSegment P.data) {off len : ℕ}
    (hoff : off + len ≤ 2 ^ 16) (f : Pseudo → Pseudo) :
    Instr.putPdescr P c off len f = some { c with pdescr := f c.pdescr } :=
  if_pos (tables_inside hpe hds hoff)

/-- `pdescr` and `LGDT`. -/
lemma runBlock_lgdt (hpe : c.pe = false) (hds : c.ds = realSegment P.data)
    (hebp : c.ebp = ProtectedMode.linear P.data) :
    runBlock P [.movPdescrBase, .movPdescrLimit (BitVec.ofNat 16 (gdtSize - 1)), .lgdt, .cli] c
      = some ([], { c with pdescr := pseudo P, gdtr := pseudo P, intr := false }) := by
  have hbase : Instr.exec P .movPdescrBase c
      = some (none, { c with pdescr := { c.pdescr with base := c.ebp } }) := by
    rw [Instr.exec, putPdescr_of_real hpe hds (by decide)]
    rfl
  have hlimit : Instr.exec P (.movPdescrLimit (BitVec.ofNat 16 (gdtSize - 1)))
      { c with pdescr := { c.pdescr with base := c.ebp } }
        = some (none, { c with pdescr := pseudo P }) := by
    rw [Instr.exec, putPdescr_of_real (by exact hpe) (by exact hds) (by decide), pseudo, ← hebp]
    rfl
  have hlgdt : Instr.exec P .lgdt { c with pdescr := pseudo P }
      = some (none, { c with pdescr := pseudo P, gdtr := pseudo P }) :=
    if_pos (tables_inside (c := { c with pdescr := pseudo P }) hpe hds (by decide)).1
  exact runBlock_silent hbase (runBlock_silent hlimit (runBlock_silent hlgdt rfl))

lemma runBlock_setUp (h : Started P c) : runBlock P (setUp P) c = some ([], atReady P c) := by
  have hpe : c.pe = false := by rw [Core.pe, h.cr0, P.real]
  have h8 : entryAt 8 = some .data := rfl
  have h16 : entryAt 16 = some .code := rfl
  have h24 : entryAt 24 = some .stack := rfl
  have hdata := runBlock_append (runBlock_data h)
    (runBlock_storeBase rfl hpe h.ds h8 (by decide))
  have hcode := runBlock_append (runBlock_append hdata (runBlock_linear _ .cs))
    (runBlock_storeBase rfl hpe h.ds h16 (by decide))
  have hstack := runBlock_append (runBlock_append hcode (runBlock_linear _ .ss))
    (runBlock_storeBase rfl hpe h.ds h24 (by decide))
  refine (runBlock_append hstack (runBlock_lgdt hpe h.ds rfl)).trans ?_
  have hcs : (c.seg .cs).sel = P.text := by rw [Core.seg, h.cs]; rfl
  have hss : (c.seg .ss).sel = P.ss := by rw [Core.seg, h.ss]; rfl
  rw [atReady, ← preparedGdt_eq, ← h.gdt, ← hcs, ← hss]
  rfl

/-! ### In protected mode -/

/-- A descriptor with a base below a megabyte. -/
lemma base_based {d : SegDescr} (hd : d.baseH = 0) (v : BitVec 16) :
    (based d v).base = 16 * v.toNat := by
  have hv := v.isLt
  simp only [SegDescr.base, based, hd, X86.Reg.of, BitVec.extractLsb'_toNat,
    BitVec.toNat_ushiftRight, Nat.shiftRight_eq_div_pow, ProtectedMode.linear_toNat]
  change _ + 2 ^ 24 * 0 = _
  omega

/-- The processor is in protected mode with the table of the program. -/
structure Protected (P : Placement) (c : Core) : Prop where
  cr0 : c.cr0 = P.cr0 ||| 1
  intr : c.intr = false
  gdtr : c.gdtr = pseudo P
  sp : c.sp = P.sp
  stack : c.stack = []

lemma Protected.pe (h : Protected P c) : c.pe = true := by
  rw [Core.pe, h.cr0, peBit, BitVec.getLsbD_or]
  exact Bool.or_true _

lemma quiet_of_off (h : c.intr = false) : c.Quiet := by
  intro hon
  rw [h] at hon
  cases hon

/-- A segment register loaded in protected mode. -/
lemma load_of_pe (hpe : c.pe = true) (hgdtr : c.gdtr = pseudo P) {r : Sreg} {v : BitVec 16}
    {e : Entry} (he : entryAt v = some e) (hv : v.toNat ≤ 32)
    (hp : r.permits (c.gdt.get e).attr1 = true) :
    c.load P r v = some (c.setSeg r (.ofDescr v (c.gdt.get e))) := by
  have hdescr : c.descr P v = some (c.gdt.get e) := by
    have hbase : c.gdtr.base.toNat = 16 * P.data.toNat := by
      rw [hgdtr]
      exact ProtectedMode.linear_toNat P.data
    have hlimit : v.toNat + 7 ≤ c.gdtr.limit.toNat := by
      rw [hgdtr]
      change _ ≤ 39
      omega
    rw [Core.descr, if_pos ⟨hbase, hlimit⟩, he]
    rfl
  rw [Core.load, if_pos hpe, hdescr, Option.bind_some, if_pos hp]

lemma exec_movSeg {r : Sreg} {v : BitVec 16} (hax : c.ax = v) (hl : c.load P r v = some c') :
    Instr.exec P (.movSeg r) c = some (none, c') := by
  rw [Instr.exec, hax, hl]
  rfl

/-- `MOV AX, v` and the load of a segment register. -/
lemma runBlock_selector (hpe : c.pe = true) (hgdtr : c.gdtr = pseudo P) {r : Sreg}
    {v : BitVec 16} {e : Entry} (he : entryAt v = some e) (hv : v.toNat ≤ 32)
    (hp : r.permits (c.gdt.get e).attr1 = true) :
    runBlock P [.movAx v, .movSeg r] c = some ([], { c with
      eax := (X86.Reg.r16 .eax).put v c.eax }.setSeg r (.ofDescr v (c.gdt.get e))) := by
  have hax : Core.ax { c with eax := (X86.Reg.r16 .eax).put v c.eax } = v :=
    X86.Reg.of_put _ _ _
  have hload := load_of_pe (c := { c with eax := (X86.Reg.r16 .eax).put v c.eax })
    hpe hgdtr he hv hp
  exact runBlock_silent rfl (runBlock_silent (exec_movSeg hax hload) rfl)

/-- The processor in front of the second text. -/
def atSecond (c : Core) : Core :=
  { c with
    eax := (X86.Reg.hi .eax).put 0x1E ((X86.Reg.r16 .eax).put 32
      ((X86.Reg.r16 .eax).put 24 ((X86.Reg.r16 .eax).put 8 c.eax)))
    bx := 55
    cx := 14
    di := 2080
    ds := .ofDescr 8 c.gdt.data
    ss := .ofDescr 24 c.gdt.stack
    es := .ofDescr 32 c.gdt.screen }

lemma runBlock_selectors (h : Protected P c) (hgdt : c.gdt = preparedGdt P) :
    runBlock P (selectors ++ [.movDi 2080, .movBx 55, .movCx 14, .movAh 0x1E]) c
      = some ([], atSecond c) := by
  have hdata : Sreg.ds.permits c.gdt.data.attr1 = true := by
    rw [hgdt]
    change Sreg.ds.permits 0x92 = true
    decide
  have hstack : Sreg.ss.permits c.gdt.stack.attr1 = true := by
    rw [hgdt]
    change Sreg.ss.permits 0x92 = true
    decide
  have hscreen : Sreg.es.permits c.gdt.screen.attr1 = true := by
    rw [hgdt]
    change Sreg.es.permits 0x92 = true
    decide
  have hds := runBlock_selector h.pe h.gdtr (r := .ds) (v := 8) (e := .data) rfl (by decide) hdata
  have hss := runBlock_append hds (runBlock_selector (by exact h.pe) (by exact h.gdtr)
    (r := .ss) (v := 24) (e := .stack) rfl (by decide) hstack)
  have hes := runBlock_append hss (runBlock_selector (by exact h.pe) (by exact h.gdtr)
    (r := .es) (v := 32) (e := .screen) rfl (by decide) hscreen)
  exact runBlock_append hes rfl

/-- The segments of data can be written. -/
lemma writable_data : decide ((0x92 : BitVec 8) &&& 0x0A = 0x02) = true := by decide

/-- The table lets the second text be printed. -/
lemma printable_atSecond (hgdt : c.gdt = preparedGdt P) :
    Printable P (atSecond c) msgProtected where
  bytes := by
    change ∀ k < msgProtected.length, byteAt ((55 : BitVec 16).toNat + k) = msgProtected[k]?
    decide
  count := rfl
  colored := X86.Reg.of_put _ _ _
  reads := by
    rw [Core.Reads, atSecond, hgdt]
    exact ⟨base_based rfl _, by change 55 + 14 ≤ 68 + 1; omega⟩
  writes := by
    rw [Core.Writes, atSecond, hgdt]
    exact ⟨by change 2080 + 2 * 14 ≤ 3999 + 1; omega, fun _ => writable_data⟩
  bx := by change 55 + 14 < 2 ^ 16; omega
  di := by change 2080 + 2 * 14 < 2 ^ 16; omega

/-! ### Back to real mode -/

/-- The limits of real mode. -/
def Gdt.widened (T : Gdt) : Gdt where
  data := { T.data with limit := 0xFFFF }
  code := { T.code with limit := 0xFFFF }
  stack := { T.stack with limit := 0xFFFF }
  screen := { T.screen with limit := 0xFFFF }

/-- The segment registers hold what the table says, which is still that of the set-up. -/
structure Switched (P : Placement) (c : Core) : Prop extends Protected P c where
  gdt : c.gdt = preparedGdt P
  ds : c.ds = .ofDescr 8 (preparedGdt P).data
  ss : c.ss = .ofDescr 24 (preparedGdt P).stack
  es : c.es = .ofDescr 32 (preparedGdt P).screen

lemma exec_movLim (hds : c.ds = .ofDescr 8 (preparedGdt P).data) {e : Entry} (v : BitVec 16) :
    Instr.exec P (.movLim e v) c
      = some (none, { c with gdt := c.gdt.set e { c.gdt.get e with limit := v } }) := by
  have hin : ∀ off, off + 2 ≤ 69 → c.Reads P off 2 ∧ c.Writes c.ds off 2 := by
    intro off hoff
    rw [Core.Reads, Core.Writes, hds]
    exact ⟨⟨base_based rfl _, hoff⟩, hoff, fun _ => writable_data⟩
  have hput : ∀ off, off + 2 ≤ 69 → Instr.putDescr P c off 2 (some e)
      (fun d => { d with limit := v })
        = some { c with gdt := c.gdt.set e { c.gdt.get e with limit := v } } :=
    fun off hoff => if_pos (hin off hoff)
  cases e with
  | data => exact congrArg (Option.map (none, ·)) (hput 8 (by decide))
  | code => exact congrArg (Option.map (none, ·)) (hput 16 (by decide))
  | stack => exact congrArg (Option.map (none, ·)) (hput 24 (by decide))
  | screen => exact congrArg (Option.map (none, ·)) (hput 32 (by decide))

/-- The four stores of limits. -/
lemma runBlock_limits (hds : c.ds = .ofDescr 8 (preparedGdt P).data) :
    runBlock P [.movLim .data 0xFFFF, .movLim .code 0xFFFF, .movLim .stack 0xFFFF,
      .movLim .screen 0xFFFF] c = some ([], { c with gdt := c.gdt.widened }) := by
  refine (runBlock_silent (exec_movLim hds _) (runBlock_silent (exec_movLim (by exact hds) _)
    (runBlock_silent (exec_movLim (by exact hds) _)
      (runBlock_silent (exec_movLim (by exact hds) _) rfl)))).trans ?_
  rfl

/-- A segment register is pushed and popped, which loads its shadow register anew. -/
lemma runBlock_again {r : Sreg} {v : BitVec 16} {e : Entry} (hpe : c.pe = true)
    (hgdtr : c.gdtr = pseudo P) (hstack : c.stack = [])
    (hsp : 2 ≤ c.sp.toNat ∧ c.sp.toNat ≤ c.ss.limit + 1) (hw : c.ss.writable = true)
    (hsel : (c.seg r).sel = v) (he : entryAt v = some e) (hv : v.toNat ≤ 32)
    (hp : r.permits (c.gdt.get e).attr1 = true) :
    runBlock P [.push r, .pop r] c = some ([], c.setSeg r (.ofDescr v (c.gdt.get e))) := by
  obtain ⟨hlow, hhigh⟩ := hsp
  have hdown : (c.sp - 2).toNat = c.sp.toNat - 2 := by
    have hlt := c.sp.isLt
    rw [BitVec.toNat_sub]
    change (2 ^ 16 - 2 + c.sp.toNat) % 2 ^ 16 = _
    omega
  have hpush : Instr.exec P (.push r) c
      = some (none, { c with sp := c.sp - 2, stack := (c.seg r).sel :: c.stack }) :=
    if_pos ⟨hlow, by rw [Nat.sub_add_cancel hlow]; exact hhigh, fun _ => hw⟩
  have hsame : { c with sp := c.sp - 2 + 2, stack := [] } = c := by
    rw [BitVec.sub_add_cancel, ← hstack]
  have hpop : Instr.exec P (.pop r) { c with sp := c.sp - 2, stack := [v] }
      = some (none, c.setSeg r (.ofDescr v (c.gdt.get e))) := by
    have hroom : (c.sp - 2).toNat + 2 ≤ c.ss.limit + 1 := by omega
    rw [Instr.exec]
    dsimp only
    rw [if_pos hroom, hsame, load_of_pe hpe hgdtr he hv hp]
    rfl
  rw [hstack, hsel] at hpush
  exact runBlock_silent hpush (runBlock_silent hpop rfl)

/-- The processor in front of the jump to `go`. -/
def atGo (P : Placement) (c : Core) : Core :=
  { c with
    gdt := (preparedGdt P).widened
    ds := .ofDescr 8 (preparedGdt P).widened.data
    ss := .ofDescr 24 (preparedGdt P).widened.stack
    es := .ofDescr 32 (preparedGdt P).widened.screen }

lemma runBlock_widened (h : Switched P c) : runBlock P limits c = some ([], atGo P c) := by
  have hroom := P.room
  have hds : Sreg.ds.permits 0x92 = true := by decide
  have hss : Sreg.ss.permits 0x92 = true := by decide
  have hes : Sreg.es.permits 0x92 = true := by decide
  have hlow : 2 ≤ c.sp.toNat := by rw [h.sp]; exact hroom.1
  have hold : c.sp.toNat ≤ c.ss.limit + 1 := by rw [h.sp, h.ss]; exact hroom.2
  have hwritable : c.ss.writable = true := by rw [h.ss]; exact writable_data
  have hwide : c.sp.toNat ≤ 0xFFFF + 1 := by have hlt := c.sp.isLt; omega
  have hlims := runBlock_limits h.ds
  rw [h.gdt] at hlims
  have hstep₁ := runBlock_append hlims (runBlock_again (r := .ds) (v := 8) (e := .data)
    (by exact h.pe) (by exact h.gdtr) (by exact h.stack) ⟨hlow, hold⟩ hwritable
    (by change c.ds.sel = 8; rw [h.ds]; rfl) rfl (by decide) hds)
  have hstep₂ := runBlock_append hstep₁ (runBlock_again (r := .ss) (v := 24) (e := .stack)
    (by exact h.pe) (by exact h.gdtr) (by exact h.stack) ⟨hlow, hold⟩ hwritable
    (by change c.ss.sel = 24; rw [h.ss]; rfl) rfl (by decide) hss)
  have hstep₃ := runBlock_append hstep₂ (runBlock_again (r := .es) (v := 32) (e := .screen)
    (by exact h.pe) (by exact h.gdtr) (by exact h.stack) ⟨hlow, hwide⟩ writable_data
    (by change c.es.sel = 32; rw [h.es]; rfl) rfl (by decide) hes)
  exact hstep₃

/-- A segment register is loaded in real mode. -/
lemma runBlock_reload (hpe : c.pe = false) (r : Sreg) (v : BitVec 16) :
    runBlock P [.movAx v, .movSeg r] c = some ([], { c with
      eax := (X86.Reg.r16 .eax).put v c.eax }.setSeg r ((c.seg r).reload v)) := by
  have hax : Core.ax { c with eax := (X86.Reg.r16 .eax).put v c.eax } = v :=
    X86.Reg.of_put _ _ _
  have hload := load_of_real (P := P) (c := { c with eax := (X86.Reg.r16 .eax).put v c.eax })
    (by exact hpe) r v
  have hseg : ({ c with eax := (X86.Reg.r16 .eax).put v c.eax } : Core).seg r = c.seg r := by
    cases r <;> rfl
  rw [hseg] at hload
  exact runBlock_silent rfl (runBlock_silent (exec_movSeg hax hload) rfl)

/-- The processor behind the load of `sp`. -/
def restored (P : Placement) (c : Core) : Core :=
  { c with
    eax := (X86.Reg.r16 .eax).put P.stk ((X86.Reg.r16 .eax).put P.data c.eax)
    ds := c.ds.reload P.data
    ss := c.ss.reload P.stk
    sp := 256 }

lemma runBlock_restore (hpe : c.pe = false) :
    runBlock P (restore P) c = some ([], restored P c) := by
  have hds := runBlock_append (runBlock_reload (P := P) hpe .ds P.data)
    (runBlock_reload (by exact hpe) .ss P.stk)
  exact runBlock_append hds rfl

/-! ### The way to `STI` -/

/-- A far jump. -/
lemma step_jmpFar {p l : ℕ} {v : BitVec 16} (hi : (code P)[p]? = some (.jmpFar v l))
    (hl : c.load P .cs v = some c') :
    (machine P).step ⟨p, c⟩ .cpu = some (none, ⟨l, c'⟩) := by
  simp only [machine, cpu, hi, hl, Option.map_some]

/-- The segment registers of real mode when the program is back in it, with some base behind
`es`. -/
structure Back (P : Placement) (b : ℕ) (c : Core) : Prop where
  pe : c.pe = false
  intr : c.intr = true
  cs : c.cs = ⟨P.text, 16 * P.text.toNat, 0xFFFF, 0x98⟩
  ds : c.ds = ⟨P.data, 16 * P.data.toNat, 0xFFFF, 0x92⟩
  ss : c.ss = ⟨P.stk, 16 * P.stk.toNat, 0xFFFF, 0x92⟩
  es : c.es = ⟨32, b, 0xFFFF, 0x92⟩

/-- The linear address of the screen. -/
def SCREEN : ℕ := 0xB8000

/-- The place behind `STI`. -/
def RESTORED : ℕ := 78

/-- The words of a text on the screen. -/
def line (di : ℕ) (t : List (BitVec 8)) : List Store := words (SCREEN + di) t

section Places

attribute [local simp] StandsAt code toScreen printText printLoop setUp storeBase enter selectors
  limits leave restore

/-- Where the parts of the program stand, up to the switch. -/
lemma parts_before (P : Placement) :
    StandsAt P (toScreen P ++ [.movDi 1920, .movBx 46, .movCx 9, .movAh 0x1E]) 0
      ∧ StandsAt P (printLoop 8) 8 ∧ StandsAt P (setUp P) 12 ∧ StandsAt P enter 39
      ∧ (code P)[42]? = some (Instr.jmpFar 16 CONTINUE) := by
  refine ⟨?_, ?_, ?_, ?_, ?_⟩ <;> simp

/-- Where the parts behind it stand. -/
lemma parts_behind (P : Placement) :
    StandsAt P (selectors ++ [.movDi 2080, .movBx 55, .movCx 14, .movAh 0x1E]) CONTINUE
      ∧ StandsAt P (printLoop 53) 53 ∧ StandsAt P limits 57
      ∧ (code P)[67]? = some (Instr.jmpFar 16 GO) ∧ StandsAt P leave GO
      ∧ (code P)[71]? = some (Instr.jmpFar P.text RETURN) ∧ StandsAt P (restore P) RETURN
      ∧ (code P)[77]? = some Instr.sti := by
  refine ⟨?_, ?_, ?_, ?_, ?_, ?_, ?_, ?_⟩ <;> simp [CONTINUE, GO, RETURN]

end Places

/-- Up to the loop of the first text, and through it. -/
lemma stretch_first (h : Loaded P s) : ∃ c, Started P c ∧ c.Quiet
    ∧ (machine P).Stretch .cpu id s (line 1920 msg) ⟨12, c⟩ := by
  obtain ⟨hat, hloop, -⟩ := parts_before P
  obtain ⟨hstart, hq⟩ := stretch_of_block hat h.quiet (by simp [toScreen])
    (fun _ => by simp [toScreen]) (runBlock_start h)
  obtain ⟨eax, bx, cx, di, hprint⟩ := stretch_of_print hloop (by decide) hq (printable_atFirst h)
  have haddr : (atFirst P s.core).es.base + (atFirst P s.core).di.toNat = SCREEN + 1920 := rfl
  have hs : s = ⟨0, s.core⟩ := by rw [← h.ip]
  have hst := started_atFirst h
  rw [haddr] at hprint
  have hboth := Machine.Stretch.append hstart hprint
  rw [List.nil_append, ← hs] at hboth
  refine ⟨_, ?_, ?_, hboth⟩
  · exact ⟨hst.cr0, hst.intr, hst.cs, hst.ds, hst.ss, hst.es, hst.sp, hst.gdt, hst.stack⟩
  · exact (hq.of_eq rfl rfl rfl).1

/-- The switch into protected mode. -/
lemma stretch_switch (h : Started P c) (hq : c.Quiet) : ∃ c', Protected P c'
    ∧ c'.gdt = preparedGdt P ∧ (machine P).Stretch .cpu id ⟨12, c⟩ [] ⟨CONTINUE, c'⟩ := by
  obtain ⟨-, -, hsetUp, henter, hjump⟩ := parts_before P
  have hcode : Sreg.cs.permits 0x98 = true := by decide
  obtain ⟨hready, hq₁⟩ := stretch_of_block hsetUp hq (by simp [setUp, storeBase])
    (fun _ => by simp [setUp, storeBase]) (runBlock_setUp h)
  have hrun : runBlock P enter (atReady P c)
      = some ([], { atReady P c with eax := c.cr0 ||| 1, cr0 := c.cr0 ||| 1 }) := rfl
  obtain ⟨hswitch, hq₂⟩ := stretch_of_block henter hq₁ (by decide) nofun hrun
  have hprot : Protected P { atReady P c with eax := c.cr0 ||| 1, cr0 := c.cr0 ||| 1 } :=
    ⟨by rw [h.cr0], rfl, rfl, h.sp, h.stack⟩
  have hload := load_of_pe (r := .cs) (v := 16) (e := .code) hprot.pe hprot.gdtr rfl (by decide)
    hcode
  have hall := (hready.append hswitch).append
    (.single (step_jmpFar hjump hload) (Core.Quiet.settled hq₂))
  refine ⟨_, ?_, rfl, hall⟩
  exact ⟨hprot.cr0, hprot.intr, hprot.gdtr, hprot.sp, hprot.stack⟩

/-- The base of the screen's descriptor. -/
lemma base_screen (limit : BitVec 16) :
    SegDescr.base ⟨limit, 0x8000, 0x0B, 0x92, 0, 0⟩ = SCREEN := by
  simp [SegDescr.base, SCREEN]

/-- The second text. -/
lemma stretch_second (h : Protected P c) (hgdt : c.gdt = preparedGdt P) : ∃ c', Switched P c'
    ∧ (machine P).Stretch .cpu id ⟨CONTINUE, c⟩ (line 2080 msgProtected) ⟨57, c'⟩ := by
  obtain ⟨hat, hloop, -⟩ := parts_behind P
  obtain ⟨hstart, hq⟩ := stretch_of_block hat (quiet_of_off h.intr) (by decide)
    (fun _ => by decide) (runBlock_selectors h hgdt)
  obtain ⟨eax, bx, cx, di, hprint⟩ := stretch_of_print hloop (by decide) hq
    (printable_atSecond hgdt)
  have haddr : (atSecond c).es.base + (atSecond c).di.toNat = SCREEN + 2080 := by
    have hes : (atSecond c).es.base = SCREEN := by
      rw [atSecond, hgdt]
      exact base_screen _
    rw [hes]
    rfl
  rw [haddr] at hprint
  have hboth := Machine.Stretch.append hstart hprint
  rw [List.nil_append] at hboth
  refine ⟨_, ?_, hboth⟩
  rw [atSecond, hgdt]
  exact ⟨⟨h.cr0, h.intr, h.gdtr, h.sp, h.stack⟩, rfl, rfl, rfl, rfl⟩

/-- Protected mode is left. -/
lemma peBit_left (x : BitVec 32) : peBit ((x ||| 1) &&& 0xFFFFFFFE) = false := by
  rw [peBit, BitVec.getLsbD_and]
  exact Bool.and_false _

/-- The processor at `go`. -/
def reloaded (P : Placement) (c : Core) : Core :=
  { atGo P c with cs := .ofDescr 16 (preparedGdt P).widened.code }

/-- The processor at `return`. -/
def returned (P : Placement) (c : Core) : Core :=
  { reloaded P c with
    eax := c.cr0 &&& 0xFFFFFFFE
    cr0 := c.cr0 &&& 0xFFFFFFFE
    cs := (Segment.ofDescr 16 (preparedGdt P).widened.code).reload P.text }

lemma pe_returned (h : Switched P c) : (returned P c).pe = false := by
  rw [Core.pe, returned, h.cr0]
  exact peBit_left P.cr0

/-- To `go`, with the limits of real mode. -/
lemma stretch_go (h : Switched P c) :
    (machine P).Stretch .cpu id ⟨57, c⟩ [] ⟨GO, reloaded P c⟩ := by
  obtain ⟨-, -, hlimits, hgo, -⟩ := parts_behind P
  have hcode : Sreg.cs.permits 0x98 = true := by decide
  obtain ⟨hwide, hq⟩ := stretch_of_block hlimits (quiet_of_off h.intr) (by decide)
    (fun _ => by decide) (runBlock_widened h)
  have hload := load_of_pe (c := atGo P c) (r := .cs) (v := 16) (e := .code) h.pe h.gdtr rfl
    (by decide) hcode
  exact hwide.append (.single (step_jmpFar hgo hload) (Core.Quiet.settled hq))

/-- To `return`, in real mode. -/
lemma stretch_return (h : Switched P c) :
    (machine P).Stretch .cpu id ⟨GO, reloaded P c⟩ [] ⟨RETURN, returned P c⟩ := by
  obtain ⟨-, -, -, -, hleave, hreturn, -⟩ := parts_behind P
  have hoff : (reloaded P c).intr = false := h.intr
  have hrun : runBlock P leave (reloaded P c) = some ([], { reloaded P c with
      eax := c.cr0 &&& 0xFFFFFFFE
      cr0 := c.cr0 &&& 0xFFFFFFFE }) := rfl
  obtain ⟨hout, hq⟩ := stretch_of_block hleave (quiet_of_off hoff) (by decide)
    (fun hon => absurd (hoff.symm.trans hon) (by decide)) hrun
  have hload : Core.load P { reloaded P c with
      eax := c.cr0 &&& 0xFFFFFFFE
      cr0 := c.cr0 &&& 0xFFFFFFFE } .cs P.text = some (returned P c) :=
    load_of_real (pe_returned h) .cs P.text
  exact hout.append (.single (step_jmpFar hreturn hload) (Core.Quiet.settled hq))

lemma lastOffset_widened {d : SegDescr} (hd : d.attr2 = 0) :
    lastOffset { d with limit := 0xFFFF } = 0xFFFF := by
  simp [lastOffset, hd]

lemma reload_widened (sel v : BitVec 16) {d : SegDescr} (hd : d.attr2 = 0) :
    (Segment.ofDescr sel { d with limit := 0xFFFF }).reload v
      = ⟨v, 16 * v.toNat, 0xFFFF, d.attr1⟩ := by
  rw [Segment.reload, Segment.ofDescr, lastOffset_widened hd]

lemma back_restored (h : Switched P c) :
    Back P SCREEN { restored P (returned P c) with intr := true } where
  pe := pe_returned h
  intr := rfl
  cs := reload_widened 16 P.text rfl
  ds := reload_widened 8 P.data rfl
  ss := reload_widened 24 P.stk rfl
  es := by
    change Segment.ofDescr 32 { (initialGdt P).screen with limit := 0xFFFF } = _
    rw [Segment.ofDescr, lastOffset_widened rfl, initialGdt, base_screen]

/-- `STI`. -/
lemma step_sti {p : ℕ} (hi : (code P)[p]? = some .sti) (c : Core) :
    (machine P).step ⟨p, c⟩ .cpu = some (none, ⟨p + 1, { c with intr := true }⟩) :=
  step_of_exec hi rfl

/-- The segments of real mode, and `STI`. -/
lemma stretch_restore (h : Switched P c) : (machine P).Stretch .cpu id ⟨RETURN, returned P c⟩ []
    ⟨RESTORED, { restored P (returned P c) with intr := true }⟩ := by
  obtain ⟨-, -, -, -, -, -, hrestore, hsti⟩ := parts_behind P
  have hoff : (returned P c).intr = false := h.intr
  obtain ⟨hback, hq⟩ := stretch_of_block hrestore (quiet_of_off hoff) (by simp [restore])
    (fun _ => by simp [restore]) (runBlock_restore (pe_returned h))
  have hon := step_sti hsti (restored P (returned P c))
  exact hback.append (.single hon (Core.Quiet.settled hq))

/-- **Up to `STI`**: the interrupts change nothing, and two texts are printed. -/
lemma stretch_before (h : Loaded P s) : ∃ c, Back P SCREEN c
    ∧ (machine P).Stretch .cpu id s (line 1920 msg ++ line 2080 msgProtected) ⟨RESTORED, c⟩ := by
  obtain ⟨c₁, hstarted, hq, hfirst⟩ := stretch_first h
  obtain ⟨c₂, hprot, hgdt, hswitch⟩ := stretch_switch hstarted hq
  obtain ⟨c₃, hswitched, hsecond⟩ := stretch_second hprot hgdt
  have hback := ((stretch_go hswitched).append (stretch_return hswitched)).append
    (stretch_restore hswitched)
  have hall := (hfirst.append hswitch).append (hsecond.append hback)
  rw [List.append_nil, List.append_nil] at hall
  exact ⟨_, back_restored hswitched, hall⟩

end ModeSwitch

end OperatingSys