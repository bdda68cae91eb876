import OperatingSys.ModeSwitch.Basic

/-!
Parts of `main.asm` that the interrupts do not disturb.

An interrupt changes nothing where each segment register agrees with its shadow register, and
cannot come where interrupts are off (`Core.Quiet`). A block of instructions that starts in such
a state and does not turn the interrupts on is a stretch of the program (`stretch_of_block`), and
so is the loop that prints a text (`stretch_of_print`).
-/

namespace OperatingSys

namespace ModeSwitch

open ProtectedMode (SegDescr Pseudo)

variable {P : Placement} {c c' : Core} {s s' : State} {i : Instr} {w : Option Store}

/-! ### Interrupts that change nothing -/

/-- The shadow register holds what the selector says in real mode. -/
def Segment.Agrees (g : Segment) : Prop := g.base = 16 * g.sel.toNat

/-- Interrupts are off, or the processor is in real mode and its segment registers agree with
their shadow registers. -/
def Core.Quiet (c : Core) : Prop := c.intr = true → c.pe = false ∧ ∀ r, (c.seg r).Agrees

lemma Segment.reload_agrees (g : Segment) (v : BitVec 16) : (g.reload v).Agrees := rfl

lemma Segment.Agrees.again {g : Segment} (h : g.Agrees) (saved : Bool) : g.again saved = g := by
  rw [Segment.again, reload]
  split_ifs
  · rw [← h]
  · rfl

lemma Core.Quiet.served (h : c.Quiet) (hi : c.intr = true) (saved : Saved) :
    c.served saved = c := by
  obtain ⟨-, hall⟩ := h hi
  have hcs : c.cs.Agrees := hall .cs
  have hds : c.ds.Agrees := hall .ds
  have hss : c.ss.Agrees := hall .ss
  have hes : c.es.Agrees := hall .es
  rw [Core.served, hcs.again, hds.again, hss.again, hes.again]

lemma Core.Quiet.settled (h : s.core.Quiet) : (machine P).Settled .cpu id s := by
  intro m e t hm hs
  cases m with
  | cpu => exact absurd rfl hm
  | irq saved =>
      simp only [machine, irq] at hs
      split_ifs at hs with hgo
      cases hs
      exact ⟨by rw [h.served hgo.1], rfl⟩

/-- A segment register loaded in real mode agrees. -/
lemma load_of_real (hpe : c.pe = false) (r : Sreg) (v : BitVec 16) :
    c.load P r v = some (c.setSeg r ((c.seg r).reload v)) := by
  rw [Core.load, hpe, if_neg Bool.false_ne_true]

lemma seg_setSeg (c : Core) (r r' : Sreg) (g : Segment) :
    (c.setSeg r g).seg r' = if r' = r then g else c.seg r' := by
  cases r <;> cases r' <;> rfl

@[simp] lemma setSeg_intr (c : Core) (r : Sreg) (g : Segment) :
    (c.setSeg r g).intr = c.intr := by cases r <;> rfl

@[simp] lemma setSeg_cr0 (c : Core) (r : Sreg) (g : Segment) :
    (c.setSeg r g).cr0 = c.cr0 := by cases r <;> rfl

/-- A load keeps it quiet. -/
lemma Core.Quiet.load (h : c.Quiet) {r : Sreg} {v : BitVec 16} (hl : c.load P r v = some c') :
    c'.Quiet ∧ c'.intr = c.intr := by
  cases hpe : c.pe with
  | true =>
      -- interrupts are off
      have hoff : c.intr = false := by
        by_contra hon
        rw [(h (by simpa using hon)).1] at hpe
        cases hpe
      rw [Core.load, if_pos hpe] at hl
      obtain ⟨d, -, hd⟩ := Option.bind_eq_some_iff.mp hl
      split_ifs at hd
      cases hd
      refine ⟨fun hon => ?_, setSeg_intr _ _ _⟩
      rw [setSeg_intr, hoff] at hon
      cases hon
  | false =>
      rw [load_of_real hpe] at hl
      cases hl
      refine ⟨fun hon => ?_, setSeg_intr _ _ _⟩
      rw [setSeg_intr] at hon
      refine ⟨by rw [Core.pe, setSeg_cr0]; exact hpe, fun r' => ?_⟩
      rw [seg_setSeg]
      split_ifs
      · exact Segment.reload_agrees _ _
      · exact (h hon).2 r'

/-- What is quiet is read off the interrupt flag, `cr0` and the segment registers. -/
lemma Core.Quiet.of_eq (h : c.Quiet) (hi : c'.intr = c.intr) (hcr0 : c'.cr0 = c.cr0)
    (hseg : c'.seg = c.seg) : c'.Quiet ∧ (c'.intr = true → c.intr = true) := by
  refine ⟨fun hon => ?_, fun hon => hi ▸ hon⟩
  rw [hi] at hon
  rw [Core.pe, hcr0, hseg]
  exact h hon

lemma Core.Quiet.putDescr (h : c.Quiet) {off len : ℕ} {e : Option Entry}
    {f : SegDescr → SegDescr} (hp : Instr.putDescr P c off len e f = some c') :
    c'.Quiet ∧ (c'.intr = true → c.intr = true) := by
  obtain ⟨e', -, he⟩ := Option.bind_eq_some_iff.mp hp
  split_ifs at he
  cases he
  exact h.of_eq rfl rfl rfl

lemma Core.Quiet.putPdescr (h : c.Quiet) {off len : ℕ} {f : Pseudo → Pseudo}
    (hp : Instr.putPdescr P c off len f = some c') :
    c'.Quiet ∧ (c'.intr = true → c.intr = true) := by
  rw [Instr.putPdescr] at hp
  split_ifs at hp
  cases hp
  exact h.of_eq rfl rfl rfl

/-- An instruction keeps it quiet, but for `STI`, and for a change of the mode while interrupts
are on. -/
lemma Core.Quiet.exec (h : c.Quiet) (hsti : i ≠ .sti) (hcr0 : c.intr = true → i ≠ .movCr0Eax)
    (he : i.exec P c = some (w, c')) : c'.Quiet ∧ (c'.intr = true → c.intr = true) := by
  cases i with
  | movAx | movAxSeg | movDi | movBx | movCx | movSp | movAh | incBx | xorEax | shlEax | shrEax
  | movEbpEax | movEaxCr0 | orEax | andEax =>
      cases he
      exact h.of_eq rfl rfl rfl
  | movSeg r =>
      obtain ⟨c₁, hl, hr⟩ := Option.map_eq_some_iff.mp he
      cases hr
      obtain ⟨hq, hi⟩ := h.load hl
      exact ⟨hq, fun hon => hi ▸ hon⟩
  | movAlBx =>
      rw [Instr.exec] at he
      split_ifs at he
      obtain ⟨v, -, hr⟩ := Option.map_eq_some_iff.mp he
      cases hr
      exact h.of_eq rfl rfl rfl
  | stosw | lgdt | push =>
      rw [Instr.exec] at he
      split_ifs at he
      cases he
      exact h.of_eq rfl rfl rfl
  | putBase1 | putBaseM | movLim =>
      obtain ⟨c₁, hp, hr⟩ := Option.map_eq_some_iff.mp he
      cases hr
      exact h.putDescr hp
  | movPdescrBase | movPdescrLimit =>
      obtain ⟨c₁, hp, hr⟩ := Option.map_eq_some_iff.mp he
      cases hr
      exact h.putPdescr hp
  | cli =>
      cases he
      exact ⟨nofun, nofun⟩
  | sti => exact absurd rfl hsti
  | movCr0Eax =>
      cases he
      -- the mode changes only with interrupts off
      have hoff : c.intr = false := by
        by_contra hon
        exact hcr0 (by simpa using hon) rfl
      refine ⟨fun hon => ?_, id⟩
      rw [show ({ c with cr0 := c.eax } : Core).intr = c.intr from rfl, hoff] at hon
      cases hon
  | pop r =>
      rw [Instr.exec] at he
      cases hst : c.stack with
      | nil =>
          rw [hst] at he
          cases he
      | cons v st =>
          rw [hst] at he
          dsimp only at he
          split_ifs at he
          obtain ⟨c₁, hl, hr⟩ := Option.map_eq_some_iff.mp he
          cases hr
          have hq : ({ c with sp := c.sp + 2, stack := st } : Core).Quiet :=
            (h.of_eq rfl rfl rfl).1
          obtain ⟨hq', hi⟩ := hq.load hl
          exact ⟨hq', fun hon => hi ▸ hon⟩
  | loop | jmpFar | int21 => cases he

/-! ### Blocks of instructions -/

/-- A block of instructions that go on one with the other: what it stores, and the processor
behind it. -/
def runBlock (P : Placement) : List Instr → Core → Option (List Store × Core)
  | [], c => some ([], c)
  | i :: is, c =>
      (i.exec P c).bind fun q => (runBlock P is q.2).map fun r => (q.1.toList ++ r.1, r.2)

lemma step_of_exec {p : ℕ} (hi : (code P)[p]? = some i) (he : i.exec P c = some (w, c')) :
    (machine P).step ⟨p, c⟩ .cpu = some (w, ⟨p + 1, c'⟩) := by
  simp only [machine, cpu, hi]
  cases i with
  | loop | jmpFar | int21 => cases he
  | movAx | movSeg | movAxSeg | movDi | movBx | movCx | movSp | movAh | movAlBx | incBx | stosw
  | xorEax | shlEax | shrEax | movEbpEax | putBase1 | putBaseM | movPdescrBase | movPdescrLimit
  | lgdt | cli | sti | movEaxCr0 | orEax | andEax | movCr0Eax | movLim | push | pop =>
      dsimp only
      rw [he]
      rfl

/-- The instructions that stand at a place of the program. -/
def StandsAt (P : Placement) (is : List Instr) (p : ℕ) : Prop :=
  ((code P).drop p).take is.length = is

lemma StandsAt.cons {is : List Instr} {p : ℕ} (h : StandsAt P (i :: is) p) :
    (code P)[p]? = some i ∧ StandsAt P is (p + 1) := by
  rw [StandsAt] at h
  cases hd : (code P).drop p with
  | nil =>
      rw [hd] at h
      cases h
  | cons j js =>
      rw [hd, List.length_cons, List.take_succ_cons] at h
      obtain ⟨rfl, htail⟩ := List.cons.inj h
      constructor
      · have hhead := congrArg List.head? hd
        rwa [List.head?_drop] at hhead
      · rw [StandsAt, ← List.tail_drop, hd]
        exact htail

lemma StandsAt.take {is : List Instr} {p : ℕ} (h : StandsAt P is p) (n : ℕ) :
    StandsAt P (is.take n) p := by
  rw [StandsAt, List.length_take, ← List.take_take, h]

/-- **A block is a stretch** of the program. -/
lemma stretch_of_block {is : List Instr} {p : ℕ} (hat : StandsAt P is p)
    (hq : c.Quiet) (hsti : Instr.sti ∉ is) (hcr0 : c.intr = true → Instr.movCr0Eax ∉ is)
    {ws : List Store} (h : runBlock P is c = some (ws, c')) :
    (machine P).Stretch .cpu id ⟨p, c⟩ ws ⟨p + is.length, c'⟩ ∧ c'.Quiet := by
  induction is generalizing p c ws with
  | nil =>
      cases h
      exact ⟨.nil _, hq⟩
  | cons i is ih =>
      obtain ⟨hi, hrest⟩ := hat.cons
      rw [List.mem_cons, not_or] at hsti
      obtain ⟨hne, hsti⟩ := hsti
      obtain ⟨⟨w, c₁⟩, he, hr⟩ := Option.bind_eq_some_iff.mp h
      obtain ⟨⟨ws', c₂⟩, hrun, hr⟩ := Option.map_eq_some_iff.mp hr
      cases hr
      obtain ⟨hq₁, hon⟩ := hq.exec (Ne.symm hne)
        (fun hi hcr => hcr0 hi (hcr ▸ List.mem_cons_self)) he
      obtain ⟨hstretch, hq'⟩ := ih hrest hq₁ hsti
        (fun hi hm => hcr0 (hon hi) (List.mem_cons_of_mem _ hm)) hrun
      refine ⟨?_, hq'⟩
      rw [List.length_cons, ← Nat.add_assoc, Nat.add_right_comm]
      exact .cons (step_of_exec hi he) (Core.Quiet.settled hq) hstretch

/-! ### A text on the screen -/

/-- The words of a text with their addresses, from `a` on. -/
def words (a : ℕ) : List (BitVec 8) → List Store
  | [] => []
  | x :: t => (a, (0x1E : BitVec 8) ++ x) :: words (a + 2) t

/-- The attribute of the text is in `ah`. -/
def Core.Colored (c : Core) : Prop := (X86.Reg.hi .eax).of c.eax = 0x1E

/-- A character in `al` goes with the attribute. -/
lemma ax_put_lo (x : BitVec 32) (v : BitVec 8) :
    (X86.Reg.r16 .eax).of ((X86.Reg.lo .eax).put v x) = (X86.Reg.hi .eax).of x ++ v
      ∧ (X86.Reg.hi .eax).of ((X86.Reg.lo .eax).put v x) = (X86.Reg.hi .eax).of x := by
  constructor
  · apply BitVec.eq_of_getLsbD_eq
    intro i hi
    simp only [X86.Reg.of, X86.Reg.put, BitVec.getLsbD_extractLsb', BitVec.getLsbD_append]
    by_cases h : i < 8
    · simp [h, hi]
    · simp [h, hi, show i - 8 < 24 by omega, show i - 8 < 8 by omega]
  · apply BitVec.eq_of_getLsbD_eq
    intro i hi
    simp only [X86.Reg.of, X86.Reg.put, BitVec.getLsbD_extractLsb', BitVec.getLsbD_append]
    simp [hi, show i < 24 by omega]

/-- What a text needs to be printed: it stands at `bx`, `cx` is its length, and there is room for
it behind `es` at `di`. -/
structure Printable (P : Placement) (c : Core) (t : List (BitVec 8)) : Prop where
  bytes : ∀ k < t.length, byteAt (c.bx.toNat + k) = t[k]?
  count : c.cx.toNat = t.length
  colored : c.Colored
  reads : c.Reads P c.bx.toNat t.length
  writes : c.Writes c.es c.di.toNat (2 * t.length)
  bx : c.bx.toNat + t.length < 2 ^ 16
  di : c.di.toNat + 2 * t.length < 2 ^ 16

/-- The four instructions of the loop. -/
def printLoop (l : ℕ) : List Instr := [.movAlBx, .incBx, .stosw, .loop l]

/-- The processor behind the store of a character. -/
def Core.stored (c : Core) (x : BitVec 8) : Core :=
  { c with
    eax := (X86.Reg.lo .eax).put x c.eax
    bx := c.bx + 1
    di := c.di + 2 }

lemma Printable.tail {x : BitVec 8} {t : List (BitVec 8)} (h : Printable P c (x :: t)) :
    Printable P { c.stored x with cx := c.cx - 1 } t := by
  have hbx := h.bx
  have hdi := h.di
  have hcount := h.count
  have hreads := h.reads.2
  have hwrites := h.writes.1
  rw [List.length_cons] at hbx hdi hcount hreads hwrites
  -- none of the registers wraps around
  have hbx' : (c.bx + 1).toNat = c.bx.toNat + 1 := by
    rw [BitVec.toNat_add]
    exact Nat.mod_eq_of_lt (by change c.bx.toNat + 1 < 2 ^ 16; omega)
  have hdi' : (c.di + 2).toNat = c.di.toNat + 2 := by
    rw [BitVec.toNat_add]
    exact Nat.mod_eq_of_lt (by change c.di.toNat + 2 < 2 ^ 16; omega)
  have hcx' : (c.cx - 1).toNat = t.length := by
    have hcx := c.cx.isLt
    rw [BitVec.toNat_sub, hcount]
    change (2 ^ 16 - 1 + (t.length + 1)) % 2 ^ 16 = t.length
    omega
  refine ⟨fun k hk => ?_, hcx', ?_, ⟨h.reads.1, ?_⟩, ⟨?_, h.writes.2⟩, ?_, ?_⟩
  · have hbyte := h.bytes (k + 1) (by rw [List.length_cons]; omega)
    rw [List.getElem?_cons_succ] at hbyte
    change byteAt ((c.bx + 1).toNat + k) = _
    rw [hbx', ← hbyte, Nat.add_right_comm, Nat.add_assoc]
  · exact (ax_put_lo c.eax x).2.trans h.colored
  · change (c.bx + 1).toNat + t.length ≤ c.ds.limit + 1
    omega
  · change (c.di + 2).toNat + 2 * t.length ≤ c.es.limit + 1
    omega
  · change (c.bx + 1).toNat + t.length < 2 ^ 16
    omega
  · change (c.di + 2).toNat + 2 * t.length < 2 ^ 16
    omega

/-- A character is read. -/
lemma exec_movAlBx {x : BitVec 8} {t : List (BitVec 8)} (h : Printable P c (x :: t)) :
    Instr.exec P .movAlBx c = some (none, { c with eax := (X86.Reg.lo .eax).put x c.eax }) := by
  have hlen := h.reads.2
  have hbyte : byteAt c.bx.toNat = some x := h.bytes 0 (Nat.succ_pos _)
  rw [List.length_cons] at hlen
  have hreads : c.Reads P c.bx.toNat 1 := ⟨h.reads.1, by omega⟩
  rw [Instr.exec, if_pos hreads, hbyte]
  rfl

/-- And stored. -/
lemma exec_stosw {x : BitVec 8} {t : List (BitVec 8)} (h : Printable P c (x :: t)) :
    Instr.exec P .stosw { c with eax := (X86.Reg.lo .eax).put x c.eax, bx := c.bx + 1 }
      = some (some (c.es.base + c.di.toNat, (0x1E : BitVec 8) ++ x), c.stored x) := by
  have hlen := h.writes.1
  rw [List.length_cons] at hlen
  have hwrites : c.Writes c.es c.di.toNat 2 := ⟨by omega, h.writes.2⟩
  have hword : (X86.Reg.r16 .eax).of ((X86.Reg.lo .eax).put x c.eax) = (0x1E : BitVec 8) ++ x := by
    rw [(ax_put_lo c.eax x).1, h.colored]
  refine (if_pos hwrites).trans ?_
  rw [← hword]
  rfl

/-- The store of a character. -/
lemma runBlock_store {x : BitVec 8} {t : List (BitVec 8)} (h : Printable P c (x :: t)) :
    runBlock P [.movAlBx, .incBx, .stosw] c
      = some ([(c.es.base + c.di.toNat, (0x1E : BitVec 8) ++ x)], c.stored x) := by
  rw [runBlock, exec_movAlBx h, Option.bind_some, runBlock, Instr.exec, Option.bind_some, runBlock,
    exec_stosw h]
  rfl

/-- `LOOP`. -/
lemma step_loop {p l : ℕ} (hi : (code P)[p]? = some (.loop l)) (c : Core) :
    (machine P).step ⟨p, c⟩ .cpu
      = some (none, ⟨if c.cx - 1 = 0 then p + 1 else l, { c with cx := c.cx - 1 }⟩) := by
  simp only [machine, cpu, hi]

/-- The loop prints a text. -/
lemma stretch_of_print {l : ℕ} (hat : StandsAt P (printLoop l) l) {t : List (BitVec 8)}
    (hne : t ≠ []) (hq : c.Quiet) (h : Printable P c t) : ∃ eax bx cx di,
      (machine P).Stretch .cpu id ⟨l, c⟩ (words (c.es.base + c.di.toNat) t)
        ⟨l + 4, { c with eax := eax, bx := bx, cx := cx, di := di }⟩ := by
  induction t generalizing c with
  | nil => exact absurd rfl hne
  | cons x t ih =>
      obtain ⟨hat₀, hat₁⟩ := hat.cons
      obtain ⟨-, hat₂⟩ := hat₁.cons
      obtain ⟨-, hat₃⟩ := hat₂.cons
      -- the body of the loop, and then `loop` itself
      have hblock : StandsAt P [.movAlBx, .incBx, .stosw] l := hat.take 3
      obtain ⟨hstore, hq'⟩ := stretch_of_block hblock hq (by decide) (fun _ => by decide)
        (runBlock_store h)
      have hnext : Core.Quiet { c.stored x with cx := c.cx - 1 } := (hq'.of_eq rfl rfl rfl).1
      have hfetch : (code P)[l + 3]? = some (.loop l) := hat₃.cons.1
      have hloop := step_loop hfetch (c.stored x)
      have hturn := hstore.append (.single hloop (Core.Quiet.settled hq'))
      have hcount := h.tail.count
      cases t with
      | nil =>
          -- that was the last character
          have hzero : c.cx - 1 = 0 := BitVec.eq_of_toNat_eq hcount
          rw [if_pos (show (c.stored x).cx - 1 = 0 from hzero)] at hturn
          exact ⟨_, _, _, _, hturn⟩
      | cons y t =>
          -- there are more, so `cx` is not zero yet
          have hmore : c.cx - 1 ≠ 0 := by
            intro h0
            rw [List.length_cons] at hcount
            change (c.cx - 1).toNat = _ at hcount
            rw [h0] at hcount
            cases hcount
          have hdi : (c.di + 2).toNat = c.di.toNat + 2 := by
            have hlt := h.di
            rw [List.length_cons] at hlt
            rw [BitVec.toNat_add]
            exact Nat.mod_eq_of_lt (by change c.di.toNat + 2 < 2 ^ 16; omega)
          rw [if_neg (show ¬ (c.stored x).cx - 1 = 0 from hmore)] at hturn
          obtain ⟨eax, bx, cx, di, hrest⟩ := ih (by simp) hnext h.tail
          change (machine P).Stretch .cpu id _ (words (c.es.base + (c.di + 2).toNat) _) _ at hrest
          rw [hdi] at hrest
          exact ⟨eax, bx, cx, di, hturn.append hrest⟩

end ModeSwitch

end OperatingSys
