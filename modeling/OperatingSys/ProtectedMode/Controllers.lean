import OperatingSys.Foundations.I8259
import OperatingSys.Foundations.Machine

/-!
The interrupt controllers on the way to protected mode and back.

`start` saves the masks of both controllers, gives the master the base `32`, masks all lines
but those of the timer and of the keyboard, and only then turns interrupts off. Protected mode
is entered and left with interrupts off, and `return_rm` gives back the base, the masks and the
table of real mode. The devices may request interrupts at any time, and the processor accepts
them between two instructions; a handler is taken as one that ends and leaves the rest as it
was.

* `ports`: the instructions that touch the controllers, `cr0`, `idtr`, the interrupt flag and
  the ports `70h` and `92h`, in the order of the source.
* `proper_iff`: which interrupts reach the handler of their line.
* `restored`: what is given back at the end, and what is not.
-/

namespace OperatingSys

namespace ProtectedMode

namespace Controllers

/-- The ports `20h`, `21h`, `0A1h`, `92h` and `70h`. -/
inductive Port where
  | command | masterData | slaveData | system | cmos
  deriving DecidableEq, Repr

/-- `ipdescr` and `ipdescr16`. -/
inductive Table where
  | idt | vectors
  deriving DecidableEq, Repr

/-- `mask_master` and `mask_slave`. -/
inductive Mask where
  | master | slave
  deriving DecidableEq, Repr

/-- An instruction. `al` is the accumulator; `movFromCr0` and `movToCr0` take the low byte of
`cr0`, as the others are only moved to `eax` and back. `process` is the loop in protected mode
that waits for the flag, with the code before it. -/
inductive Code where
  | inAl (p : Port) | outAl (p : Port)
  | movAl (v : BitVec 8) | andAl (v : BitVec 8) | orAl (v : BitVec 8)
  | movFromCr0 | movToCr0
  | save (m : Mask) | load (m : Mask)
  | cli | sti | lidt (t : Table) | process
  deriving DecidableEq

/-- The processor and what is behind the ports. The ports `92h` and `70h` keep what is written
to them: bit `1` of the one opens the line A20, bit `7` of the other blocks the interrupts
that have no mask. -/
@[ext]
structure Hardware where
  master : Controller
  slave : Controller
  interrupts : Bool
  cr0 : BitVec 8
  idtr : Table
  system : BitVec 8
  cmos : BitVec 8
  al : BitVec 8
  maskMaster : BitVec 8
  maskSlave : BitVec 8
  ip : ℕ

/-- Bit `0` of `cr0`. -/
def Hardware.protectedMode (s : Hardware) : Bool := s.cr0.getLsbD 0

/-- What an instruction does beside going on to the next. -/
def Code.effect (s : Hardware) : Code → Hardware
  | .inAl .command => s
  | .inAl .masterData => { s with al := s.master.imr }
  | .inAl .slaveData => { s with al := s.slave.imr }
  | .inAl .system => { s with al := s.system }
  | .inAl .cmos => { s with al := s.cmos }
  | .outAl .command => { s with master := s.master.command s.al }
  | .outAl .masterData => { s with master := s.master.data s.al }
  | .outAl .slaveData => { s with slave := s.slave.data s.al }
  | .outAl .system => { s with system := s.al }
  | .outAl .cmos => { s with cmos := s.al }
  | .movAl v => { s with al := v }
  | .andAl v => { s with al := s.al &&& v }
  | .orAl v => { s with al := s.al ||| v }
  | .movFromCr0 => { s with al := s.cr0 }
  | .movToCr0 => { s with cr0 := s.al }
  | .save .master => { s with maskMaster := s.al }
  | .save .slave => { s with maskSlave := s.al }
  | .load .master => { s with al := s.maskMaster }
  | .load .slave => { s with al := s.maskSlave }
  | .cli => { s with interrupts := false }
  | .sti => { s with interrupts := true }
  | .lidt t => { s with idtr := t }
  | .process => s

def Code.exec (s : Hardware) (i : Code) : Hardware := { i.effect s with ip := s.ip + 1 }

/-- The words of an initialization of the master with a base. -/
def setBase (base : BitVec 8) : List Code :=
  [.movAl 0x11, .outAl .command, .movAl base, .outAl .masterData, .movAl 4, .outAl .masterData,
    .movAl 1, .outAl .masterData]

/-- `start`, from where the masks are saved. -/
def entering : List Code :=
  [.inAl .masterData, .save .master, .inAl .slaveData, .save .slave] ++ setBase 32
    ++ [.movAl 0xFC, .outAl .masterData, .movAl 0xFF, .outAl .slaveData,
      .inAl .system, .orAl 2, .outAl .system, .cli, .lidt .idt, .movAl 0x80, .outAl .cmos,
      .movFromCr0, .orAl 1, .movToCr0]

/-- `pm_start`. -/
def inside : List Code := [.sti, .process, .cli]

/-- `return_rm`, up to where interrupts are allowed. -/
def leaving : List Code :=
  [.movFromCr0, .andAl 0xFE, .movToCr0] ++ setBase 8
    ++ [.load .master, .outAl .masterData, .load .slave, .outAl .slaveData, .lidt .vectors,
      .inAl .cmos, .andAl 0x7F, .outAl .cmos, .sti]

def ports : List Code := entering ++ inside ++ leaving

/-! ### Interrupts -/

/-- A line of one of the controllers. -/
structure Line where
  slave : Bool
  number : Fin 8
  deriving DecidableEq

/-- Who moves: the processor, a device that makes a request on its line, or the processor when
it accepts a request. -/
inductive Mover where
  | code | device (l : Line) | accepts
  deriving DecidableEq

/-- What happens: an instruction, a request, or an interrupt with its number, by the table
`idtr` holds and in protected mode or not. -/
inductive Event where
  | executes | requests (l : Line)
  | accepts (l : Line) (vector : BitVec 8) (table : Table) (protectedMode : Bool)
  deriving DecidableEq

/-- The line whose request reaches the processor. The slave is behind line `2` of the
master. -/
def Hardware.pending (s : Hardware) : Option Line :=
  match s.slave.asks s.slave.irr with
  | none => (s.master.asks s.master.irr).map (Line.mk false)
  | some j => (s.master.asks (insert 2 s.master.irr)).map fun k =>
      if k = 2 then ⟨true, j⟩ else ⟨false, k⟩

/-- An interrupt for the line `l`. -/
def Hardware.interrupt (s : Hardware) (l : Line) : Event × Hardware :=
  if l.slave then
    (.accepts l (s.slave.vector l.number) s.idtr s.protectedMode,
      { s with slave := s.slave.accept l.number })
  else
    (.accepts l (s.master.vector l.number) s.idtr s.protectedMode,
      { s with master := s.master.accept l.number })

/-- One step: no device is at line `2` of the master. -/
def step (s : Hardware) : Mover → Option (Event × Hardware)
  | .code => ports[s.ip]?.map fun i => (.executes, i.exec s)
  | .device l =>
      if l.slave then some (.requests l, { s with slave := s.slave.request l.number })
      else if l.number = 2 then none
      else some (.requests l, { s with master := s.master.request l.number })
  | .accepts => if s.interrupts then s.pending.map s.interrupt else none

/-- The code, the devices and the interrupts. -/
def program : Machine Hardware Mover Event where
  step := step

/-- The machine as the code finds it: real mode with its table and interrupts on, and the
controllers with the numbers that the system has given them. -/
structure RealMode (s : Hardware) : Prop where
  master : s.master.awaits = .mask
  base : s.master.base = 8
  slave : s.slave.awaits = .mask
  slaveBase : s.slave.base = 0x70
  interrupts : s.interrupts = true
  realMode : s.protectedMode = false
  idtr : s.idtr = .vectors
  ip : s.ip = 0

/-- **The interrupt reaches the handler of its line**: in real mode by the table of real mode
with the numbers of the system, in protected mode the timer and the keyboard alone, by the
`idt`. -/
def Proper (l : Line) (vector : BitVec 8) (table : Table) (protectedMode : Bool) : Prop :=
  protectedMode = false ∧ table = .vectors
      ∧ vector.toNat = (if l.slave then 0x70 else 8) + l.number.val
    ∨ protectedMode = true ∧ table = .idt ∧ l.slave = false ∧ l.number.val < 2
      ∧ vector.toNat = 32 + l.number.val

/-! ### The state at a place of the code -/

/-- The machine after the first `n` instructions alone. -/
def after (n : ℕ) (s : Hardware) : Hardware := (ports.take n).foldl Code.exec s

/-- The machine without the requests. -/
def Hardware.quiet (s : Hardware) : Hardware :=
  { s with master := s.master.quiet, slave := s.slave.quiet }

/-- How many instructions have been executed. -/
def executed (tr : List (Mover × Event)) : ℕ := tr.countP fun q => q.2 matches .executes

variable {s s' t : Hardware} {tr : List (Mover × Event)} {m : Mover} {e : Event} {l : Line}

lemma quiet_exec (i : Code) (s : Hardware) : (i.exec s).quiet = (i.exec s.quiet).quiet := by
  cases i with
  | outAl p =>
      cases p with
      | command =>
          exact congrArg (fun c => { (Code.exec s (.outAl .command)).quiet with master := c })
            Controller.quiet_command
      | masterData =>
          exact congrArg (fun c => { (Code.exec s (.outAl .masterData)).quiet with master := c })
            Controller.quiet_data
      | slaveData =>
          exact congrArg (fun c => { (Code.exec s (.outAl .slaveData)).quiet with slave := c })
            Controller.quiet_data
      | system | cmos => rfl
  | inAl p => cases p <;> rfl
  | save m | load m => cases m <;> rfl
  | movAl | andAl | orAl | movFromCr0 | movToCr0 | cli | sti | lidt | process => rfl

/-- What a step can be: an instruction, or a change of the requests alone. -/
lemma cases_of_step (h : step s m = some (e, s')) :
    (∃ i, ports[s.ip]? = some i ∧ e = .executes ∧ s' = i.exec s)
      ∨ (e ≠ .executes ∧ s'.quiet = s.quiet) := by
  cases m with
  | code =>
      obtain ⟨i, hi, hs⟩ := Option.map_eq_some_iff.mp h
      cases hs
      exact Or.inl ⟨i, hi, rfl, rfl⟩
  | device l =>
      right
      rw [step] at h
      split_ifs at h <;> cases h <;> exact ⟨by simp, rfl⟩
  | accepts =>
      right
      rw [step] at h
      split_ifs at h
      obtain ⟨l, -, hs⟩ := Option.map_eq_some_iff.mp h
      rw [Hardware.interrupt] at hs
      split_ifs at hs <;> cases hs <;> exact ⟨by simp, rfl⟩

lemma after_succ {n : ℕ} {i : Code} (hi : ports[n]? = some i) (s : Hardware) :
    after (n + 1) s = i.exec (after n s) := by
  rw [after, List.take_add_one, hi, List.foldl_append]
  rfl

/-- **The devices only make requests**: but for them, the machine is where the code alone has
led it. -/
lemma quiet_of_run (h : program.Run s tr t) (hip : s.ip = 0) :
    t.ip = executed tr ∧ t.ip ≤ ports.length ∧ t.quiet = (after t.ip s).quiet := by
  induction h with
  | nil => exact ⟨hip, by rw [hip]; exact Nat.zero_le _, by rw [hip]; rfl⟩
  | @snoc tr t t' m e _ hs ih =>
      obtain ⟨hcount, hle, hquiet⟩ := ih
      rw [executed, List.countP_append]
      rcases cases_of_step hs with ⟨i, hi, rfl, rfl⟩ | ⟨he, hkeep⟩
      · have hlt : t.ip < ports.length := (List.getElem?_eq_some_iff.mp hi).1
        refine ⟨congrArg (· + 1) hcount, hlt, ?_⟩
        change (i.exec t).quiet = (after (t.ip + 1) s).quiet
        rw [after_succ hi, quiet_exec, hquiet, ← quiet_exec]
      · have hsame : t'.ip = t.ip := by
          change t'.quiet.ip = t.quiet.ip
          rw [hkeep]
        rw [hsame, hkeep]
        refine ⟨?_, hle, hquiet⟩
        rw [hcount, executed]
        cases e with
        | executes => exact absurd rfl he
        | requests | accepts => rfl

/-- What an instruction does to the interrupt flag. -/
def Code.flag (b : Bool) : Code → Bool
  | .cli => false
  | .sti => true
  | .inAl _ | .outAl _ | .movAl _ | .andAl _ | .orAl _ | .movFromCr0 | .movToCr0 | .save _
  | .load _ | .lidt _ | .process => b

lemma interrupts_exec (i : Code) (s : Hardware) :
    (i.exec s).interrupts = i.flag s.interrupts := by
  cases i with
  | outAl p | inAl p => cases p <;> rfl
  | save m | load m => cases m <;> rfl
  | movAl | andAl | orAl | movFromCr0 | movToCr0 | cli | sti | lidt | process => rfl

lemma interrupts_after (n : ℕ) (s : Hardware) :
    (after n s).interrupts = (ports.take n).foldl Code.flag s.interrupts :=
  (List.foldl_hom Hardware.interrupts fun s i => (interrupts_exec i s).symm).symm

/-- Interrupts are off from the `cli` before protected mode to its `sti`, and from its `cli` to
the last instruction. -/
lemma interrupts_off {n : ℕ} (h : 20 ≤ n ∧ n ≤ 26 ∨ 29 ≤ n ∧ n ≤ 48) (s : Hardware) :
    (after n s).interrupts = false := by
  have hall : ∀ k ≤ 48, 20 ≤ k ∧ k ≤ 26 ∨ 29 ≤ k →
      ∀ b, (ports.take k).foldl Code.flag b = false := by decide
  rw [interrupts_after]
  exact hall n (by omega) (by omega) _

/-- The machine as the code finds it, with its values. -/
lemma RealMode.eq (h : RealMode s) : s = ⟨⟨8, s.master.imr, s.master.irr, .mask⟩,
    ⟨0x70, s.slave.imr, s.slave.irr, .mask⟩, true, s.cr0, .vectors, s.system, s.cmos, s.al,
    s.maskMaster, s.maskSlave, 0⟩ := by
  obtain ⟨⟨b, imr, irr, aw⟩, ⟨b', imr', irr', aw'⟩, i, cr0, t, sys, cmos, al, mm, ms, ip⟩ := s
  obtain ⟨hm, hb, hs, hsb, hi, -, ht, hip⟩ := h
  dsimp only at hm hb hs hsb hi ht hip
  subst hm hb hs hsb hi ht hip
  rfl

section Places

variable {n : ℕ}

/-- Before the first word for the master. -/
lemma after_before (h : RealMode s) (hn : n ≤ 5) : (after n s).master.base = 8
    ∧ (after n s).slave.base = 0x70 ∧ (after n s).protectedMode = false
    ∧ (after n s).idtr = .vectors := by
  have hpe : s.cr0.getLsbD 0 = false := h.realMode
  rw [h.eq]
  interval_cases n <;> exact ⟨rfl, rfl, hpe, rfl⟩

/-- The master waits for words. -/
lemma after_awaiting (h : RealMode s) (h5 : 5 < n) (hn : n ≤ 11) :
    (after n s).master.awaits ≠ .mask := by
  rw [h.eq]
  interval_cases n <;> simp [after, ports, entering, setBase, Code.exec, Code.effect,
    Controller.command, Controller.data]

/-- The master has its new base, and interrupts are still on. -/
lemma after_window (h : RealMode s) (h11 : 11 < n) (hn : n ≤ 19) :
    (after n s).master.base = 32 ∧ (after n s).slave.base = 0x70
      ∧ (after n s).protectedMode = false ∧ (after n s).idtr = .vectors := by
  have hpe : s.cr0[0] = false := by simpa [Hardware.protectedMode] using h.realMode
  rw [h.eq]
  interval_cases n <;> simp [after, ports, entering, setBase, Code.exec, Code.effect,
    Controller.command, Controller.data, Hardware.protectedMode, hpe]

/-- Protected mode, with interrupts on. -/
lemma after_inside (h : RealMode s) (h26 : 26 < n) (hn : n ≤ 28) :
    (after n s).master.base = 32 ∧ (after n s).master.imr = 0xFC
      ∧ (after n s).protectedMode = true ∧ (after n s).idtr = .idt := by
  rw [h.eq]
  interval_cases n <;> simp [after, ports, entering, inside, setBase, Code.exec, Code.effect,
    Controller.command, Controller.data, Hardware.protectedMode]

/-- The machine as the code leaves it. -/
def Hardware.returned (s : Hardware) : Hardware := { s with
  cr0 := (s.cr0 ||| 1) &&& 0xFE
  system := s.system ||| 2
  cmos := 0
  al := 0
  maskMaster := s.master.imr
  maskSlave := s.slave.imr
  ip := ports.length }

/-- After the last instruction. -/
lemma after_ports (h : RealMode s) : (after ports.length s).quiet = s.returned.quiet := by
  rw [h.eq]
  simp [after, Hardware.returned, ports, entering, inside, leaving, setBase, Code.exec, Code.effect,
    Controller.command, Controller.data, Hardware.quiet, Controller.quiet]

end Places

/-! ### The results -/

/-- A request that reaches the processor is not masked by the master. -/
lemma of_pending (h : s.pending = some l) : s.master.awaits = .mask
    ∧ s.master.imr.getLsbD (if l.slave then 2 else l.number) = false := by
  rw [Hardware.pending] at h
  cases hslave : s.slave.asks s.slave.irr with
  | none =>
      rw [hslave] at h
      obtain ⟨k, hk, rfl⟩ := Option.map_eq_some_iff.mp h
      obtain ⟨hawaits, -, himr⟩ := Controller.of_asks hk
      exact ⟨hawaits, himr⟩
  | some j =>
      rw [hslave] at h
      obtain ⟨k, hk, hl⟩ := Option.map_eq_some_iff.mp h
      obtain ⟨hawaits, -, himr⟩ := Controller.of_asks hk
      refine ⟨hawaits, ?_⟩
      split_ifs at hl with h2
      · subst hl h2
        exact himr
      · subst hl
        exact himr

/-- The number of an interrupt, for a base that ends in three zeros. -/
lemma toNat_vector {c : Controller} (hc : c.base = 8 ∨ c.base = 32 ∨ c.base = 0x70) (k : Fin 8) :
    (c.vector k).toNat = c.base.toNat + k.val := by
  have hall : ∀ b ∈ [(8 : BitVec 8), 32, 0x70], ∀ k : Fin 8,
      (b ||| BitVec.ofNat 8 k).toNat = b.toNat + k.val := by decide
  exact hall c.base (by simpa using hc) k

lemma of_accepts {vector : BitVec 8} {table : Table} {protectedMode : Bool}
    (h : step s m = some (.accepts l vector table protectedMode, s')) :
    s.interrupts = true ∧ s.pending = some l
      ∧ vector = (if l.slave then s.slave else s.master).vector l.number
      ∧ table = s.idtr ∧ protectedMode = s.protectedMode := by
  cases m with
  | code =>
      obtain ⟨i, -, hs⟩ := Option.map_eq_some_iff.mp h
      cases hs
  | device d =>
      rw [step] at h
      split_ifs at h <;> cases h
  | accepts =>
      rw [step] at h
      split_ifs at h with hi
      obtain ⟨d, hd, hs⟩ := Option.map_eq_some_iff.mp h
      rw [Hardware.interrupt] at hs
      split_ifs at hs with hslave <;> cases hs
      · exact ⟨hi, hd, by rw [if_pos hslave], rfl, rfl⟩
      · exact ⟨hi, hd, by rw [if_neg hslave], rfl, rfl⟩

/-- Real mode and its table, with bases of the controllers. -/
lemma proper_realMode (hpe : s.protectedMode = false) (ht : s.idtr = .vectors)
    (hslave : s.slave.base = 0x70) (hb : s.master.base = 8 ∨ s.master.base = 32) (l : Line) :
    Proper l ((if l.slave then s.slave else s.master).vector l.number) s.idtr s.protectedMode
      ↔ ¬ (l.slave = false ∧ s.master.base = 32) := by
  obtain ⟨slave, k⟩ := l
  rw [Proper, hpe, ht]
  cases slave with
  | true =>
      rw [if_pos rfl, toNat_vector (Or.inr (Or.inr hslave)), hslave]
      simp
  | false =>
      rw [if_neg Bool.false_ne_true, toNat_vector (hb.imp_right Or.inl)]
      rcases hb with hb | hb <;> simp [hb]

/-- What the requests do not touch. -/
lemma of_quiet_eq (h : s.quiet = t.quiet) : s.master.base = t.master.base
    ∧ s.master.imr = t.master.imr ∧ s.master.awaits = t.master.awaits
    ∧ s.slave.base = t.slave.base ∧ s.interrupts = t.interrupts
    ∧ s.protectedMode = t.protectedMode ∧ s.idtr = t.idtr := by
  simp only [Hardware.quiet, Controller.quiet, Hardware.mk.injEq, Controller.mk.injEq] at h
  obtain ⟨⟨hb, hm, -, ha⟩, ⟨hs, -⟩, hi, hc, ht, -⟩ := h
  exact ⟨hb, hm, ha, hs, hi, congrArg (fun c => c.getLsbD 0) hc, ht⟩

/-- **Which interrupts reach the handler of their line**: in every run, all but those of the
master that are accepted after it has got the base `32` and before the code turns interrupts
off. They go by the table of real mode with the numbers of protected mode. -/
theorem proper_iff (h : program.Run s tr t) (hs : RealMode s)
    {before later : List (Mover × Event)} {vector : BitVec 8} {table : Table}
    {protectedMode : Bool}
    (htr : tr = before ++ (m, .accepts l vector table protectedMode) :: later) :
    Proper l vector table protectedMode
      ↔ ¬ (l.slave = false ∧ 12 ≤ executed before ∧ executed before ≤ 19) := by
  subst htr
  obtain ⟨u, u', hrun, hstep, -⟩ := h.split_cons
  obtain ⟨hi, hpending, rfl, rfl, rfl⟩ := of_accepts hstep
  obtain ⟨hawaits, himr⟩ := of_pending hpending
  obtain ⟨hip, hle, hquiet⟩ := quiet_of_run hrun hs.ip
  rw [← hip]
  generalize u.ip = n at hle hquiet
  obtain ⟨hbase, hmask, hwords, hslave, hflag, hpe, htable⟩ := of_quiet_eq hquiet
  have hall : n ≤ 5 ∨ 5 < n ∧ n ≤ 11 ∨ 11 < n ∧ n ≤ 19 ∨ (20 ≤ n ∧ n ≤ 26 ∨ 29 ≤ n ∧ n ≤ 48)
      ∨ 26 < n ∧ n ≤ 28 ∨ n = ports.length := by
    have hlen : ports.length = 49 := rfl
    omega
  rcases hall with hn | ⟨h5, hn⟩ | ⟨h11, hn⟩ | hn | ⟨h26, hn⟩ | rfl
  · -- before the master is initialised
    obtain ⟨hb, hsb, hp, ht⟩ := after_before hs hn
    rw [proper_realMode (hpe.trans hp) (htable.trans ht) (hslave.trans hsb)
      (Or.inl (hbase.trans hb)), hbase, hb]
    exact iff_of_true (by simp) (by omega)
  · -- the master awaits a word, and accepts nothing
    exact absurd (hwords.symm.trans hawaits) (after_awaiting hs h5 hn)
  · -- the master has its new base, and the mode is still the old one
    obtain ⟨hb, hsb, hp, ht⟩ := after_window hs h11 hn
    rw [proper_realMode (hpe.trans hp) (htable.trans ht) (hslave.trans hsb)
      (Or.inr (hbase.trans hb)), hbase, hb]
    simp only [and_true, show 12 ≤ n from h11, hn]
  · -- interrupts are off
    rw [hflag, interrupts_off hn s] at hi
    cases hi
  · -- in protected mode, where only the timer and the keyboard are not masked
    obtain ⟨hb, hm, hp, ht⟩ := after_inside hs h26 hn
    rw [hmask, hm] at himr
    refine iff_of_true (Or.inr ⟨hpe.trans hp, htable.trans ht, ?_⟩) (by omega)
    obtain ⟨slave, k⟩ := l
    cases slave with
    | true =>
        have h2 : (0xFC : BitVec 8).getLsbD 2 = true := by decide
        exact absurd (h2.symm.trans himr) (by simp)
    | false =>
        have hunmasked : ∀ k : Fin 8, (0xFC : BitVec 8).getLsbD k = false → k.val < 2 := by decide
        refine ⟨rfl, hunmasked k himr, ?_⟩
        rw [if_neg Bool.false_ne_true, toNat_vector (Or.inr (Or.inl (hbase.trans hb))), hbase, hb]
        rfl
  · -- back in real mode
    obtain ⟨hb, -, -, hsb, -, hp, ht⟩ := of_quiet_eq (after_ports hs)
    have hpe0 : ((s.cr0 ||| 1) &&& 0xFE).getLsbD 0 = false := by simp
    rw [proper_realMode (hpe.trans (hp.trans hpe0)) (htable.trans (ht.trans hs.idtr))
      (hslave.trans (hsb.trans hs.slaveBase)) (Or.inl (hbase.trans (hb.trans hs.base))), hbase, hb]
    refine iff_of_true ?_ fun hn => absurd hn.2.2 (by decide)
    rw [Hardware.returned, hs.base]
    simp

/-- A machine in real mode. -/
def loaded : Hardware :=
  ⟨⟨8, 0xB8, ∅, .mask⟩, ⟨0x70, 0x8D, ∅, .mask⟩, true, 0x10, .vectors, 0, 0, 0, 0, 0, 0⟩

lemma realMode_loaded : RealMode loaded := ⟨rfl, rfl, rfl, rfl, rfl, rfl, rfl, rfl⟩

/-- The timer before the `cli`. -/
theorem proper_iff_timer : ∃ t before, program.Run loaded
    (before ++ [(.accepts, .accepts ⟨false, 0⟩ 32 .vectors false)]) t
      ∧ ¬ Proper ⟨false, 0⟩ 32 .vectors false := by
  obtain ⟨tr, t, h, hp⟩ := Machine.exists_run (show (program.exec
    (List.replicate 16 .code ++ [.device ⟨false, 0⟩, .accepts]) loaded).any (fun r =>
      executed r.1 = 16
        && r.1.getLast? = some (.accepts, .accepts ⟨false, 0⟩ 32 .vectors false)) = true
    by decide +kernel)
  simp only [Bool.and_eq_true, decide_eq_true_eq] at hp
  obtain ⟨before, rfl⟩ := List.getLast?_eq_some_iff.mp hp.2
  have hcount : executed before = 16 := by simpa [executed] using hp.1
  refine ⟨t, before, h, fun hproper => ?_⟩
  exact (proper_iff h realMode_loaded rfl).mp hproper ⟨rfl, by omega, by omega⟩

/-- **What is given back**: when the code has come to its end, with whatever requests and
interrupts on the way, the controllers have their bases and masks, interrupts are on, and the
mode and the table are those of real mode. The line A20 stays open, and of what port `70h` has
held nothing is kept. -/
theorem restored (h : program.Run s tr t) (hs : RealMode s) (hend : executed tr = ports.length) :
    t.master.quiet = s.master.quiet ∧ t.slave.quiet = s.slave.quiet ∧ t.interrupts = true
      ∧ t.cr0 = s.cr0 ∧ t.idtr = .vectors ∧ t.system = s.system ||| 2 ∧ t.cmos = 0 := by
  obtain ⟨hip, -, hquiet⟩ := quiet_of_run h hs.ip
  rw [hip, hend, after_ports hs] at hquiet
  have hcr0 : (s.cr0 ||| 1) &&& 0xFE = s.cr0 := by
    have hpe : s.cr0[0] = false := by simpa [Hardware.protectedMode] using hs.realMode
    refine BitVec.eq_of_getElem_eq fun k hk => ?_
    interval_cases k <;> simp [hpe]
  refine ⟨congrArg Hardware.master hquiet, congrArg Hardware.slave hquiet,
    (congrArg Hardware.interrupts hquiet).trans hs.interrupts, ?_,
    (congrArg Hardware.idtr hquiet).trans hs.idtr, congrArg Hardware.system hquiet,
    congrArg Hardware.cmos hquiet⟩
  rw [← hcr0]
  exact congrArg Hardware.cr0 hquiet

/-- There and back, with a key pressed in protected mode. -/
theorem restored_key : ∃ tr t, program.Run loaded tr t ∧ t.master.quiet = loaded.master.quiet
    ∧ t.slave.quiet = loaded.slave.quiet ∧ t.interrupts = true ∧ t.system = 2 := by
  obtain ⟨tr, t, h, hp⟩ := Machine.exists_run (show (program.exec
    (List.replicate 27 .code ++ [.device ⟨false, 1⟩, .accepts] ++ List.replicate 22 .code)
      loaded).any (fun r => executed r.1 = ports.length) = true by decide +kernel)
  obtain ⟨hm, hs, hi, -, -, hsystem, -⟩ := restored h realMode_loaded (of_decide_eq_true hp)
  exact ⟨tr, t, h, hm, hs, hi, hsystem⟩

end Controllers

end ProtectedMode

end OperatingSys
