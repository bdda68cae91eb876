import OperatingSys.Foundations.Machine

/-!
The keyboard module `os_02/lab_09/src/workseq/workseq.c`.

An interrupt stores the byte it reads in the global `scancode` and queues two works;
`queue_work` does nothing for a work that is pending. One worker takes the pending
works in turn, and a work reads `scancode` when it runs. Taking a work and running it
are two steps, so that an interrupt may come between them.

* `getAscii`: the decoding of a scan code.
* `handler`, `report`: the interrupt handler and what the two work functions print.
* `keys`: interrupts and worker as a machine.
-/

namespace OperatingSys

namespace WorkQueue

/-! ### The decoding -/

def IRQ : ℕ := 1

def SCANCODE_RELEASED_MASK : BitVec 32 := 0x80

def row1 : List Char := "1234567890".toList

def row2 : List Char := "qwertyuiop".toList

def row3 : List Char := "asdfghjkl".toList

def row4 : List Char := "zxcvbnm".toList

/-- `get_ascii`. -/
def getAscii (scancode : BitVec 32) : Char :=
  let s := (scancode &&& ~~~SCANCODE_RELEASED_MASK).toNat
  if h : 0x02 ≤ s ∧ s ≤ 0x0b then row1.get ⟨s - 0x02, by change _ < 10; omega⟩
  else if h : 0x10 ≤ s ∧ s ≤ 0x19 then row2.get ⟨s - 0x10, by change _ < 10; omega⟩
  else if h : 0x1e ≤ s ∧ s ≤ 0x26 then row3.get ⟨s - 0x1e, by change _ < 9; omega⟩
  else if h : 0x2c ≤ s ∧ s ≤ 0x32 then row4.get ⟨s - 0x2c, by change _ < 7; omega⟩
  else if s = 0x39 then ' '
  else if s = 0x1c then '\n'
  else '?'

/-- The global `scancode`, a signed `char`, as the `unsigned int` that is decoded. -/
def toUnsigned (c : BitVec 8) : BitVec 32 := c.signExtend 32

/-- The decoding of a byte with the release bit ignored. -/
def decode (data : BitVec 8) : Char := getAscii ((data &&& 0x7f).setWidth 32)

/-- A byte without the release bit is decoded as it is meant. -/
lemma getAscii_toUnsigned {data : BitVec 8} (h : data < 0x80) :
    getAscii (toUnsigned data) = decode data := by
  have hlt : data.toNat < 128 := h
  have hmsb : data.msb = false := by
    rw [BitVec.msb_eq_false_iff_two_mul_lt]
    omega
  have hand : data &&& 0x7f = data := by
    apply BitVec.eq_of_toNat_eq
    rw [BitVec.toNat_and]
    exact (Nat.and_two_pow_sub_one_eq_mod data.toNat 7).trans (Nat.mod_eq_of_lt hlt)
  rw [toUnsigned, BitVec.signExtend_eq_setWidth_of_msb_false hmsb, decode, hand]

/-! ### The works and their queue -/

/-- `fir_work` and `sec_work`. -/
inductive Work where
  | fir | sec
  deriving DecidableEq, Repr

/-- The global byte, the pending works in their order, and the work that has been taken
and has not read the byte yet. -/
structure Keys where
  scancode : BitVec 8
  pending : List Work
  running : Option Work

/-- `queue_work`. -/
def queueWork (w : Work) (k : Keys) : Keys :=
  if w ∈ k.pending then k else { k with pending := k.pending ++ [w] }

/-- `handler`: whether the interrupt is handled, and the state afterwards. -/
def handler (irq : ℕ) (data : BitVec 8) (k : Keys) : Bool × Keys :=
  if irq = IRQ then (true, queueWork .sec (queueWork .fir { k with scancode := data }))
  else (false, k)

@[simp] lemma queueWork_scancode (w : Work) (k : Keys) : (queueWork w k).scancode = k.scancode := by
  rw [queueWork]
  split_ifs <;> rfl

@[simp] lemma queueWork_running (w : Work) (k : Keys) : (queueWork w k).running = k.running := by
  rw [queueWork]
  split_ifs <;> rfl

@[simp] lemma mem_queueWork {w w' : Work} {k : Keys} :
    w' ∈ (queueWork w k).pending ↔ w' ∈ k.pending ∨ w' = w := by
  rw [queueWork]
  split_ifs with h
  · exact ⟨Or.inl, fun h' => h'.elim id fun he => he ▸ h⟩
  · simp

lemma nodup_queueWork {w : Work} {k : Keys} (h : k.pending.Nodup) :
    (queueWork w k).pending.Nodup := by
  rw [queueWork]
  split_ifs with hw
  · exact h
  · exact List.Nodup.append h (List.nodup_singleton w) (by simpa using hw)

/-- What `queue_function_fir` and `queue_function_sec` print: the scan code and the
character. -/
def report (k : Keys) : ℤ × Char := (k.scancode.toInt, getAscii (toUnsigned k.scancode))

/-! ### The machine -/

/-- A keyboard interrupt with the byte it delivers, or a step of the worker. -/
inductive Mover where
  | interrupt (data : BitVec 8)
  | worker
  deriving DecidableEq

inductive Event where
  | handled
  | takes (w : Work)
  | logs (w : Work) (out : ℤ × Char)
  deriving DecidableEq

/-- A step of the worker: the next pending work is taken, or the one taken runs. -/
def worker (k : Keys) : Option (Event × Keys) :=
  match k.running with
  | some w => some (.logs w (report k), { k with running := none })
  | none =>
      match k.pending with
      | [] => none
      | w :: ws => some (.takes w, { k with pending := ws, running := some w })

/-- Interrupts and worker in any order. -/
def keys : Machine Keys Mover Event where
  step k
    | .interrupt data => some (.handled, (handler IRQ data k).2)
    | .worker => worker k

/-- The queue is drained. -/
def Drained (k : Keys) : Prop := k.pending = [] ∧ k.running = none

instance (k : Keys) : Decidable (Drained k) := inferInstanceAs (Decidable (_ ∧ _))

/-- The module before the first interrupt. -/
def initial : Keys := ⟨0, [], none⟩

end WorkQueue

end OperatingSys
