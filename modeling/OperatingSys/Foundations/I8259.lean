import Mathlib.Tactic
import Mathlib.Data.Fintype.Basic

/-!
The interrupt controller 8259A.

A controller keeps the requests of eight lines and a mask, and numbers the requests from a
base. A first word to its command port starts an initialization: the words that follow at the
data port set the base and the mode, and until the last of them nothing is asked for. After
that a word at the data port is a mask. An initialization forgets the mask and the requests.

* `Controller.command`, `Controller.data`: a byte written to the one port or the other.
* `Controller.asks`: the request that is passed on.
* `Controller.quiet`: all of a controller but its requests, on which the ports depend
  (`quiet_command`, `quiet_data`).
-/

namespace OperatingSys

/-- What comes next at the data port: a mask, or a word of an initialization, which may be
followed by the third and the fourth. -/
inductive Awaits where
  | mask | icw2 (third fourth : Bool) | icw3 (fourth : Bool) | icw4
  deriving DecidableEq, Repr

/-- A controller: its base, the mask and the requests. -/
@[ext]
structure Controller where
  base : BitVec 8
  imr : BitVec 8
  irr : Finset (Fin 8)
  awaits : Awaits
  deriving DecidableEq

namespace Controller

/-- A byte for the command port. Bit `4` marks the first word of an initialization, bit `1` of
it a single controller, and bit `0` that there is a fourth word; the other commands leave the
base and the mask. -/
def command (c : Controller) (v : BitVec 8) : Controller :=
  if v.getLsbD 4 then
    { c with imr := 0, irr := ∅, awaits := .icw2 (!v.getLsbD 1) (v.getLsbD 0) }
  else c

/-- A byte for the data port. -/
def data (c : Controller) (v : BitVec 8) : Controller :=
  match c.awaits with
  | .mask => { c with imr := v }
  | .icw2 true fourth => { c with base := v &&& 0xF8, awaits := .icw3 fourth }
  | .icw2 false true => { c with base := v &&& 0xF8, awaits := .icw4 }
  | .icw2 false false => { c with base := v &&& 0xF8, awaits := .mask }
  | .icw3 true => { c with awaits := .icw4 }
  | .icw3 false | .icw4 => { c with awaits := .mask }

/-- A request on a line. -/
def request (c : Controller) (k : Fin 8) : Controller := { c with irr := insert k c.irr }

/-- The request of a line has been accepted. -/
def accept (c : Controller) (k : Fin 8) : Controller := { c with irr := c.irr.erase k }

/-- The first line of those given whose request is passed on. -/
def asks (c : Controller) (lines : Finset (Fin 8)) : Option (Fin 8) :=
  if c.awaits = .mask then
    (List.finRange 8).find? fun k => decide (k ∈ lines) && !c.imr.getLsbD k
  else none

/-- The number of the interrupt for a line. -/
def vector (c : Controller) (k : Fin 8) : BitVec 8 := c.base ||| BitVec.ofNat 8 k

/-- A controller without its requests. -/
def quiet (c : Controller) : Controller := { c with irr := ∅ }

variable {c c' : Controller} {v : BitVec 8} {k : Fin 8} {lines : Finset (Fin 8)}

lemma quiet_command : (c.command v).quiet = (c.quiet.command v).quiet := by
  rw [command, command]
  split_ifs <;> rfl

lemma quiet_data : (c.data v).quiet = (c.quiet.data v).quiet := by
  obtain ⟨base, imr, irr, awaits⟩ := c
  cases awaits with
  | mask | icw4 => rfl
  | icw2 third fourth => cases third <;> cases fourth <;> rfl
  | icw3 fourth => cases fourth <;> rfl

/-- A request that is passed on is not masked, and no initialization is under way. -/
lemma of_asks (h : c.asks lines = some k) :
    c.awaits = .mask ∧ k ∈ lines ∧ c.imr.getLsbD k = false := by
  rw [asks] at h
  split_ifs at h with hawaits
  have hk := List.find?_some h
  rw [Bool.and_eq_true, decide_eq_true_eq, Bool.not_eq_true'] at hk
  exact ⟨hawaits, hk⟩

end Controller

end OperatingSys
