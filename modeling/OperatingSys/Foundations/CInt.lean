import Mathlib.Tactic

/-!
The conversions between the integer types of C on a 64-bit Linux.

A value of C type `int` is an integer of `[-2^31, 2^31)`, one of type `size_t`
or `unsigned long` an integer of `[0, 2^64)`. `toInt` and `toULong` are the
conversions into the two; arithmetic is done on integers and converted back
where the code's own types do so.
-/

namespace OperatingSys

/-- Conversion to `int`, reduction modulo `2^32` into the signed range. -/
def toInt (x : ℤ) : ℤ := (x + 2 ^ 31) % 2 ^ 32 - 2 ^ 31

/-- Conversion to `unsigned long` or `size_t`. -/
def toULong (x : ℤ) : ℤ := x % 2 ^ 64

lemma toInt_of_mem {x : ℤ} (h0 : -2 ^ 31 ≤ x) (h1 : x < 2 ^ 31) : toInt x = x := by
  rw [toInt, Int.emod_eq_of_lt (by omega) (by omega)]
  omega

lemma toULong_of_mem {x : ℤ} (h0 : 0 ≤ x) (h1 : x < 2 ^ 64) : toULong x = x :=
  Int.emod_eq_of_lt h0 h1

end OperatingSys
