import Mathlib.Tactic
import Mathlib.Data.Nat.Digits.Defs

/-!
Numbers printed in decimal.

`decimal` are the bytes of a number as `%d` prints them. No byte of them is a terminator
(`zero_notMem_decimal`), and they determine the number (`decimal_injective`).
-/

namespace OperatingSys

/-- The decimal digits of a number, as bytes. -/
def decimal (n : ℕ) : List UInt8 := (Nat.toDigits 10 n).map fun c => UInt8.ofNat c.toNat

/-- The bytes of digits. -/
lemma toNat_of_mem_decimal {n : ℕ} {b : UInt8} (hb : b ∈ decimal n) :
    48 ≤ b.toNat ∧ b.toNat ≤ 57 := by
  obtain ⟨c, hc, rfl⟩ := List.mem_map.mp hb
  have hdigit : c.isDigit = true := Nat.isDigit_of_mem_toDigits (by omega) le_rfl hc
  rw [Char.isDigit, Bool.and_eq_true, decide_eq_true_eq, decide_eq_true_eq] at hdigit
  have hlow : 48 ≤ c.toNat := UInt32.le_iff_toNat_le.mp hdigit.1
  have hhigh : c.toNat ≤ 57 := UInt32.le_iff_toNat_le.mp hdigit.2
  rw [UInt8.toNat_ofNat', Nat.mod_eq_of_lt (by omega)]
  exact ⟨hlow, hhigh⟩

lemma zero_notMem_decimal (n : ℕ) : (0 : UInt8) ∉ decimal n := by
  intro h
  exact absurd (toNat_of_mem_decimal h).1 (by decide)

/-- The digits are read back as characters. -/
lemma map_ofNat_decimal (n : ℕ) :
    (decimal n).map (fun b => Char.ofNat b.toNat) = Nat.toDigits 10 n := by
  rw [decimal, List.map_map]
  conv_rhs => rw [← List.map_id (Nat.toDigits 10 n)]
  refine List.map_congr_left fun c hc => ?_
  have hdigit : c.isDigit = true := Nat.isDigit_of_mem_toDigits (by omega) le_rfl hc
  rw [Char.isDigit, Bool.and_eq_true, decide_eq_true_eq, decide_eq_true_eq] at hdigit
  have hhigh : c.toNat ≤ 57 := UInt32.le_iff_toNat_le.mp hdigit.2
  rw [Function.comp_apply, UInt8.toNat_ofNat', Nat.mod_eq_of_lt (by omega), Char.ofNat_toNat]
  rfl

/-- **The digits determine the number.** -/
lemma decimal_injective : Function.Injective decimal := by
  intro m n h
  have hdigits : Nat.toDigits 10 m = Nat.toDigits 10 n := by
    rw [← map_ofNat_decimal, h, map_ofNat_decimal]
  have hm : Nat.ofDigitChars 10 (Nat.toDigits 10 m) 0 = m := Nat.ofDigitChars_ten_toDigits
  rw [hdigits, Nat.ofDigitChars_ten_toDigits] at hm
  exact hm.symm

lemma decimal_length_le {n e : ℕ} (he : 0 < e) (hn : n < 10 ^ e) : (decimal n).length ≤ e := by
  rw [decimal, List.length_map]
  exact Nat.toDigits_length 10 n e he hn

end OperatingSys
