import FlowLint.Double.Basic
import Mathlib.Data.Rat.Floor

/-!
The rational numbers that finite doubles stand for. To truncate a double is to round that number
toward zero.
-/

namespace FlowLint

/-- The integer between zero and the number that is nearest to it. -/
def towardZero (q : ℚ) : ℤ := if 0 ≤ q then ⌊q⌋ else ⌈q⌉

theorem towardZero_of_nonneg {q : ℚ} (nonneg : 0 ≤ q) : towardZero q = ⌊q⌋ := if_pos nonneg

theorem towardZero_neg (q : ℚ) : towardZero (-q) = -towardZero q := by
  rcases lt_trichotomy q 0 with neg | rfl | pos
  · rw [towardZero, towardZero, if_pos (neg_nonneg.2 neg.le), if_neg (not_le.2 neg), Int.floor_neg]
  · simp [towardZero]
  · rw [towardZero, towardZero, if_neg (not_le.2 (neg_neg_of_pos pos)), if_pos pos.le, Int.ceil_neg]

namespace Double

namespace Magnitude

variable (a : Magnitude)

def value : ℚ := a.significand * (2 : ℚ) ^ a.exponent

theorem value_nonneg : 0 ≤ a.value :=
  mul_nonneg (Nat.cast_nonneg _) (zpow_nonneg zero_le_two _)

theorem value_eq_div : a.value = a.numerator / a.denominator := by
  rw [value, numerator, denominator, Nat.pow_eq, Nat.pow_eq, Nat.cast_mul, Nat.cast_pow,
    Nat.cast_pow, Nat.cast_ofNat, mul_div_assoc]
  congr 1
  -- one of the two powers is that of zero
  rcases Int.le_total 0 a.exponent with whole | fraction
  · have none : (-a.exponent).toNat = 0 := Int.toNat_of_nonpos (Int.neg_nonpos_of_nonneg whole)
    rw [none, pow_zero, div_one, ← zpow_natCast, Int.toNat_of_nonneg whole]
  · have none : a.exponent.toNat = 0 := Int.toNat_of_nonpos fraction
    rw [none, pow_zero, one_div, ← zpow_natCast,
      Int.toNat_of_nonneg (Int.neg_nonneg_of_nonpos fraction), zpow_neg, inv_inv]

theorem floor_value : ⌊a.value⌋ = a.floor := by
  rw [value_eq_div, Rat.floor_natCast_div_natCast, floor, Int.natCast_div]

theorem towardZero_value : towardZero a.value = a.floor := by
  rw [towardZero_of_nonneg a.value_nonneg, floor_value]

end Magnitude

/-- The number that a double stands for, if it is finite. -/
def value? : Double → Option ℚ
  | finite negative a => some (if negative then -a.value else a.value)
  | _ => none

theorem truncate_eq (d : Double) : d.truncate = d.value?.map towardZero := by
  cases d with
  | nan => rfl
  | infinite negative => rfl
  | finite negative a =>
    rw [truncate, value?, Option.map_some]
    cases negative with
    | false => simp [a.towardZero_value]
    | true => simp [towardZero_neg, a.towardZero_value]

end Double

end FlowLint
