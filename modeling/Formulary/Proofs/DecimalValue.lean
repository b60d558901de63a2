import Mathlib.Algebra.Order.Field.Power
import Mathlib.Algebra.Order.Field.Rat
import Mathlib.Tactic.FieldSimp
import Mathlib.Tactic.Linarith
import Mathlib.Tactic.NormNum
import Mathlib.Tactic.Positivity
import Mathlib.Tactic.Ring
import Formulary.Number.Decimal
import Formulary.Proofs.Digits
import Formulary.Proofs.Rounding

/-!
# The value of a decimal

A decimal is read by its value: decimals of one value denote one number.  Seventeen significant
digits put a decimal so close to a magnitude that it reads back, which makes the shortest decimal
of every magnitude read back.
-/

namespace Formulary
namespace Decimal

/-- The rational number that a decimal stands for. -/
def value (decimal : Decimal) : ℚ :=
  decimal.coefficient * (10 : ℚ) ^ decimal.exponent

theorem one_cast_pos : (0 : ℚ) < Magnitude.one :=
  Nat.cast_pos.mpr Magnitude.one_pos

theorem quotient_pos (decimal : Decimal) : 0 < decimal.quotient.2 := by
  unfold quotient
  split
  · exact Nat.one_pos
  · exact Nat.pow_pos (by decide)

theorem quotient_value (decimal : Decimal) :
    (decimal.quotient.1 : ℚ) / decimal.quotient.2 = decimal.value * Magnitude.one := by
  unfold quotient value
  split
  · rename_i power same
    rw [same]
    simp only [Nat.pow_eq, Nat.cast_mul, Nat.cast_pow, Nat.cast_ofNat, Nat.cast_one, div_one,
      Int.ofNat_eq_natCast, zpow_natCast]
  · rename_i power same
    rw [same, zpow_negSucc]
    simp only [Nat.pow_eq, Nat.cast_mul, Nat.cast_pow, Nat.cast_ofNat]
    rw [div_eq_mul_inv, mul_right_comm]

theorem value_eq_zero_iff (decimal : Decimal) : decimal.value = 0 ↔ decimal.coefficient = 0 := by
  have power : (10 : ℚ) ^ decimal.exponent ≠ 0 := zpow_ne_zero _ (by norm_num)
  rw [value, mul_eq_zero, or_iff_left power, Nat.cast_eq_zero]

private theorem value_lt (decimal : Decimal) : decimal.value < 10 ^ decimal.topExponent := by
  have digits : (decimal.coefficient : ℚ) < 10 ^ Text.digitCount decimal.coefficient := by
    exact_mod_cast Text.lt_pow_digitCount decimal.coefficient
  have power : (0 : ℚ) < 10 ^ decimal.exponent := zpow_pos (by norm_num) _
  rw [value, topExponent, zpow_add₀ (by norm_num), zpow_natCast, mul_comm]
  exact mul_lt_mul_of_pos_left digits power

private theorem le_value {decimal : Decimal} (nonzero : decimal.coefficient ≠ 0) :
    (10 : ℚ) ^ (decimal.topExponent - 1) ≤ decimal.value := by
  have positive := Nat.pos_of_ne_zero nonzero
  have digits : (10 : ℚ) ^ (Text.digitCount decimal.coefficient - 1) ≤ decimal.coefficient := by
    exact_mod_cast Text.pow_digitCount_le positive
  have power : (0 : ℚ) < 10 ^ decimal.exponent := zpow_pos (by norm_num) _
  have split : decimal.topExponent - 1 =
      decimal.exponent + ((Text.digitCount decimal.coefficient - 1 : Nat) : Int) := by
    have some_digit := Text.digitCount_pos positive
    rw [topExponent]
    omega
  rw [value, split, zpow_add₀ (by norm_num), zpow_natCast, mul_comm]
  exact mul_le_mul_of_nonneg_right digits power.le

private theorem lt_of_zpow_lt {low high : Int} (less : (10 : ℚ) ^ low < 10 ^ high) : low < high :=
  (zpow_lt_zpow_iff_right₀ (by norm_num)).mp less

private theorem topExponent_congr {decimal other : Decimal} (nonzero : decimal.coefficient ≠ 0)
    (same : decimal.value = other.value) : decimal.topExponent = other.topExponent := by
  have also_nonzero : other.coefficient ≠ 0 := by
    rw [Ne, ← value_eq_zero_iff, ← same, value_eq_zero_iff]
    exact nonzero
  have low := lt_of_zpow_lt (lt_of_le_of_lt (le_value nonzero) (same ▸ value_lt other))
  have high := lt_of_zpow_lt (lt_of_le_of_lt (le_value also_nonzero) (same ▸ value_lt decimal))
  omega

/-- Decimals of one value denote one number. -/
theorem toNumber_congr (negative : Bool) {decimal other : Decimal}
    (same : decimal.value = other.value) :
    decimal.toNumber negative = other.toNumber negative := by
  by_cases zero : decimal.coefficient = 0
  · have also_zero : other.coefficient = 0 := by
      rw [← value_eq_zero_iff, ← same, value_eq_zero_iff]
      exact zero
    simp [toNumber, zero, also_zero]
  · have also_nonzero : other.coefficient ≠ 0 := by
      rw [Ne, ← value_eq_zero_iff, ← same, value_eq_zero_iff]
      exact zero
    have top := topExponent_congr zero same
    have ratio := (quotient_value decimal).trans
      ((congrArg (· * (Magnitude.one : ℚ)) same).trans (quotient_value other).symm)
    have positive := quotient_pos decimal
    have also := quotient_pos other
    rw [div_eq_div_iff (Nat.cast_ne_zero.mpr (Nat.ne_of_gt positive))
      (Nat.cast_ne_zero.mpr (Nat.ne_of_gt also))] at ratio
    have quotients := Number.ofQuotient_congr negative positive also (by exact_mod_cast ratio)
    unfold toNumber
    simp only [zero, also_nonzero, top, quotients]

private theorem two_one_lt : 2 * Magnitude.one < 10 ^ 324 := by decide +kernel

private theorem two_limit_le : 2 * Magnitude.limit ≤ 10 ^ 309 * Magnitude.one := by decide +kernel

/-- A decimal with its leading digit far enough behind the point is worth less than half a unit. -/
theorem two_value_lt_of_tiny {decimal : Decimal} (tiny : decimal.topExponent ≤ -324) :
    2 * (decimal.value * Magnitude.one) < 1 := by
  have small : (2 : ℚ) * Magnitude.one < 10 ^ 324 := by exact_mod_cast two_one_lt
  have half : (10 : ℚ) ^ (-324 : Int) * Magnitude.one < 1 / 2 := by
    rw [zpow_neg, inv_mul_lt_iff₀ (by positivity)]
    rw [show (10 : ℚ) ^ (324 : Int) = 10 ^ 324 from zpow_natCast 10 324]
    generalize (10 : ℚ) ^ 324 = power at small ⊢
    linarith
  have low : decimal.value < (10 : ℚ) ^ (-324 : Int) :=
    (value_lt decimal).trans_le (zpow_le_zpow_right₀ (by norm_num) tiny)
  have bound := mul_lt_mul_of_pos_right low one_cast_pos
  linarith

/-- A decimal with its leading digit far enough in front of the point is past the limit. -/
theorem two_limit_le_of_huge {decimal : Decimal} (nonzero : decimal.coefficient ≠ 0)
    (huge : 309 < decimal.topExponent) :
    (2 : ℚ) * Magnitude.limit ≤ decimal.value * Magnitude.one := by
  have large : (2 : ℚ) * Magnitude.limit ≤ 10 ^ 309 * Magnitude.one := by
    exact_mod_cast two_limit_le
  have high : (10 : ℚ) ^ (309 : Int) ≤ decimal.value :=
    (zpow_le_zpow_right₀ (by norm_num) (by omega)).trans (le_value nonzero)
  rw [show (10 : ℚ) ^ (309 : Int) = 10 ^ 309 from zpow_natCast 10 309] at high
  exact large.trans (mul_le_mul_of_nonneg_right high one_cast_pos.le)

section Near

variable {magnitude : Magnitude} {decimal : Decimal} (positive : 0 < magnitude.units)

section Bounds

variable (near : |decimal.value * Magnitude.one - magnitude.units| ≤ magnitude.units / 2)

include positive near

private theorem value_pos_of_near : 0 < decimal.value := by
  have units_pos : (0 : ℚ) < magnitude.units := Nat.cast_pos.mpr positive
  obtain ⟨low, -⟩ := abs_le.mp near
  have scaled : 0 < decimal.value * Magnitude.one := by linarith
  exact pos_of_mul_pos_left scaled one_cast_pos.le

private theorem coefficient_ne_zero_of_near : decimal.coefficient ≠ 0 := by
  rw [Ne, ← value_eq_zero_iff]
  exact (value_pos_of_near positive near).ne'

private theorem not_tiny_of_near : -324 < decimal.topExponent := by
  by_contra tiny
  have units_ge : (1 : ℚ) ≤ magnitude.units := Nat.one_le_cast.mpr positive
  obtain ⟨low, -⟩ := abs_le.mp near
  linarith [two_value_lt_of_tiny (not_lt.mp tiny)]

private theorem not_huge_of_near : decimal.topExponent ≤ 309 := by
  by_contra huge
  have units_lt : (magnitude.units : ℚ) < Magnitude.limit := Nat.cast_lt.mpr magnitude.bounded
  have units_pos : (0 : ℚ) < magnitude.units := Nat.cast_pos.mpr positive
  obtain ⟨-, high⟩ := abs_le.mp near
  linarith [two_limit_le_of_huge (coefficient_ne_zero_of_near positive near) (not_le.mp huge)]

/-- Near a magnitude a decimal denotes what its quotient is rounded to. -/
theorem toNumber_of_near (negative : Bool)
    (nearest : Magnitude.nearestUnits decimal.quotient.1 decimal.quotient.2 = magnitude.units) :
    decimal.toNumber negative = .finite negative magnitude := by
  have nonzero := coefficient_ne_zero_of_near positive near
  have not_tiny := not_tiny_of_near positive near
  have not_huge := not_huge_of_near positive near
  unfold toNumber
  simp only [nonzero, not_tiny.not_ge, not_huge.not_gt, decide_false, Bool.or_false,
    Bool.false_eq_true, if_false]
  exact Number.ofQuotient_eq negative nearest

end Bounds

include positive in
/-- A decimal within one part in `2 ^ 54` of a magnitude denotes it. -/
theorem toNumber_of_close (negative : Bool)
    (close : |decimal.value * Magnitude.one - magnitude.units| < magnitude.units / 2 ^ 54) :
    decimal.toNumber negative = .finite negative magnitude := by
  have near : |decimal.value * Magnitude.one - magnitude.units| ≤ magnitude.units / 2 :=
    close.le.trans (div_le_div_of_nonneg_left (Nat.cast_nonneg _) (by norm_num) (by norm_num))
  have some_denominator := quotient_pos decimal
  have scale : (0 : ℚ) < decimal.quotient.2 := Nat.cast_pos.mpr some_denominator
  rw [← quotient_value, abs_lt] at close
  obtain ⟨low, high⟩ := close
  have low_scaled := mul_lt_mul_of_pos_right low scale
  have high_scaled := mul_lt_mul_of_pos_right high scale
  rw [sub_mul, div_mul_cancel₀ _ scale.ne'] at low_scaled high_scaled
  have low_units : 2 ^ 54 * (magnitude.units * decimal.quotient.2) <
      2 ^ 54 * decimal.quotient.1 + magnitude.units * decimal.quotient.2 := by
    have inequality : (2 ^ 54 : ℚ) * (magnitude.units * decimal.quotient.2) <
        2 ^ 54 * decimal.quotient.1 + magnitude.units * decimal.quotient.2 := by
      linarith
    exact_mod_cast inequality
  have high_units : 2 ^ 54 * decimal.quotient.1 <
      2 ^ 54 * (magnitude.units * decimal.quotient.2) +
        magnitude.units * decimal.quotient.2 := by
    have inequality : (2 ^ 54 : ℚ) * decimal.quotient.1 <
        2 ^ 54 * (magnitude.units * decimal.quotient.2) +
          magnitude.units * decimal.quotient.2 := by
      linarith
    exact_mod_cast inequality
  exact toNumber_of_near positive near negative
    (Magnitude.nearestUnits_eq positive magnitude.spaced some_denominator low_units high_units)

end Near

section Approximation

variable {magnitude : Magnitude}

/-- The leading exponent places a magnitude between two powers of ten. -/
theorem leadingExponent_le (positive : 0 < magnitude.units) :
    (10 : ℚ) ^ leadingExponent magnitude * Magnitude.one ≤ magnitude.units := by
  unfold leadingExponent
  split
  · rename_i whole
    have some_whole : 0 < magnitude.units / Magnitude.one :=
      Nat.div_pos whole Magnitude.one_pos
    have digits := Text.pow_digitCount_le some_whole
    have scaled := (Nat.le_div_iff_mul_le Magnitude.one_pos).mp digits
    have exponent : (Text.digitCount (magnitude.units / Magnitude.one) : Int) - 1 =
        ((Text.digitCount (magnitude.units / Magnitude.one) - 1 : Nat) : Int) := by
      have some_digit := Text.digitCount_pos some_whole
      omega
    rw [exponent, zpow_natCast]
    exact_mod_cast scaled
  · have below := Text.lt_pow_digitCount ((Magnitude.one - 1) / magnitude.units)
    rw [Nat.div_lt_iff_lt_mul positive] at below
    have scaled : Magnitude.one ≤
        magnitude.units * 10 ^ Text.digitCount ((Magnitude.one - 1) / magnitude.units) := by
      rw [Nat.mul_comm]
      omega
    rw [zpow_neg, zpow_natCast, inv_mul_le_iff₀ (by positivity), mul_comm]
    exact_mod_cast scaled

theorem lt_leadingExponent (positive : 0 < magnitude.units) :
    (magnitude.units : ℚ) < 10 ^ (leadingExponent magnitude + 1) * Magnitude.one := by
  unfold leadingExponent
  split
  · have digits := Text.lt_pow_digitCount (magnitude.units / Magnitude.one)
    rw [Nat.div_lt_iff_lt_mul Magnitude.one_pos] at digits
    rw [sub_add_cancel, zpow_natCast]
    exact_mod_cast digits
  · rename_i fraction
    have some_digit : 0 < (Magnitude.one - 1) / magnitude.units :=
      Nat.div_pos (by omega) positive
    have digits := (Nat.le_div_iff_mul_le positive).mp (Text.pow_digitCount_le some_digit)
    obtain ⟨count, count_eq⟩ : ∃ count,
        Text.digitCount ((Magnitude.one - 1) / magnitude.units) = count + 1 :=
      Nat.exists_eq_add_one.mpr (Text.digitCount_pos some_digit)
    rw [count_eq, Nat.add_sub_cancel] at digits
    have scaled : magnitude.units * 10 ^ count < Magnitude.one := by
      have one_pos := Magnitude.one_pos
      rw [Nat.mul_comm]
      omega
    have exponent : -((Text.digitCount ((Magnitude.one - 1) / magnitude.units) : Nat) : Int) + 1 =
        -(count : Int) := by
      rw [count_eq]
      omega
    rw [exponent, zpow_neg, zpow_natCast, lt_inv_mul_iff₀ (by positivity), mul_comm]
    exact_mod_cast scaled

private theorem roundHalfEven_abs_le (numerator : Nat) {denominator : Nat}
    (some_denominator : 0 < denominator) :
    |(roundHalfEven numerator denominator : ℚ) * denominator - numerator| ≤ denominator / 2 := by
  obtain ⟨low, high⟩ := roundHalfEven_near numerator some_denominator
  have low_cast : (2 : ℚ) * numerator ≤
      2 * (roundHalfEven numerator denominator * denominator) + denominator := by
    exact_mod_cast low
  have high_cast : (2 : ℚ) * (roundHalfEven numerator denominator * denominator) ≤
      2 * numerator + denominator := by
    exact_mod_cast high
  rw [abs_le]
  constructor <;> linarith

/-- Scaling is off by one half at most. -/
theorem scaleToNat_near (magnitude : Magnitude) (exponent : Int) :
    |(scaleToNat magnitude exponent : ℚ) * (10 ^ exponent * Magnitude.one) - magnitude.units| ≤
      10 ^ exponent * Magnitude.one / 2 := by
  unfold scaleToNat
  split
  · rename_i power
    have near := roundHalfEven_abs_le magnitude.units
      (Nat.mul_pos Magnitude.one_pos (Nat.pow_pos (n := power) (by decide : 0 < 10)))
    rw [Nat.cast_mul, Nat.cast_pow, Nat.cast_ofNat, mul_comm (Magnitude.one : ℚ)] at near
    rwa [Int.ofNat_eq_natCast, zpow_natCast]
  · rename_i power
    simp only [Nat.pow_eq]
    have near := roundHalfEven_abs_le (magnitude.units * 10 ^ (power + 1)) Magnitude.one_pos
    have scale : (0 : ℚ) < 10 ^ (power + 1) := by positivity
    rw [Nat.cast_mul, Nat.cast_pow, Nat.cast_ofNat] at near
    rw [zpow_negSucc]
    generalize (roundHalfEven (magnitude.units * 10 ^ (power + 1)) Magnitude.one : ℚ) = rounded
      at near ⊢
    generalize (10 : ℚ) ^ (power + 1) = factor at near scale ⊢
    generalize (Magnitude.one : ℚ) = unit at near ⊢
    have scaled : rounded * (factor⁻¹ * unit) - magnitude.units =
        (rounded * unit - magnitude.units * factor) / factor := by
      field_simp
    rw [scaled, abs_div, abs_of_pos scale, div_le_iff₀ scale]
    calc |rounded * unit - magnitude.units * factor|
        ≤ unit / 2 := near
      _ = factor⁻¹ * unit / 2 * factor := by field_simp

theorem approximate_value (magnitude : Magnitude) {digits : Nat} (some_digit : 0 < digits) :
    (approximate magnitude digits).value =
      scaleToNat magnitude (leadingExponent magnitude - digits + 1) *
        (10 : ℚ) ^ (leadingExponent magnitude - digits + 1) := by
  simp only [approximate]
  split
  · rename_i carried
    obtain ⟨count, rfl⟩ := Nat.exists_eq_add_one.mpr some_digit
    rw [carried, value, Nat.add_sub_cancel, zpow_add_one₀ (by norm_num)]
    simp only [Nat.pow_eq]
    push_cast
    ring
  · simp only [value]

theorem approximate_near (magnitude : Magnitude) {digits : Nat} (some_digit : 0 < digits) :
    |(approximate magnitude digits).value * Magnitude.one - magnitude.units| ≤
      10 ^ (leadingExponent magnitude - digits + 1) * Magnitude.one / 2 := by
  rw [approximate_value magnitude some_digit, mul_assoc]
  exact scaleToNat_near magnitude _

/-- With seventeen digits a decimal is close enough to read back. -/
theorem approximate_close (positive : 0 < magnitude.units) :
    |(approximate magnitude 17).value * Magnitude.one - magnitude.units| <
      magnitude.units / 2 ^ 54 := by
  have units_pos : (0 : ℚ) < magnitude.units := Nat.cast_pos.mpr positive
  have near := approximate_near magnitude (show 0 < 17 by decide)
  have leading := leadingExponent_le positive
  have exponent : leadingExponent magnitude - (17 : Nat) + 1 = leadingExponent magnitude + -16 := by
    omega
  have power : (10 : ℚ) ^ (leadingExponent magnitude + -16) =
      10 ^ leadingExponent magnitude / 10 ^ 16 := by
    rw [zpow_add₀ (by norm_num), zpow_neg, div_eq_mul_inv]
    rfl
  rw [exponent, power] at near
  have narrow : (10 : ℚ) ^ leadingExponent magnitude / 10 ^ 16 * Magnitude.one / 2 ≤
      magnitude.units / (2 * 10 ^ 16) := by
    rw [div_mul_eq_mul_div, div_div, mul_comm (10 ^ 16 : ℚ)]
    exact div_le_div_of_nonneg_right leading (by norm_num)
  have wide : (magnitude.units : ℚ) / (2 * 10 ^ 16) < magnitude.units / 2 ^ 54 :=
    div_lt_div_of_pos_left units_pos (by norm_num) (by norm_num)
  exact lt_of_le_of_lt (near.trans narrow) wide

private theorem shortestFrom_toNumber (positive : 0 < magnitude.units) {more digits : Nat}
    (enough : digits + more = 17) :
    (shortestFrom magnitude more digits).toNumber false = .finite false magnitude := by
  -- Whether or not fewer digits read back, the seventeen of the last step do.
  induction more generalizing digits with
  | zero =>
      obtain rfl : digits = 17 := enough
      exact toNumber_of_close positive false (approximate_close positive)
  | succ more induction =>
      rw [shortestFrom]
      split
      · rename_i reads_back
        simpa [readsBack] using reads_back
      · exact induction (by omega)

/-- The shortest decimal of a magnitude reads back. -/
theorem shortest_toNumber (positive : 0 < magnitude.units) :
    (shortest magnitude).toNumber false = .finite false magnitude :=
  shortestFrom_toNumber positive rfl

end Approximation

end Decimal
end Formulary
