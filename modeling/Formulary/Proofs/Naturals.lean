import Formulary.Proofs.CorrectRounding
import Formulary.Proofs.Indices
import Formulary.Proofs.ShortestText

/-!
# Natural numbers

The natural numbers up to `2 ^ 53` are numbers of the format.  What is written for such a number is
its decimal text, although the digits are found by a search and zeros are put behind them; and no
other number has that text.
-/

namespace Formulary

theorem Magnitude.one_eq_two_pow : ∃ exponent, one = Nat.pow 2 exponent := by
  -- The exponent stays a name, so that no power of this size is evaluated.
  unfold one
  generalize 1074 = exponent
  exact ⟨exponent, rfl⟩

private theorem Magnitude.two_pow_mul_one_lt_limit : 2 ^ 53 * one < limit := by decide +kernel

attribute [local irreducible] Magnitude.one Magnitude.limit

namespace Magnitude

theorem mul_one_lt_limit {n : Nat} (small : n ≤ 2 ^ 53) : n * one < limit :=
  Nat.lt_of_le_of_lt (Nat.mul_le_mul_right one small) two_pow_mul_one_lt_limit

/-- The magnitude of a natural number that the format has together with all smaller ones. -/
def ofSmall (n : Nat) (small : n ≤ 2 ^ 53) : Magnitude where
  units := n * one
  spaced := by
    obtain ⟨exponent, power⟩ := one_eq_two_pow
    rw [power]
    exact spacing_dvd_mul_two_pow exponent small
  bounded := mul_one_lt_limit small

/-- The gap above a natural number below `2 ^ 53` is no wider than one. -/
theorem spacing_le_one {n : Nat} (small : n < 2 ^ 53) : spacing (n * one) ≤ one := by
  obtain ⟨exponent, power⟩ := one_eq_two_pow
  rw [spacing_eq, power]
  refine Nat.pow_le_pow_right (by decide) ?_
  rcases Nat.eq_zero_or_pos n with rfl | positive
  · rw [Nat.zero_mul, Nat.log2_zero, Nat.zero_sub]
    exact Nat.zero_le exponent
  · have digits : (n * 2 ^ exponent).log2 < 53 + exponent := by
      rw [Nat.log2_lt (by positivity), Nat.pow_add]
      exact Nat.mul_lt_mul_of_pos_right small (Nat.two_pow_pos exponent)
    simp only [Nat.pow_eq]
    omega

end Magnitude

namespace Number

/-- The number is numerically a natural number, which is zero for both zeros. -/
def IsNat (x : Number) (n : Nat) : Prop :=
  x.place? = some ((n * Magnitude.one : Nat) : Int)

theorem not_isNat_nan (n : Nat) : ¬ nan.IsNat n :=
  fun natural => Option.some_ne_none _ natural.symm

theorem ofNat_eq_finite {n : Nat} (small : n ≤ 2 ^ 53) :
    ofNat n = .finite false (.ofSmall n small) :=
  ofQuotient_eq false (Magnitude.ofSmall n small).nearestUnits_units

theorem isNat_ofNat {n : Nat} (small : n ≤ 2 ^ 53) : (ofNat n).IsNat n := by
  rw [ofNat_eq_finite small]
  rfl

/-- A natural number is turned into the correct rounding of it. -/
theorem ofNat_rounded (n : Nat) : Rounded false n (ofNat n) := by
  refine Decimal.ofQuotient_rounded false Nat.one_pos ?_
  rw [Nat.cast_one, div_one, Nat.cast_mul]

private theorem IsNat.exists_finite {x : Number} {n : Nat} (natural : x.IsNat n)
    (small : n ≤ 2 ^ 53) : ∃ negative magnitude, x = .finite negative magnitude ∧
      magnitude.units = n * Magnitude.one ∧ (0 < n → negative = false) := by
  have below := Magnitude.mul_one_lt_limit small
  cases x with
  | nan => cases natural
  | infinite negative =>
      have place := Option.some.inj natural
      rw [signedUnits] at place
      split at place <;> omega
  | finite negative magnitude =>
      have place := Option.some.inj natural
      rw [signedUnits] at place
      refine ⟨negative, magnitude, rfl, ?_, fun positive => ?_⟩
      · split at place <;> omega
      · have units_pos := Nat.mul_pos positive Magnitude.one_pos
        split at place
        · omega
        · rename_i not_negative
          exact Bool.eq_false_iff.mpr not_negative

end Number

namespace Decimal

variable {magnitude : Magnitude} {n : Nat} (units : magnitude.units = n * Magnitude.one)
  (positive : 0 < n)

include units positive

private theorem leadingExponent_of_nat :
    leadingExponent magnitude = (Text.digitCount n : Int) - 1 := by
  rw [leadingExponent, if_pos, units, Nat.mul_div_cancel _ Magnitude.one_pos]
  rw [units]
  exact Nat.le_mul_of_pos_left _ positive

/-- With all its digits a natural number is approximated by itself. -/
theorem approximate_all_digits : (approximate magnitude (Text.digitCount n)).value = n := by
  have exponent : leadingExponent magnitude - Text.digitCount n + 1 = 0 := by
    rw [leadingExponent_of_nat units positive]
    omega
  have exact_scale : scaleToNat magnitude 0 = n := by
    have one_pos := Magnitude.one_pos
    have scale : Magnitude.one * Nat.pow 10 0 = Magnitude.one := Nat.mul_one _
    show roundHalfEven magnitude.units (Magnitude.one * Nat.pow 10 0) = n
    rw [scale, units]
    exact roundHalfEven_eq (by omega) (by omega)
  rw [approximate_value magnitude (Text.digitCount_pos positive), exponent, exact_scale, zpow_zero,
    mul_one]

/-- With fewer digits it is approximated by a multiple of a power of ten. -/
theorem approximate_exponent {digits : Nat} (few : digits ≤ Text.digitCount n) :
    ∃ power : Nat, (approximate magnitude digits).exponent = power := by
  have leading := leadingExponent_of_nat units positive
  refine ⟨((approximate magnitude digits).exponent).toNat, (Int.toNat_of_nonneg ?_).symm⟩
  unfold approximate
  dsimp only
  split <;> dsimp only <;> omega

section Small

variable (small : n < 2 ^ 53)

include small

/-- Below `2 ^ 53` no other natural number reads as a natural number. -/
theorem eq_of_reads {decimal : Decimal} {other : Nat} (value : decimal.value = other)
    (denotes : decimal.toNumber false = .finite false magnitude) : other = n := by
  have units_pos : 0 < magnitude.units := units ▸ Nat.mul_pos positive Magnitude.one_pos
  have one_pos := one_cast_pos
  have near := near_of_toNumber units_pos denotes
  have narrow : (Magnitude.spacing magnitude.units : ℚ) ≤ Magnitude.one := by
    rw [units]
    exact_mod_cast Magnitude.spacing_le_one small
  have apart : |((other : ℚ) - n) * Magnitude.one| ≤ Magnitude.one / 2 := by
    rw [units] at narrow
    rw [value, units, Nat.cast_mul, ← sub_mul] at near
    linarith
  rw [abs_mul, abs_of_pos one_pos] at apart
  have close : |(other : ℚ) - n| < 1 := by
    by_contra far
    have scaled := mul_le_mul_of_nonneg_right (not_lt.mp far) one_pos.le
    linarith
  have same : |(other : Int) - n| < 1 := by exact_mod_cast close
  exact Int.ofNat_inj.mp (sub_eq_zero.mp (Int.abs_lt_one_iff.mp same))

/-- The shortest decimal of a natural number is that number, with zeros taken off. -/
theorem shortest_of_nat : ∃ power : Nat, (shortest magnitude).exponent = power ∧
    (shortest magnitude).coefficient * 10 ^ power = n := by
  have units_pos : 0 < magnitude.units := units ▸ Nat.mul_pos positive Magnitude.one_pos
  obtain ⟨count, low, -, same, first⟩ := shortestFrom_first magnitude (rfl : 1 + 16 = 17)
  have enough : count ≤ Text.digitCount n := by
    by_contra further
    refine first _ (Text.digitCount_pos positive) (Nat.lt_of_not_le further) ?_
    refine toNumber_of_close units_pos false ?_
    rw [approximate_all_digits units positive, units, Nat.cast_mul, sub_self, abs_zero,
      ← Nat.cast_mul, ← units]
    exact div_pos (Nat.cast_pos.mpr units_pos) (by positivity)
  obtain ⟨power, exponent⟩ := approximate_exponent units positive enough
  have reads := shortest_toNumber units_pos
  rw [shortest, same] at reads ⊢
  refine ⟨power, exponent, eq_of_reads units positive small ?_ reads⟩
  rw [value, exponent, zpow_natCast]
  push_cast
  rfl

end Small
end Decimal

namespace Text

private theorem ofNat_mul_pow {n : Nat} (positive : 0 < n) (count : Nat) :
    ofNat (n * 10 ^ count) = ofNat n ++ Significand.zeros count := by
  induction count with
  | zero => simp [Significand.zeros]
  | succ count induction =>
      have multiple : n * 10 ^ (count + 1) = n * 10 ^ count * 10 := by
        rw [pow_succ, Nat.mul_assoc]
      have large : 0 < n * 10 ^ count := Nat.mul_pos positive (by positivity)
      rw [multiple, ofNat_of_le (by omega), Nat.mul_div_cancel _ (by decide), induction,
        Nat.mul_mod_left, Significand.zeros, Significand.zeros, List.replicate_succ',
        List.append_assoc]
      rfl

private theorem digitCount_mul_pow {n : Nat} (positive : 0 < n) (count : Nat) :
    digitCount (n * 10 ^ count) = digitCount n + count := by
  rw [← length_ofNat (Nat.mul_pos positive (by positivity)), ofNat_mul_pow positive,
    List.length_append, length_ofNat positive, Significand.length_zeros]

end Text

/-- A decimal with its point behind at most 21 digits is written as the natural number it is. -/
theorem Significand.layout_ofDecimal {decimal : Decimal} (nonzero : decimal.coefficient ≠ 0)
    {power : Nat} (exponent : decimal.exponent = power) (near : decimal.topExponent ≤ 21) :
    (ofDecimal decimal).layout = Text.ofNat (decimal.coefficient * 10 ^ power) := by
  have positive := Nat.pos_of_ne_zero nonzero
  obtain ⟨count, split, -⟩ := ofDecimal_split nonzero
  have size := congrArg List.length split
  rw [List.length_append, length_zeros, Text.length_ofNat positive] at size
  have point : (ofDecimal decimal).point = decimal.topExponent := rfl
  have top : decimal.topExponent = decimal.exponent + Text.digitCount decimal.coefficient := rfl
  have padding : (ofDecimal decimal).point.toNat - (ofDecimal decimal).digits.length =
      count + power := by
    omega
  rw [layout, if_pos ⟨by omega, by omega⟩, padding, Text.ofNat_mul_pow positive, split,
    List.append_assoc, zeros, zeros, zeros, List.replicate_add]

namespace Number

/-- A natural number below `2 ^ 53` is written as its decimal text. -/
theorem IsNat.toText_eq {x : Number} {n : Nat} (natural : x.IsNat n) (small : n < 2 ^ 53) :
    x.toText = Text.ofNat n := by
  obtain ⟨negative, magnitude, rfl, units, sign⟩ := natural.exists_finite small.le
  rcases Nat.eq_zero_or_pos n with rfl | positive
  · rw [toText, if_pos (by omega), Text.ofNat_of_lt (by decide)]
    rfl
  · have units_pos : 0 < magnitude.units := units ▸ Nat.mul_pos positive Magnitude.one_pos
    have nonzero := Decimal.shortest_coefficient units_pos
    obtain ⟨power, exponent, value⟩ := Decimal.shortest_of_nat units positive small
    have near : (Decimal.shortest magnitude).topExponent ≤ 21 := by
      have digits : Text.digitCount n ≤ 21 := Text.digitCount_le positive (by omega)
      rw [← value, Text.digitCount_mul_pow (Nat.pos_of_ne_zero nonzero)] at digits
      rw [Decimal.topExponent, exponent]
      omega
    rw [toText, if_neg (Nat.ne_of_gt units_pos), sign positive, if_neg Bool.false_ne_true,
      List.nil_append, Significand.layout_ofDecimal nonzero exponent near, value]

/-- Only a natural number is written as one. -/
theorem isNat_of_toText {x : Number} {n : Nat} (same : x.toText = Text.ofNat n)
    (small : n < 2 ^ 53) : x.IsNat n := by
  have written : x.toText = (finite false (.ofSmall n small.le)).toText := by
    rw [same, ← ofNat_eq_finite small.le, (isNat_ofNat small.le).toText_eq small]
  have digits {byte : UInt8} (member : byte ∈ x.toText) : Text.isDigit byte :=
    Text.isDigit_of_mem_ofNat n byte (same ▸ member)
  cases x with
  | nan =>
      have letter : Text.isDigit 78 := digits (by decide)
      cases letter
  | infinite negative =>
      have letter : Text.isDigit 73 := digits (by cases negative <;> decide)
      cases letter
  | finite negative magnitude =>
      have read := congrArg ofText written
      rw [ofText_toText, ofText_toText] at read
      injection read with sign units
      have worth : magnitude.units = n * Magnitude.one := congrArg Magnitude.units units
      cases negative with
      | false => rw [IsNat, place?, signedUnits, if_neg Bool.false_ne_true, worth]
      | true =>
          have zero : magnitude.units = 0 := by simpa using sign
          rw [IsNat, place?, signedUnits, if_pos rfl, ← worth, zero]
          rfl

end Number
end Formulary
