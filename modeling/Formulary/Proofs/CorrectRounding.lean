import Formulary.Proofs.DecimalValue
import Formulary.Proofs.RoundingInterval

/-!
# Correct rounding

A number is the correct rounding of a rational if no other representable one is nearer to it, and if
its last binary digit is zero where another one is as near.  What rounds to the limit of the format
or beyond is infinite.  Decimals are read as the correct rounding of their value.
-/

namespace Formulary

namespace Magnitude

/--
Of all counts of units with at most 53 significant binary digits the place is nearest to this one;
if it is as near to another one, the last of the digits is zero.
-/
structure RoundsTo (place : ℚ) (units : Nat) : Prop where
  representable : spacing units ∣ units
  nearest : ∀ other, spacing other ∣ other → |place - units| ≤ |place - other|
  even : ∀ other, spacing other ∣ other → other ≠ units →
    |place - other| = |place - units| → units / spacing units % 2 = 0

/-- Below half a unit everything rounds to zero. -/
theorem roundsTo_zero {place : ℚ} (nonnegative : 0 ≤ place) (small : 2 * place < 1) :
    RoundsTo place 0 where
  representable := Nat.dvd_zero _
  nearest other _ := by
    rcases Nat.eq_zero_or_pos other with zero | positive
    · rw [zero]
    · have one_le : (1 : ℚ) ≤ other := by exact_mod_cast positive
      rw [Nat.cast_zero, sub_zero, abs_of_nonneg nonnegative]
      linarith [neg_abs_le (place - other)]
  even _ _ _ _ := by rw [Nat.zero_div]

section Multiples

variable {gap units other : Nat}

private theorem gap_le_distance (spaced : gap ∣ units) (other_spaced : gap ∣ other)
    (apart : other ≠ units) : (gap : ℚ) ≤ |(units : ℚ) - other| := by
  rcases Nat.lt_or_gt_of_ne apart with below | above
  · have step : (other : ℚ) + gap ≤ units := by
      exact_mod_cast add_le_of_dvd_of_lt other_spaced spaced below
    linarith [le_abs_self ((units : ℚ) - other)]
  · have step : (units : ℚ) + gap ≤ other := by
      exact_mod_cast add_le_of_dvd_of_lt spaced other_spaced above
    linarith [neg_abs_le ((units : ℚ) - other)]

/-- A place is a gap away from two multiples together. -/
theorem gap_le_distances (place : ℚ) (spaced : gap ∣ units) (other_spaced : gap ∣ other)
    (apart : other ≠ units) : (gap : ℚ) ≤ |place - units| + |place - other| := by
  have far := gap_le_distance spaced other_spaced apart
  have split : (units : ℚ) - other = (place - other) - (place - units) := by ring
  rw [split] at far
  linarith [abs_sub (place - other) (place - units)]

end Multiples

variable {numerator denominator : Nat} (positive : 0 < denominator)

include positive

/-- What is representable is a multiple of the gap around a place, or lies below its binade. -/
theorem gap_dvd_or_lt {other : Nat} (spaced : spacing other ∣ other) :
    spacing (numerator / denominator) ∣ other ∨
      ∃ bottom, spacing (numerator / denominator) ∣ bottom ∧ other < bottom ∧
        (bottom : ℚ) ≤ (numerator : ℚ) / denominator := by
  rcases Nat.eq_zero_or_pos (numerator / denominator) with zero | some_unit
  · rw [zero]
    exact .inl (Nat.one_dvd other)
  · have nonzero := Nat.ne_of_gt some_unit
    rcases Nat.lt_or_ge other (2 ^ (numerator / denominator).log2) with below | reached
    · refine .inr ⟨_, Nat.pow_dvd_pow 2 (Nat.sub_le _ 52), below, ?_⟩
      rw [cast_le_div positive]
      exact Nat.log2_self_le nonzero
    · have other_nonzero : other ≠ 0 := by
        have := Nat.two_pow_pos (numerator / denominator).log2
        omega
      have higher := (Nat.le_log2 other_nonzero).mpr reached
      exact .inl (Nat.dvd_trans (Nat.pow_dvd_pow 2 (Nat.sub_le_sub_right higher 52)) spaced)

/-- The last digit of a power of two is zero where the gap below it is narrower. -/
theorem even_of_narrower {units : Nat} (rounded : nearestUnits numerator denominator = units)
    (narrower : spacing (numerator / denominator) < spacing units) :
    units / spacing units % 2 = 0 := by
  rcases Nat.eq_zero_or_pos units with zero | units_pos
  · rw [zero, Nat.zero_div]
  have spaced : spacing units ∣ units := rounded ▸ spacing_dvd_nearestUnits _ _
  obtain same | ⟨power, -⟩ :=
    log2_of_near positive units_pos spaced (near_of_rounded positive rounded)
  · exact absurd (spacing_congr same) (Nat.ne_of_lt narrower)
  · have wide : spacing units ≠ 1 := fun one => by
      have some_unit := spacing_pos (numerator / denominator)
      omega
    have large : 53 ≤ units.log2 := by
      by_contra small
      exact wide (by rw [spacing_eq, Nat.sub_eq_zero_of_le (by omega), Nat.pow_zero])
    have split : units = 2 ^ 52 * spacing units := by
      rw [spacing_eq, ← Nat.pow_add, Nat.add_sub_cancel' (by omega)]
      exact power
    have count : units / spacing units = 2 ^ 52 :=
      Nat.div_eq_of_eq_mul_left (spacing_pos units) split
    rw [count]
    rfl

/-- A quotient is rounded to the units that it rounds to. -/
theorem nearestUnits_roundsTo (numerator : Nat) :
    RoundsTo ((numerator : ℚ) / denominator) (nearestUnits numerator denominator) := by
  have rounded : nearestUnits numerator denominator = nearestUnits numerator denominator := rfl
  obtain ⟨spaced, near, odd_nearer⟩ := (nearestUnits_eq_iff positive).mp rounded
  have narrow := spacing_le_of_rounded positive rounded
  have even_of_narrower := even_of_narrower positive rounded
  have representable := spacing_dvd_nearestUnits numerator denominator
  generalize nearestUnits numerator denominator = units at *
  have multiples {other : Nat} (other_spaced : spacing (numerator / denominator) ∣ other) :
      other = units ∨ (spacing (numerator / denominator) : ℚ) ≤
        |(numerator : ℚ) / denominator - units| + |(numerator : ℚ) / denominator - other| :=
    or_iff_not_imp_left.mpr (gap_le_distances _ spaced other_spaced)
  -- Below the binade of the place everything is farther away than the bottom of the binade.
  have nearer {other : Nat} (also : spacing other ∣ other) :
      spacing (numerator / denominator) ∣ other ∨
        |(numerator : ℚ) / denominator - units| < |(numerator : ℚ) / denominator - other| := by
    refine (gap_dvd_or_lt positive also).imp_right fun ⟨bottom, bottom_spaced, below, reached⟩ => ?_
    have below_cast : (other : ℚ) < bottom := by exact_mod_cast below
    have bottom_distance : |(numerator : ℚ) / denominator - bottom| =
        (numerator : ℚ) / denominator - bottom := abs_of_nonneg (by linarith)
    have other_distance := le_abs_self ((numerator : ℚ) / denominator - other)
    obtain rfl | far := multiples bottom_spaced
    · linarith
    · linarith
  refine ⟨representable, fun other also => ?_, fun other also apart tie => ?_⟩
  · obtain other_spaced | farther := nearer also
    · obtain rfl | far := multiples other_spaced
      · exact le_rfl
      · linarith
    · exact farther.le
  · obtain other_spaced | farther := nearer also
    · have far := (multiples other_spaced).resolve_left apart
      have not_odd : ¬ units / spacing (numerator / denominator) % 2 = 1 := fun odd => by
        linarith [odd_nearer odd]
      rcases Nat.eq_or_lt_of_le narrow with equal | narrower
      · rw [← equal]
        omega
      · exact even_of_narrower narrower
    · exact absurd tie.symm farther.ne

omit positive in
private theorem spacing_dvd_limit : spacing limit ∣ limit := by decide +kernel

end Magnitude

attribute [local irreducible] Magnitude.limit

/--
The number is the correct rounding of a value with a sign; a value that rounds to the limit of the
format or beyond has the infinity.
-/
inductive Number.Rounded (negative : Bool) (value : ℚ) : Number → Prop where
  | finite {magnitude : Magnitude}
      (rounds : Magnitude.RoundsTo (value * Magnitude.one) magnitude.units) :
      Rounded negative value (.finite negative magnitude)
  | infinite {units : Nat} (rounds : Magnitude.RoundsTo (value * Magnitude.one) units)
      (beyond : Magnitude.limit ≤ units) : Rounded negative value (.infinite negative)

namespace Decimal

variable (negative : Bool) (decimal : Decimal)

theorem ofQuotient_rounded {numerator denominator : Nat} (positive : 0 < denominator) {value : ℚ}
    (place : (numerator : ℚ) / denominator = value * Magnitude.one) :
    Number.Rounded negative value (Number.ofQuotient negative numerator denominator) := by
  have rounds := Magnitude.nearestUnits_roundsTo positive numerator
  rw [place] at rounds
  by_cases bounded : Magnitude.nearestUnits numerator denominator < Magnitude.limit
  · obtain ⟨magnitude, units⟩ : ∃ magnitude : Magnitude,
        Magnitude.nearestUnits numerator denominator = magnitude.units :=
      ⟨⟨_, Magnitude.spacing_dvd_nearestUnits _ _, bounded⟩, rfl⟩
    rw [Number.ofQuotient_eq negative units]
    exact .finite (units ▸ rounds)
  · have beyond := Nat.le_of_not_lt bounded
    unfold Number.ofQuotient
    rw [Magnitude.nearest?_eq_none bounded]
    exact .infinite rounds beyond

/-- A decimal that is too small for its digits to matter rounds to zero. -/
theorem roundsTo_zero_of_tiny (tiny : decimal.coefficient = 0 ∨ decimal.topExponent ≤ -324) :
    Magnitude.RoundsTo (decimal.value * Magnitude.one) 0 := by
  have nonnegative : 0 ≤ decimal.value :=
    mul_nonneg (Nat.cast_nonneg _) (zpow_nonneg (by norm_num) _)
  refine Magnitude.roundsTo_zero (mul_nonneg nonnegative one_cast_pos.le) ?_
  rcases tiny with zero | low
  · rw [(value_eq_zero_iff decimal).mpr zero, zero_mul, mul_zero]
    exact one_pos
  · exact two_value_lt_of_tiny low

/-- A decimal that is too large for its digits to matter rounds to the limit or beyond. -/
theorem limit_le_of_huge (nonzero : decimal.coefficient ≠ 0) (huge : 309 < decimal.topExponent)
    {units : Nat} (rounds : Magnitude.RoundsTo (decimal.value * Magnitude.one) units) :
    Magnitude.limit ≤ units := by
  by_contra below
  have below_cast : (units : ℚ) < Magnitude.limit := by exact_mod_cast Nat.lt_of_not_le below
  have large := two_limit_le_of_huge nonzero huge
  have limit_pos : (0 : ℚ) < Magnitude.limit := Nat.cast_pos.mpr Magnitude.limit_pos
  have nearest := rounds.nearest Magnitude.limit Magnitude.spacing_dvd_limit
  rw [abs_of_nonneg (by linarith), abs_of_nonneg (by linarith)] at nearest
  linarith

/-- A decimal is read as the correct rounding of its value. -/
theorem toNumber_rounded :
    Number.Rounded negative decimal.value (decimal.toNumber negative) := by
  unfold toNumber
  split
  · rename_i tiny
    rw [Bool.or_eq_true, decide_eq_true_eq, decide_eq_true_eq] at tiny
    exact .finite (roundsTo_zero_of_tiny decimal tiny)
  · rename_i not_tiny
    rw [Bool.or_eq_true, decide_eq_true_eq, decide_eq_true_eq, not_or] at not_tiny
    split
    · rename_i huge
      have rounds := Magnitude.nearestUnits_roundsTo (quotient_pos decimal) decimal.quotient.1
      rw [quotient_value] at rounds
      exact .infinite rounds (limit_le_of_huge decimal not_tiny.1 huge rounds)
    · exact ofQuotient_rounded negative (quotient_pos decimal) (quotient_value decimal)

end Decimal
end Formulary
