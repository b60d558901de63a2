import Mathlib.Algebra.Order.Field.Rat
import Mathlib.Data.Nat.Cast.Order.Field
import Mathlib.Tactic.FieldSimp
import Formulary.Proofs.Rounding

/-!
# What rounds to a magnitude

A place on the number line is rounded to a magnitude if it lies within half a gap of it, and closer
than that if the magnitude is an odd count of gaps.  The gap is the same on both sides of a
magnitude unless it is a power of two, so that whatever is no further away rounds to it as well.
-/

namespace Formulary

/-- Half a gap away from a count of gaps at most, and less if the count is odd. -/
def WithinHalf (gap : ℚ) (count : Nat) (distance : ℚ) : Prop :=
  2 * distance ≤ gap ∧ (count % 2 = 1 → 2 * distance < gap)

namespace WithinHalf

variable {gap distance other : ℚ} {count : Nat}

private theorem mono (within : WithinHalf gap count distance) (nearer : other ≤ distance) :
    WithinHalf gap count other :=
  ⟨by linarith [within.1], fun odd => by linarith [within.2 odd]⟩

private theorem of_lt (closer : 2 * distance < gap) : WithinHalf gap count distance :=
  ⟨closer.le, fun _ => closer⟩

private theorem le {place : ℚ} {first second : Nat} (within : WithinHalf 1 first |place - first|)
    (also : WithinHalf 1 second |place - second|) : second ≤ first := by
  by_contra greater
  obtain ⟨-, above⟩ := abs_le.mp (show |place - first| ≤ 1 / 2 by linarith [within.1])
  obtain ⟨below, -⟩ := abs_le.mp (show |place - second| ≤ 1 / 2 by linarith [also.1])
  have next : (second : ℚ) ≤ first + 1 := by linarith
  obtain rfl : second = first + 1 := Nat.le_antisymm (by exact_mod_cast next) (by omega)
  push_cast at below
  -- The place is halfway between two neighbours, of which one is odd.
  rcases Nat.mod_two_eq_zero_or_one first with even | odd
  · have strict := also.2 (by omega)
    push_cast at strict
    have := neg_abs_le (place - (first + 1))
    linarith
  · have := le_abs_self (place - first)
    linarith [within.2 odd]

private theorem scale_iff {scale : ℚ} (positive : 0 < scale) :
    WithinHalf scale count (distance * scale) ↔ WithinHalf 1 count distance := by
  have least : 2 * (distance * scale) ≤ scale ↔ 2 * distance ≤ 1 := by
    rw [← mul_assoc, mul_le_iff_le_one_left positive]
  have less : 2 * (distance * scale) < scale ↔ 2 * distance < 1 := by
    rw [← mul_assoc, mul_lt_iff_lt_one_left positive]
  rw [WithinHalf, WithinHalf, least, less]

/-- No two counts have a place within the half gap that each of them owns. -/
theorem unique {place : ℚ} {first second : Nat} (within : WithinHalf 1 first |place - first|)
    (also : WithinHalf 1 second |place - second|) : first = second :=
  Nat.le_antisymm (also.le within) (within.le also)

end WithinHalf

section Quotients

variable {numerator denominator nearest : Nat}

/-- What a quotient is rounded to owns its place. -/
theorem roundHalfEven_within (numerator : Nat) (positive : 0 < denominator) :
    WithinHalf 1 (roundHalfEven numerator denominator)
      |(numerator : ℚ) / denominator - roundHalfEven numerator denominator| := by
  have scale : (0 : ℚ) < denominator := Nat.cast_pos.mpr positive
  have split : (numerator : ℚ) / denominator =
      (numerator / denominator : Nat) + (numerator % denominator : Nat) / denominator := by
    rw [div_eq_iff scale.ne', add_mul, div_mul_cancel₀ _ scale.ne']
    exact_mod_cast (Nat.div_add_mod' numerator denominator).symm
  have remainder : ((numerator % denominator : Nat) : ℚ) / denominator < 1 := by
    rw [div_lt_one scale]
    exact_mod_cast Nat.mod_lt numerator positive
  have nonnegative : 0 ≤ ((numerator % denominator : Nat) : ℚ) / denominator := by positivity
  have low : |(numerator : ℚ) / denominator - (numerator / denominator : Nat)| =
      (numerator % denominator : Nat) / denominator := by
    rw [split, add_sub_cancel_left, abs_of_nonneg nonnegative]
  have high : |(numerator : ℚ) / denominator - (numerator / denominator + 1 : Nat)| =
      1 - (numerator % denominator : Nat) / denominator := by
    rw [split, Nat.cast_succ, add_sub_add_left_eq_sub, abs_sub_comm, abs_of_pos (by linarith)]
  have below_half : 2 * (numerator % denominator) < denominator ↔
      2 * (((numerator % denominator : Nat) : ℚ) / denominator) < 1 := by
    rw [← mul_div_assoc, div_lt_one scale]
    exact_mod_cast Iff.rfl
  have above_half : denominator < 2 * (numerator % denominator) ↔
      1 < 2 * (((numerator % denominator : Nat) : ℚ) / denominator) := by
    rw [← mul_div_assoc, one_lt_div scale]
    exact_mod_cast Iff.rfl
  rw [roundHalfEven]
  split
  · rw [low]
    exact .of_lt (below_half.mp ‹_›)
  · rename_i not_below
    rw [below_half] at not_below
    split
    · rename_i above
      rw [high]
      exact .of_lt (by linarith [above_half.mp above])
    · rename_i not_above
      rw [above_half] at not_above
      split
      · rename_i even
        rw [low]
        exact ⟨by linarith, by omega⟩
      · rename_i odd
        rw [high]
        exact ⟨by linarith, by omega⟩

private theorem roundHalfEven_eq_iff (positive : 0 < denominator) :
    roundHalfEven numerator denominator = nearest ↔
      WithinHalf 1 nearest |(numerator : ℚ) / denominator - nearest| := by
  constructor
  · rintro rfl
    exact roundHalfEven_within numerator positive
  · exact (roundHalfEven_within numerator positive).unique

end Quotients

namespace Magnitude

variable {numerator denominator units : Nat}

/-- A quotient is rounded to the multiple of the spacing around it that owns its place. -/
theorem nearestUnits_eq_iff (positive : 0 < denominator) :
    nearestUnits numerator denominator = units ↔
      spacing (numerator / denominator) ∣ units ∧
        WithinHalf (spacing (numerator / denominator))
          (units / spacing (numerator / denominator))
          |(numerator : ℚ) / denominator - units| := by
  have gap_pos := spacing_pos (numerator / denominator)
  rw [nearestUnits]
  generalize spacing (numerator / denominator) = gap at gap_pos ⊢
  have scale : (0 : ℚ) < gap := Nat.cast_pos.mpr gap_pos
  have scaled (count : Nat) : |(numerator : ℚ) / denominator - (count * gap : Nat)| =
      |(numerator : ℚ) / (denominator * gap : Nat) - count| * gap := by
    have product : (numerator : ℚ) / denominator - (count * gap : Nat) =
        ((numerator : ℚ) / (denominator * gap : Nat) - count) * gap := by
      rw [sub_mul, Nat.cast_mul, Nat.cast_mul, ← div_div, div_mul_cancel₀ _ scale.ne']
    rw [product, abs_mul, abs_of_pos scale]
  constructor
  · rintro rfl
    refine ⟨Nat.dvd_mul_left gap _, ?_⟩
    rw [Nat.mul_div_cancel _ gap_pos, scaled, WithinHalf.scale_iff scale]
    exact roundHalfEven_within numerator (Nat.mul_pos positive gap_pos)
  · rintro ⟨⟨count, rfl⟩, within⟩
    rw [Nat.mul_comm gap count, Nat.mul_div_cancel _ gap_pos, scaled,
      WithinHalf.scale_iff scale] at within
    rw [(roundHalfEven_eq_iff (Nat.mul_pos positive gap_pos)).mpr within, Nat.mul_comm]

section Binades

variable {gap bound : Nat} {place : ℚ}

/-- A place within half a gap does not reach the next multiple of the gap. -/
theorem lt_of_near (gap_pos : 0 < gap) (spaced : gap ∣ units) (bound_dvd : gap ∣ bound)
    (above : units < bound) (near : 2 * |place - units| ≤ gap) : place < bound := by
  have step : (units : ℚ) + gap ≤ bound := by
    exact_mod_cast add_le_of_dvd_of_lt spaced bound_dvd above
  have scale : (0 : ℚ) < gap := Nat.cast_pos.mpr gap_pos
  linarith [le_abs_self (place - units)]

/-- Nor does it come below the multiple of the gap in front of it. -/
theorem le_of_near (spaced : gap ∣ units) (bound_dvd : gap ∣ bound) (below : bound < units)
    (near : 2 * |place - units| ≤ gap) : bound ≤ place := by
  have step : (bound : ℚ) + gap ≤ units := by
    exact_mod_cast add_le_of_dvd_of_lt bound_dvd spaced below
  have scale : (0 : ℚ) ≤ gap := Nat.cast_nonneg gap
  linarith [neg_abs_le (place - units)]

theorem cast_le_div (positive : 0 < denominator) :
    (bound : ℚ) ≤ (numerator : ℚ) / denominator ↔ bound ≤ numerator / denominator := by
  rw [le_div_iff₀ (Nat.cast_pos.mpr positive), Nat.le_div_iff_mul_le positive]
  exact_mod_cast Iff.rfl

private theorem div_lt_cast (positive : 0 < denominator) :
    (numerator : ℚ) / denominator < bound ↔ numerator / denominator < bound := by
  rw [← not_le, cast_le_div positive, Nat.not_le]

private theorem spacing_mono {other : Nat} (less : units.log2 ≤ other.log2) :
    spacing units ≤ spacing other :=
  Nat.pow_le_pow_right (by decide) (Nat.sub_le_sub_right less 52)

private theorem log2_eq_of_between {exponent : Nat} (low : 2 ^ exponent ≤ units)
    (high : units < 2 ^ (exponent + 1)) : units.log2 = exponent :=
  (Nat.log2_eq_iff (Nat.ne_of_gt (Nat.lt_of_lt_of_le (Nat.two_pow_pos exponent) low))).mpr
    ⟨low, high⟩

variable (positive : 0 < denominator)

include positive

/-- What is rounded to a magnitude does not come from a higher binade. -/
theorem div_lt_of_rounded (rounded : nearestUnits numerator denominator = units) :
    numerator / denominator < 2 ^ (units.log2 + 1) := by
  obtain ⟨spaced, near, -⟩ := (nearestUnits_eq_iff positive).mp rounded
  by_contra above
  have nonzero : numerator / denominator ≠ 0 := by
    have := Nat.two_pow_pos (units.log2 + 1)
    omega
  have bottom := Nat.log2_self_le nonzero
  have higher : units.log2 + 1 ≤ (numerator / denominator).log2 :=
    (Nat.le_log2 nonzero).mpr (Nat.le_of_not_lt above)
  have below : units < 2 ^ (numerator / denominator).log2 :=
    Nat.lt_of_lt_of_le Nat.lt_log2_self (Nat.pow_le_pow_right (by decide) higher)
  have reached := lt_of_near (spacing_pos _) spaced (Nat.pow_dvd_pow 2 (Nat.sub_le _ 52)) below near
  rw [div_lt_cast positive] at reached
  exact Nat.not_le.mpr reached bottom

theorem spacing_le_of_rounded (rounded : nearestUnits numerator denominator = units) :
    spacing (numerator / denominator) ≤ spacing units := by
  have below := div_lt_of_rounded positive rounded
  apply spacing_mono
  rcases Nat.eq_zero_or_pos (numerator / denominator) with zero | some_unit
  · rw [zero]
    exact Nat.zero_le _
  · exact Nat.lt_succ_iff.mp ((Nat.log2_lt (Nat.ne_of_gt some_unit)).mpr below)

theorem near_of_rounded (rounded : nearestUnits numerator denominator = units) :
    2 * |(numerator : ℚ) / denominator - units| ≤ spacing units := by
  obtain ⟨-, near, -⟩ := (nearestUnits_eq_iff positive).mp rounded
  exact near.trans (by exact_mod_cast spacing_le_of_rounded positive rounded)

/-- A place near a magnitude is in its binade, or below it if the magnitude begins the binade. -/
theorem log2_of_near (units_pos : 0 < units) (spaced : spacing units ∣ units)
    (near : 2 * |(numerator : ℚ) / denominator - units| ≤ spacing units) :
    (numerator / denominator).log2 = units.log2 ∨
      units = 2 ^ units.log2 ∧ numerator / denominator < 2 ^ units.log2 := by
  have bottom_dvd : spacing units ∣ 2 ^ units.log2 := Nat.pow_dvd_pow 2 (Nat.sub_le _ 52)
  have top_dvd : spacing units ∣ 2 ^ (units.log2 + 1) :=
    Nat.dvd_trans bottom_dvd (Nat.pow_dvd_pow 2 (Nat.le_succ _))
  have under := lt_of_near (spacing_pos _) spaced top_dvd Nat.lt_log2_self near
  rw [div_lt_cast positive] at under
  rcases Nat.lt_or_ge (numerator / denominator) (2 ^ units.log2) with below | above
  · right
    refine ⟨?_, below⟩
    by_contra apart
    have greater := Nat.lt_of_le_of_ne (Nat.log2_self_le (Nat.ne_of_gt units_pos)) (Ne.symm apart)
    have reached := le_of_near spaced bottom_dvd greater near
    rw [cast_le_div positive] at reached
    exact Nat.not_le.mpr below reached
  · exact .inl (log2_eq_of_between above under)

/-- Below a power of two the spacing is half as wide, unless it is one already. -/
theorem spacing_below_two_pow {exponent : Nat}
    (near : 2 * |(numerator : ℚ) / denominator - (2 ^ exponent : Nat)| ≤ spacing (2 ^ exponent))
    (below : numerator / denominator < 2 ^ exponent) :
    spacing (numerator / denominator) = 2 ^ (exponent - 53) := by
  rw [spacing_eq (2 ^ exponent), Nat.log2_two_pow] at near
  cases exponent with
  | zero =>
      rw [Nat.lt_one_iff.mp below]
      decide
  | succ exponent =>
      have gap_le : ((2 ^ (exponent + 1 - 52) : Nat) : ℚ) ≤ (2 ^ (exponent + 1) : Nat) := by
        exact_mod_cast Nat.pow_le_pow_right (by decide) (Nat.sub_le _ 52)
      have half : ((2 ^ (exponent + 1) : Nat) : ℚ) = 2 * (2 ^ exponent : Nat) := by
        rw [pow_succ]
        push_cast
        ring
      have reached : ((2 ^ exponent : Nat) : ℚ) ≤ (numerator : ℚ) / denominator := by
        linarith [neg_abs_le ((numerator : ℚ) / denominator - (2 ^ (exponent + 1) : Nat))]
      rw [cast_le_div positive] at reached
      rw [spacing_eq, log2_eq_of_between reached below]
      rfl

/-- What is rounded to a magnitude is within half of the gap above it. -/
theorem within_of_rounded (rounded : nearestUnits numerator denominator = units) :
    WithinHalf (spacing units) (units / spacing units) |(numerator : ℚ) / denominator - units| := by
  obtain ⟨-, within⟩ := (nearestUnits_eq_iff positive).mp rounded
  rcases Nat.eq_or_lt_of_le (spacing_le_of_rounded positive rounded) with equal | narrower
  · rwa [equal] at within
  · have less : (spacing (numerator / denominator) : ℚ) < spacing units := by
      exact_mod_cast narrower
    exact .of_lt (lt_of_le_of_lt within.1 less)

/-- Up to `2 ^ 53` units all gaps are one unit wide. -/
theorem spacing_of_rounded_small {exponent : Nat} (small : exponent ≤ 52)
    (rounded : nearestUnits numerator denominator = 2 ^ exponent)
    (not_lower : 2 ^ exponent ≤ numerator / denominator) :
    spacing (numerator / denominator) = 2 ^ (exponent - 53) := by
  have under := div_lt_of_rounded positive rounded
  rw [Nat.log2_two_pow] at under
  rw [spacing_eq, log2_eq_of_between not_lower under, Nat.sub_eq_zero_of_le small,
    Nat.sub_eq_zero_of_le (Nat.le_succ_of_le small)]

end Binades

/-- The gap below a magnitude is half as wide as the gap above it. -/
def Lopsided (units : Nat) : Prop :=
  ∃ exponent, 53 ≤ exponent ∧ units = 2 ^ exponent

/--
What is no further away from a magnitude than a place that rounds to it rounds to it as well, unless
it lies below and the place above a magnitude with a narrower gap below.
-/
theorem nearestUnits_of_nearer {other another : Nat} (units_pos : 0 < units)
    (spaced : spacing units ∣ units) (positive : 0 < denominator) (also : 0 < another)
    (rounded : nearestUnits numerator denominator = units)
    (nearer : |(other : ℚ) / another - units| ≤ |(numerator : ℚ) / denominator - units|)
    (side : (units : ℚ) ≤ (other : ℚ) / another ∨ (numerator : ℚ) / denominator ≤ units ∨
      ¬ Lopsided units) :
    nearestUnits other another = units := by
  have near := near_of_rounded positive rounded
  have near_other : 2 * |(other : ℚ) / another - units| ≤ spacing units := by linarith
  rw [nearestUnits_eq_iff also]
  rcases log2_of_near also units_pos spaced near_other with same | ⟨power, below⟩
  · rw [spacing_congr same]
    exact ⟨spaced, (within_of_rounded positive rounded).mono nearer⟩
  · generalize units.log2 = exponent at power below
    subst power
    have narrow := spacing_below_two_pow also near_other below
    -- The other place is below the power of two; the gap around the first one is as narrow.
    have narrow_too : spacing (numerator / denominator) = 2 ^ (exponent - 53) := by
      rcases Nat.lt_or_ge (numerator / denominator) (2 ^ exponent) with lower | not_lower
      · exact spacing_below_two_pow positive near lower
      · have other_below := (div_lt_cast also).mpr below
        have above := (cast_le_div positive).mpr not_lower
        obtain reached | at_most | symmetric := side
        · exact absurd reached other_below.not_ge
        · have zero : |(numerator : ℚ) / denominator - (2 ^ exponent : Nat)| = 0 := by
            rw [abs_eq_zero, sub_eq_zero]
            exact le_antisymm at_most above
          rw [zero, abs_nonpos_iff, sub_eq_zero] at nearer
          exact absurd nearer other_below.ne
        · have small : exponent ≤ 52 := by
            by_contra large
            exact symmetric ⟨exponent, by omega, rfl⟩
          exact spacing_of_rounded_small positive small rounded not_lower
    obtain ⟨-, within⟩ := (nearestUnits_eq_iff positive).mp rounded
    rw [narrow_too, ← narrow] at within
    refine ⟨?_, within.mono nearer⟩
    rw [narrow]
    exact Nat.pow_dvd_pow 2 (Nat.sub_le _ 53)

end Magnitude
end Formulary
