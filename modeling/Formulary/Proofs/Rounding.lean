import Mathlib.Tactic.Ring
import Mathlib.Tactic.Linarith
import Formulary.Number.Rounding

/-!
# Rounding to the nearest

What a quotient is rounded to depends on its value only.  A representable magnitude is found again
from every quotient that differs from it by less than one part in `2 ^ 54`.
-/

namespace Formulary

section Quotients

variable {numerator denominator other another : Nat}

private theorem roundHalfEven_scale (numerator denominator : Nat) {factor : Nat}
    (positive : 0 < factor) : roundHalfEven (numerator * factor) (denominator * factor) =
      roundHalfEven numerator denominator := by
  have doubled : 2 * (numerator % denominator * factor) = 2 * (numerator % denominator) * factor :=
    (Nat.mul_assoc _ _ _).symm
  simp only [roundHalfEven, Nat.mul_div_mul_right _ _ positive, Nat.mul_mod_mul_right, doubled,
    Nat.mul_lt_mul_right positive]

/-- Equal quotients are rounded equally. -/
theorem roundHalfEven_congr (positive : 0 < denominator) (also : 0 < another)
    (same : numerator * another = other * denominator) :
    roundHalfEven numerator denominator = roundHalfEven other another := by
  rw [← roundHalfEven_scale numerator denominator also, same, Nat.mul_comm denominator,
    roundHalfEven_scale other another positive]

private theorem div_congr (positive : 0 < denominator) (also : 0 < another)
    (same : numerator * another = other * denominator) :
    numerator / denominator = other / another := by
  rw [← Nat.mul_div_mul_right numerator denominator also, same, Nat.mul_comm denominator,
    Nat.mul_div_mul_right other another positive]

/-- The integer that a quotient differs from by less than one half is what it is rounded to. -/
theorem roundHalfEven_eq {nearest : Nat}
    (below : 2 * numerator < 2 * (nearest * denominator) + denominator)
    (above : 2 * (nearest * denominator) < 2 * numerator + denominator) :
    roundHalfEven numerator denominator = nearest := by
  have positive : 0 < denominator := by omega
  have split := Nat.div_add_mod' numerator denominator
  have remainder := Nat.mod_lt numerator positive
  have successor := Nat.add_one_mul (numerator / denominator) denominator
  rcases Nat.lt_trichotomy nearest (numerator / denominator) with less | same | greater
  · have scaled := Nat.mul_le_mul_right denominator less
    rw [Nat.succ_eq_add_one, Nat.add_one_mul nearest denominator] at scaled
    omega
  · rw [same] at below
    rw [roundHalfEven, if_pos (by omega), same]
  · rcases Nat.eq_or_lt_of_le greater with next | beyond
    · rw [← next, Nat.succ_eq_add_one, successor] at above
      rw [roundHalfEven, if_neg (by omega), if_pos (by omega), ← next]
    · have scaled := Nat.mul_le_mul_right denominator beyond
      rw [Nat.succ_eq_add_one, Nat.add_one_mul (numerator / denominator + 1) denominator,
        successor] at scaled
      omega

/-- Rounding moves a quotient by one half at most. -/
theorem roundHalfEven_near (numerator : Nat) (positive : 0 < denominator) :
    2 * numerator ≤ 2 * (roundHalfEven numerator denominator * denominator) + denominator ∧
      2 * (roundHalfEven numerator denominator * denominator) ≤ 2 * numerator + denominator := by
  have split := Nat.div_add_mod' numerator denominator
  have remainder := Nat.mod_lt numerator positive
  have successor := Nat.add_one_mul (numerator / denominator) denominator
  rw [roundHalfEven]
  split
  · omega
  · split
    · rw [successor]
      omega
    · split
      · omega
      · rw [successor]
        omega

end Quotients

namespace Magnitude

theorem spacing_eq (units : Nat) : spacing units = 2 ^ (units.log2 - 52) := rfl

private theorem lt_spacing (units : Nat) : units < 2 ^ 53 * spacing units := by
  rw [spacing_eq, ← pow_add]
  exact Nat.lt_of_lt_of_le Nat.lt_log2_self (Nat.pow_le_pow_right (by decide) (by omega))

theorem spacing_congr {units other : Nat} (same : units.log2 = other.log2) :
    spacing units = spacing other := by
  rw [spacing_eq, spacing_eq, same]

section Nearest

variable {numerator denominator other another units : Nat}

private theorem nearestUnits_congr (positive : 0 < denominator) (also : 0 < another)
    (same : numerator * another = other * denominator) :
    nearestUnits numerator denominator = nearestUnits other another := by
  have floors := div_congr positive also same
  have gap := spacing_pos (other / another)
  rw [nearestUnits, nearestUnits, floors]
  congr 1
  refine roundHalfEven_congr (Nat.mul_pos positive gap) (Nat.mul_pos also gap) ?_
  rw [← Nat.mul_assoc, same, Nat.mul_assoc]

/-- It is enough that the spacing at the quotient divides the magnitude. -/
theorem nearestUnits_of_spacing (divides : spacing (numerator / denominator) ∣ units)
    (significant : units ≤ 2 ^ 53 * spacing (numerator / denominator))
    (low : 2 ^ 54 * (units * denominator) < 2 ^ 54 * numerator + units * denominator)
    (high : 2 ^ 54 * numerator < 2 ^ 54 * (units * denominator) + units * denominator) :
    nearestUnits numerator denominator = units := by
  obtain ⟨count, whole⟩ := divides
  have scaled := Nat.mul_le_mul_right denominator significant
  have product : count * (denominator * spacing (numerator / denominator)) =
      units * denominator := by
    rw [whole]
    ring
  have gap : 2 ^ 53 * spacing (numerator / denominator) * denominator =
      2 ^ 53 * (denominator * spacing (numerator / denominator)) := by
    ring
  have rounded : roundHalfEven numerator
      (denominator * spacing (numerator / denominator)) = count := by
    apply roundHalfEven_eq
    · rw [product]
      omega
    · rw [product]
      omega
  rw [nearestUnits, rounded, whole]
  exact Nat.mul_comm _ _

theorem add_le_of_dvd_of_lt {gap lower upper : Nat} (lower_dvd : gap ∣ lower)
    (upper_dvd : gap ∣ upper) (less : lower < upper) : lower + gap ≤ upper := by
  have between := Nat.le_of_dvd (Nat.sub_pos_of_lt less) (Nat.dvd_sub upper_dvd lower_dvd)
  omega

/-- A quotient that close does not reach a multiple of the spacing above the magnitude. -/
theorem lt_of_close {bound : Nat} (spaced : spacing units ∣ units)
    (some_denominator : 0 < denominator)
    (high : 2 ^ 54 * numerator < 2 ^ 54 * (units * denominator) + units * denominator)
    (bound_dvd : spacing units ∣ bound) (above : units < bound) :
    numerator / denominator < bound := by
  rw [Nat.div_lt_iff_lt_mul some_denominator]
  have step := Nat.mul_le_mul_right denominator (add_le_of_dvd_of_lt spaced bound_dvd above)
  have wide := Nat.mul_lt_mul_of_pos_right (lt_spacing units) some_denominator
  rw [Nat.mul_assoc] at wide
  rw [Nat.add_mul] at step
  omega

/-- Nor does it come below a multiple of the spacing under the magnitude. -/
theorem le_of_close {bound : Nat} (spaced : spacing units ∣ units)
    (some_denominator : 0 < denominator)
    (low : 2 ^ 54 * (units * denominator) < 2 ^ 54 * numerator + units * denominator)
    (bound_dvd : spacing units ∣ bound) (below : bound < units) :
    bound ≤ numerator / denominator := by
  rw [Nat.le_div_iff_mul_le some_denominator]
  have step := Nat.mul_le_mul_right denominator (add_le_of_dvd_of_lt bound_dvd spaced below)
  have wide := Nat.mul_lt_mul_of_pos_right (lt_spacing units) some_denominator
  rw [Nat.mul_assoc] at wide
  rw [Nat.add_mul] at step
  omega

/-- Below a power of two the spacing may be narrower, but it still divides the power. -/
theorem spacing_dvd_below_two_pow {exponent : Nat} (some_denominator : 0 < denominator)
    (low : 2 ^ 54 * (2 ^ exponent * denominator) <
      2 ^ 54 * numerator + 2 ^ exponent * denominator)
    (below : numerator / denominator < 2 ^ exponent) :
    spacing (numerator / denominator) ∣ 2 ^ exponent ∧
      2 ^ exponent ≤ 2 ^ 53 * spacing (numerator / denominator) := by
  cases exponent with
  | zero =>
      rw [Nat.lt_one_iff.mp below]
      decide
  | succ exponent =>
      have not_lower : 2 ^ exponent ≤ numerator / denominator := by
        rw [Nat.le_div_iff_mul_le some_denominator]
        rw [pow_succ 2 exponent, Nat.mul_right_comm (2 ^ exponent)] at low
        omega
      have nonzero : numerator / denominator ≠ 0 :=
        Nat.ne_of_gt (Nat.lt_of_lt_of_le (Nat.two_pow_pos exponent) not_lower)
      have digits := (Nat.log2_eq_iff nonzero).mpr ⟨not_lower, below⟩
      rw [spacing_eq, digits, ← pow_add]
      exact ⟨Nat.pow_dvd_pow 2 (by omega), Nat.pow_le_pow_right (by decide) (by omega)⟩

private theorem spacing_dvd_of_close (positive : 0 < units) (spaced : spacing units ∣ units)
    (some_denominator : 0 < denominator)
    (low : 2 ^ 54 * (units * denominator) < 2 ^ 54 * numerator + units * denominator)
    (high : 2 ^ 54 * numerator < 2 ^ 54 * (units * denominator) + units * denominator) :
    spacing (numerator / denominator) ∣ units ∧
      units ≤ 2 ^ 53 * spacing (numerator / denominator) := by
  have lower := Nat.log2_self_le (Nat.ne_of_gt positive)
  have gap_dvd : spacing units ∣ 2 ^ units.log2 := Nat.pow_dvd_pow 2 (Nat.sub_le _ _)
  have gap_dvd_next : spacing units ∣ 2 ^ (units.log2 + 1) :=
    Nat.dvd_trans gap_dvd (Nat.pow_dvd_pow 2 (Nat.le_succ _))
  have under := lt_of_close spaced some_denominator high gap_dvd_next Nat.lt_log2_self
  rcases Nat.lt_or_ge (numerator / denominator) (2 ^ units.log2) with below | above
  · have power : units = 2 ^ units.log2 := by
      rcases Nat.eq_or_lt_of_le lower with same | greater
      · exact same.symm
      · have above := le_of_close spaced some_denominator low gap_dvd greater
        omega
    rw [power] at low
    have narrow := spacing_dvd_below_two_pow some_denominator low below
    rwa [← power] at narrow
  · have nonzero : numerator / denominator ≠ 0 :=
      Nat.ne_of_gt (Nat.lt_of_lt_of_le (Nat.two_pow_pos _) above)
    rw [spacing_congr ((Nat.log2_eq_iff nonzero).mpr ⟨above, under⟩)]
    exact ⟨spaced, Nat.le_of_lt (lt_spacing units)⟩

/-- A quotient that close is rounded to the magnitude. -/
theorem nearestUnits_eq (positive : 0 < units) (spaced : spacing units ∣ units)
    (some_denominator : 0 < denominator)
    (low : 2 ^ 54 * (units * denominator) < 2 ^ 54 * numerator + units * denominator)
    (high : 2 ^ 54 * numerator < 2 ^ 54 * (units * denominator) + units * denominator) :
    nearestUnits numerator denominator = units := by
  obtain ⟨divides, significant⟩ :=
    spacing_dvd_of_close positive spaced some_denominator low high
  exact nearestUnits_of_spacing divides significant low high

/-- A magnitude is found again from its units. -/
theorem nearestUnits_units (magnitude : Magnitude) :
    nearestUnits magnitude.units 1 = magnitude.units := by
  rcases Nat.eq_zero_or_pos magnitude.units with none | positive
  · rw [none]
    rfl
  · exact nearestUnits_eq positive magnitude.spaced Nat.one_pos (by omega) (by omega)

attribute [local irreducible] limit

private theorem nearest?_eq_some {magnitude : Magnitude}
    (nearest : nearestUnits numerator denominator = magnitude.units) :
    nearest? numerator denominator = some magnitude := by
  have bounded : nearestUnits numerator denominator < limit := nearest ▸ magnitude.bounded
  unfold nearest?
  split
  · congr 1
    cases magnitude
    congr 1
  · contradiction

theorem nearest?_eq_none (above : ¬ nearestUnits numerator denominator < limit) :
    nearest? numerator denominator = none := by
  unfold nearest?
  split
  · contradiction
  · rfl

end Nearest
end Magnitude

namespace Number

variable {numerator denominator other another : Nat}

theorem ofQuotient_eq (negative : Bool) {magnitude : Magnitude}
    (nearest : Magnitude.nearestUnits numerator denominator = magnitude.units) :
    ofQuotient negative numerator denominator = .finite negative magnitude := by
  unfold ofQuotient
  rw [Magnitude.nearest?_eq_some nearest]

theorem ofQuotient_congr (negative : Bool) (positive : 0 < denominator) (also : 0 < another)
    (same : numerator * another = other * denominator) :
    ofQuotient negative numerator denominator = ofQuotient negative other another := by
  have nearest := Magnitude.nearestUnits_congr positive also same
  by_cases below : Magnitude.nearestUnits numerator denominator < Magnitude.limit
  · have magnitude : ∃ magnitude : Magnitude,
        Magnitude.nearestUnits numerator denominator = magnitude.units :=
      ⟨⟨_, Magnitude.spacing_dvd_nearestUnits _ _, below⟩, rfl⟩
    obtain ⟨magnitude, units⟩ := magnitude
    rw [ofQuotient_eq negative units, ofQuotient_eq negative (nearest.symm.trans units)]
  · unfold ofQuotient
    rw [Magnitude.nearest?_eq_none below, Magnitude.nearest?_eq_none (nearest ▸ below)]

end Number
end Formulary
