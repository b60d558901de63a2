import Formulary.Number.Basic

/-!
# Rounding

Every result that is not exact is rounded once, to the nearest representable number.  A result
halfway between two neighbours goes to the one whose last binary digit is zero, and a result that
rounds to `2 ^ 1024` or more is infinite.
-/

namespace Formulary

/-- The integer nearest to a quotient; a half goes to the even neighbour. -/
def roundHalfEven (numerator denominator : Nat) : Nat :=
  let floor := numerator / denominator
  let remainder := numerator % denominator
  if 2 * remainder < denominator then floor
  else if denominator < 2 * remainder then floor + 1
  else if floor % 2 = 0 then floor
  else floor + 1

theorem roundHalfEven_le_succ_div (numerator denominator : Nat) :
    roundHalfEven numerator denominator ≤ numerator / denominator + 1 := by
  simp only [roundHalfEven]
  repeat' split
  all_goals omega

namespace Magnitude

/-- A count of at most 53 binary digits, scaled by a power of two, is representable. -/
theorem spacing_dvd_mul_two_pow {count : Nat} (exponent : Nat) (small : count ≤ Nat.pow 2 53) :
    spacing (count * Nat.pow 2 exponent) ∣ count * Nat.pow 2 exponent := by
  unfold spacing
  simp only [Nat.pow_eq] at small ⊢
  by_cases zero : count = 0
  · simp [zero]
  have positive := Nat.mul_ne_zero zero (Nat.ne_of_gt (Nat.two_pow_pos exponent))
  rcases Nat.lt_or_eq_of_le small with below | rfl
  · have digits := (Nat.log2_lt positive (k := 53 + exponent)).mpr <| by
      rw [Nat.pow_add]
      exact Nat.mul_lt_mul_of_pos_right below (Nat.two_pow_pos exponent)
    exact Nat.dvd_trans (Nat.pow_dvd_pow 2 (by omega)) (Nat.dvd_mul_left _ _)
  · rw [← Nat.pow_add]
    exact Nat.pow_dvd_pow 2 (by rw [Nat.log2_two_pow]; omega)

/-- The units of the representable magnitude nearest to a quotient of units. -/
def nearestUnits (numerator denominator : Nat) : Nat :=
  let gap := spacing (numerator / denominator)
  roundHalfEven numerator (denominator * gap) * gap

theorem spacing_dvd_nearestUnits (numerator denominator : Nat) :
    spacing (nearestUnits numerator denominator) ∣ nearestUnits numerator denominator := by
  apply spacing_dvd_mul_two_pow
  have rounded := roundHalfEven_le_succ_div numerator
    (denominator * spacing (numerator / denominator))
  rw [← Nat.div_div_eq_div_mul] at rounded
  have digits : numerator / denominator < Nat.pow 2 53 * spacing (numerator / denominator) := by
    unfold spacing
    simp only [Nat.pow_eq]
    rw [← Nat.pow_add]
    exact Nat.lt_of_lt_of_le Nat.lt_log2_self (Nat.pow_le_pow_right (by decide) (by omega))
  have below := Nat.div_lt_of_lt_mul (Nat.mul_comm _ _ ▸ digits)
  unfold spacing at rounded below ⊢
  omega

/-- The representable magnitude nearest to a quotient of units, unless that is past the limit. -/
def nearest? (numerator denominator : Nat) : Option Magnitude :=
  if bounded : nearestUnits numerator denominator < limit then
    some ⟨nearestUnits numerator denominator, spacing_dvd_nearestUnits _ _, bounded⟩
  else
    none

end Magnitude

namespace Number

/-- The number nearest to a quotient of units, with a sign. -/
def ofQuotient (negative : Bool) (numerator denominator : Nat) : Number :=
  match Magnitude.nearest? numerator denominator with
  | some magnitude => .finite negative magnitude
  | none => .infinite negative

/-- The number nearest to a count of units. -/
def ofUnits (negative : Bool) (units : Nat) : Number :=
  ofQuotient negative units 1

/-- The number nearest to a natural number. -/
def ofNat (n : Nat) : Number :=
  ofUnits false (n * Magnitude.one)

/-- One half. -/
def half : Number :=
  ofQuotient false Magnitude.one 2

end Number
end Formulary
