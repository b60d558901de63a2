import Formulary.Number.Arithmetic
import Formulary.Proofs.CorrectRounding

/-!
# Sums

A sum of finite numbers is the correct rounding of the exact sum.  So it is exact where the exact
sum is representable, and it is never on the other side of a representable number.
-/

namespace Formulary

attribute [local irreducible] Magnitude.one Magnitude.limit

namespace Magnitude

/-- The count of units, without its sign, is that of a magnitude. -/
def Representable (units : Int) : Prop :=
  ∃ magnitude : Magnitude, magnitude.units = units.natAbs

theorem representable_zero : Representable 0 := ⟨zero, rfl⟩

/-- What is a count of at most 53 binary digits, scaled by a power of two, is representable. -/
theorem representable_of_scaled {units : Int} {count exponent : Nat}
    (scaled : units.natAbs = count * 2 ^ exponent) (few : count ≤ 2 ^ 53)
    (bounded : units.natAbs < limit) : Representable units :=
  ⟨⟨units.natAbs, scaled ▸ spacing_dvd_mul_two_pow exponent few, bounded⟩, rfl⟩

/-- Rounding does not go below a representable count that the place has reached. -/
theorem RoundsTo.le_units {place : ℚ} {units bound : Nat} (rounds : RoundsTo place units)
    (spaced : spacing bound ∣ bound) (reached : bound ≤ place) : bound ≤ units := by
  by_contra below
  have below_cast : (units : ℚ) < bound := by exact_mod_cast Nat.lt_of_not_le below
  have nearest := rounds.nearest bound spaced
  rw [abs_of_nonneg (by linarith), abs_of_nonneg (by linarith)] at nearest
  linarith

end Magnitude

namespace Number

open Magnitude (Representable)

theorem ofUnits_units (negative : Bool) (magnitude : Magnitude) :
    ofUnits negative magnitude.units = .finite negative magnitude :=
  ofQuotient_eq negative magnitude.nearestUnits_units

private theorem signedUnits_neg (negative : Bool) (units : Nat) :
    signedUnits (!negative) units = -signedUnits negative units := by
  cases negative <;> simp [signedUnits]

theorem natAbs_signedUnits (negative : Bool) (units : Nat) :
    (signedUnits negative units).natAbs = units := by
  cases negative <;> simp [signedUnits]

private theorem signedUnits_natAbs (units : Int) :
    signedUnits (decide (units < 0)) units.natAbs = units := by
  rw [signedUnits]
  split <;> rename_i sign <;> rw [decide_eq_true_eq] at sign <;> omega

/-- The number is finite and stands at a count of units. -/
def At (x : Number) (units : Int) : Prop :=
  ∃ negative magnitude, x = .finite negative magnitude ∧
    signedUnits negative magnitude.units = units

theorem finite_at (negative : Bool) (magnitude : Magnitude) :
    (finite negative magnitude).At (signedUnits negative magnitude.units) :=
  ⟨negative, magnitude, rfl, rfl⟩

section Operands

variable {x y : Number} {a b : Int} (first : x.At a) (second : y.At b)

include first

theorem At.place?_eq : x.place? = some a := by
  obtain ⟨negative, magnitude, rfl, rfl⟩ := first
  rfl

theorem At.neg : x.neg.At (-a) := by
  obtain ⟨negative, magnitude, rfl, rfl⟩ := first
  exact ⟨!negative, magnitude, rfl, signedUnits_neg _ _⟩

include second

/--
A sum of finite numbers is the correct rounding of the exact sum, with its sign unless the sum is
zero.
-/
theorem At.add_rounded : ∃ negative,
    Rounded negative ((a + b).natAbs / Magnitude.one) (x.add y) ∧
      (a + b ≠ 0 → (negative ↔ a + b < 0)) := by
  obtain ⟨s, magnitude, rfl, rfl⟩ := first
  obtain ⟨t, other, rfl, rfl⟩ := second
  simp only [add]
  generalize signedUnits s magnitude.units + signedUnits t other.units = sum
  split
  · rename_i zero
    have rounds : Magnitude.RoundsTo (((sum.natAbs : ℚ) / Magnitude.one) * Magnitude.one) 0 := by
      rw [zero]
      exact Magnitude.roundsTo_zero (by simp) (by simp)
    exact ⟨s && t, .finite rounds, fun nonzero => absurd zero nonzero⟩
  · refine ⟨decide (sum < 0), ?_, fun _ => decide_eq_true_iff⟩
    exact Decimal.ofQuotient_rounded _ Nat.one_pos (by
      rw [div_mul_cancel₀ _ Decimal.one_cast_pos.ne', Nat.cast_one, div_one])

/-- A sum of finite numbers is exact if the exact sum is representable. -/
theorem At.add (exact_sum : Representable (a + b)) : (x.add y).At (a + b) := by
  obtain ⟨s, magnitude, rfl, rfl⟩ := first
  obtain ⟨t, other, rfl, rfl⟩ := second
  simp only [Number.add]
  generalize signedUnits s magnitude.units + signedUnits t other.units = sum at exact_sum ⊢
  obtain ⟨total, units⟩ := exact_sum
  split
  · rename_i zero
    rw [zero]
    refine ⟨s && t, .zero, rfl, ?_⟩
    cases s && t <;> rfl
  · rw [ofSignedUnits, ← units, ofUnits_units]
    exact ⟨_, total, rfl, by rw [units, signedUnits_natAbs]⟩

end Operands
end Number
end Formulary
