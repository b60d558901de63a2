import Mathlib.Algebra.Order.Floor.Ring
import Mathlib.Data.Rat.Floor
import Formulary.Number.Bits
import Formulary.Proofs.Extrema
import Formulary.Proofs.Naturals
import Formulary.Proofs.Sums

/-!
# Rounding half up

The integer nearest to a number is found by comparing what the number exceeds its floor by with one
half.  This excess may have been rounded, but not across one half: below it the excess is
representable, and so the comparison comes out as for the exact numbers.  The integer above is only
taken of numbers that are no integers, and these are small enough for it to be representable.
-/

namespace Formulary

attribute [local irreducible] Magnitude.one Magnitude.limit

namespace Magnitude

private theorem int_one_pos : (0 : Int) < one :=
  Int.natCast_pos.mpr one_pos

/-- Magnitudes from `2 ^ 53` upwards are integers. -/
theorem small_or_integral (magnitude : Magnitude) :
    magnitude.units < 2 ^ 53 * one ∨ one ∣ magnitude.units := by
  refine or_iff_not_imp_left.mpr fun large => ?_
  obtain ⟨exponent, power⟩ := one_eq_two_pow
  rw [power] at large ⊢
  simp only [Nat.pow_eq] at large ⊢
  rw [← pow_add, Nat.not_lt] at large
  have nonzero : magnitude.units ≠ 0 :=
    Nat.ne_of_gt (Nat.lt_of_lt_of_le (Nat.two_pow_pos _) large)
  have digits := (Nat.le_log2 nonzero).mpr large
  refine Nat.dvd_trans ?_ magnitude.spaced
  exact Nat.pow_dvd_pow 2 (by omega)

/-- From one half upwards, as far as the numbers are no integers, one is few gaps wide. -/
theorem one_of_gaps {units : Nat} (large : one ≤ 2 * units) (small : units < 2 ^ 53 * one) :
    spacing units ∣ one ∧ one ≤ 2 ^ 53 * spacing units := by
  obtain ⟨exponent, power⟩ := one_eq_two_pow
  have nonzero : units ≠ 0 := by
    have := one_pos
    omega
  rw [power] at large small ⊢
  simp only [Nat.pow_eq] at large small ⊢
  rw [← pow_add, ← Nat.log2_lt nonzero] at small
  have top : 2 * units < 2 ^ (units.log2 + 2) := by
    have digits := Nat.lt_log2_self (n := units)
    rw [pow_succ]
    omega
  have digits := (Nat.pow_lt_pow_iff_right (by decide)).mp (Nat.lt_of_le_of_lt large top)
  rw [spacing_eq, ← pow_add]
  exact ⟨Nat.pow_dvd_pow 2 (by omega), Nat.pow_le_pow_right (by decide) (by omega)⟩

private theorem representable_natural {n : Int} (small : n.natAbs ≤ 2 ^ 53) :
    Representable (n * one) :=
  ⟨ofSmall n.natAbs small, by rw [Int.natAbs_mul, Int.natAbs_natCast]; rfl⟩

end Magnitude

namespace Number

open Magnitude (Representable)

variable {x : Number} {place : Int}

private theorem neg_ediv_eq (units : Nat) {one : Nat} (positive : 0 < one) :
    -(units : Int) / one = -((units + (one - 1)) / one : Nat) := by
  have low := Nat.div_mul_le_self (units + (one - 1)) one
  have high := Nat.lt_div_mul_add (a := units + (one - 1)) positive
  generalize (units + (one - 1)) / one = quotient at low high ⊢
  have product : ((quotient * one : Nat) : Int) = quotient * one := Nat.cast_mul _ _
  have division : ((quotient * one : Nat) : Int) - units + one * -(quotient : Int) = -units := by
    rw [product]
    ring
  exact ((Int.ediv_emod_unique (Int.natCast_pos.mpr positive)).mpr
    ⟨division, by omega, by omega⟩).1

/-- An integer next to a magnitude is representable. -/
theorem ofUnits_whole (negative : Bool) (magnitude : Magnitude) {count : Nat}
    (close : count * Magnitude.one < magnitude.units + Magnitude.one)
    (integral : Magnitude.one ∣ magnitude.units → count * Magnitude.one = magnitude.units) :
    (ofUnits negative (count * Magnitude.one)).At
      (signedUnits negative (count * Magnitude.one)) := by
  have representable : ∃ whole : Magnitude, whole.units = count * Magnitude.one := by
    rcases magnitude.small_or_integral with small | multiple
    · have less : count * Magnitude.one < (2 ^ 53 + 1) * Magnitude.one := by omega
      exact ⟨.ofSmall count (Nat.le_of_lt_succ (Nat.lt_of_mul_lt_mul_right less)), rfl⟩
    · exact ⟨magnitude, (integral multiple).symm⟩
  obtain ⟨whole, units⟩ := representable
  rw [← units, ofUnits_units]
  exact finite_at negative whole

/-- The floor of a finite number is exact. -/
theorem At.floor (stands : x.At place) : x.floor.At (place / Magnitude.one * Magnitude.one) := by
  obtain ⟨negative, magnitude, rfl, rfl⟩ := stands
  have one_pos := Magnitude.one_pos
  cases negative with
  | false =>
      have low := Nat.div_mul_le_self magnitude.units Magnitude.one
      have stands := ofUnits_whole false magnitude
        (Nat.lt_of_le_of_lt low (Nat.lt_add_of_pos_right one_pos)) Nat.div_mul_cancel
      exact stands
  | true =>
      have low := Nat.div_mul_le_self (magnitude.units + (Magnitude.one - 1)) Magnitude.one
      have integral : Magnitude.one ∣ magnitude.units →
          (magnitude.units + (Magnitude.one - 1)) / Magnitude.one * Magnitude.one =
            magnitude.units := by
        rintro ⟨count, units⟩
        rw [units, Nat.mul_add_div one_pos, Nat.div_eq_of_lt (by omega), Nat.add_zero, Nat.mul_comm]
      have stands := ofUnits_whole true magnitude (by omega) integral
      have place : signedUnits true magnitude.units / Magnitude.one * Magnitude.one =
          signedUnits true
            ((magnitude.units + (Magnitude.one - 1)) / Magnitude.one * Magnitude.one) := by
        rw [signedUnits, signedUnits, if_pos rfl, if_pos rfl, neg_ediv_eq _ one_pos, Nat.cast_mul,
          Int.neg_mul]
      rw [place]
      exact stands

/-- Below one half the excess of a number over its floor is representable. -/
theorem At.representable_excess (stands : x.At place)
    (low : 2 * (place % Magnitude.one) < Magnitude.one) :
    Representable (place % Magnitude.one) := by
  have one_pos := Magnitude.int_one_pos
  have below_limit := Magnitude.mul_one_lt_limit (n := 1) (by decide)
  have nonnegative := Int.emod_nonneg place one_pos.ne'
  obtain ⟨negative, magnitude, rfl, units⟩ := stands
  have size : magnitude.units = place.natAbs := by rw [← units, natAbs_signedUnits]
  rcases magnitude.small_or_integral with small | multiple
  · rcases Nat.lt_or_ge (2 * magnitude.units) Magnitude.one with less | large
    · -- A number between zero and one half is its own excess, and one below zero has a larger one.
      rcases Int.lt_or_le place 0 with below | above
      · have excess : place % Magnitude.one = place + Magnitude.one := by
          rw [← Int.add_emod_right, Int.emod_eq_of_lt (by omega) (by omega)]
        omega
      · rw [Int.emod_eq_of_lt above (by omega)]
        exact ⟨magnitude, size⟩
    · obtain ⟨gap_dvd, few⟩ := Magnitude.one_of_gaps large small
      have place_dvd : (Magnitude.spacing magnitude.units : Int) ∣ place :=
        Int.natCast_dvd.mpr (size ▸ magnitude.spaced)
      have excess_dvd : (Magnitude.spacing magnitude.units : Int) ∣ place % Magnitude.one := by
        rw [Int.emod_def]
        exact dvd_sub place_dvd (Dvd.dvd.mul_right (Int.natCast_dvd_natCast.mpr gap_dvd) _)
      obtain ⟨count, scaled⟩ := Int.natCast_dvd.mp excess_dvd
      rw [Nat.mul_comm] at scaled
      have below : count * Magnitude.spacing magnitude.units <
          2 ^ 53 * Magnitude.spacing magnitude.units := by omega
      exact Magnitude.representable_of_scaled scaled
        (Nat.le_of_lt (Nat.lt_of_mul_lt_mul_right below)) (by omega)
  · have none : place % Magnitude.one = 0 :=
      Int.emod_eq_zero_of_dvd (Int.natCast_dvd.mpr (size ▸ multiple))
    rw [none]
    exact Magnitude.representable_zero

/-- One half is half of one. -/
theorem half_eq : ∃ middle : Magnitude, half = .finite false middle ∧
    2 * middle.units = Magnitude.one := by
  have spaced : Magnitude.spacing (2 ^ 1073) ∣ 2 ^ 1073 := by decide +kernel
  have bounded : 2 ^ 1073 < Magnitude.limit := by decide +kernel
  have nearest : Magnitude.nearestUnits Magnitude.one 2 = 2 ^ 1073 := by decide +kernel
  have doubled : 2 * 2 ^ 1073 = Magnitude.one := by decide +kernel
  exact ⟨⟨2 ^ 1073, spaced, bounded⟩, ofQuotient_eq false nearest, doubled⟩

/-- The excess is found to be one half at least exactly if it is, although it may be rounded. -/
theorem At.half_atMost_excess (stands : x.At place) :
    half.atMost (x.sub x.floor) ↔ Magnitude.one ≤ 2 * (place % Magnitude.one) := by
  have one_pos := Magnitude.int_one_pos
  have excess : place + -(place / Magnitude.one * Magnitude.one) = place % Magnitude.one := by
    rw [Int.emod_def, Int.mul_comm]
    rfl
  obtain ⟨middle, half_eq, halves⟩ := half_eq
  have half_place : half.place? = some (middle.units : Int) := by
    rw [half_eq]
    rfl
  constructor
  · intro found
    by_contra low
    have exact_excess := stands.add stands.floor.neg
      (excess ▸ stands.representable_excess (Int.not_le.mp low))
    rw [excess] at exact_excess
    have below := (atMost_of_place half_place exact_excess.place?_eq).mp found
    omega
  · intro reached
    obtain ⟨negative, rounded, sign⟩ := stands.add_rounded stands.floor.neg
    rw [excess] at rounded sign
    have not_negative : negative = false := by
      rw [← Bool.not_eq_true, sign (by omega)]
      omega
    subst not_negative
    show half.atMost (x.add x.floor.neg)
    generalize x.add x.floor.neg = difference at rounded
    cases rounded with
    | @finite magnitude rounds =>
        rw [div_mul_cancel₀ _ Decimal.one_cast_pos.ne'] at rounds
        have enough : middle.units ≤ (place % Magnitude.one).natAbs := by omega
        have not_below := rounds.le_units middle.spaced (by exact_mod_cast enough)
        exact (atMost_of_place half_place rfl).mpr (Int.ofNat_le.mpr not_below)
    | infinite =>
        exact (atMost_of_place half_place rfl).mpr (Int.ofNat_le.mpr middle.bounded.le)

/-- A number that is no integer lies between representable integers. -/
theorem At.representable_next (stands : x.At place) (fractional : place % Magnitude.one ≠ 0) :
    Representable ((place / Magnitude.one + 1) * Magnitude.one) := by
  have one_pos := Magnitude.int_one_pos
  obtain ⟨negative, magnitude, rfl, units⟩ := stands
  have size : magnitude.units = place.natAbs := by rw [← units, natAbs_signedUnits]
  have not_integral : ¬ Magnitude.one ∣ magnitude.units := fun multiple =>
    fractional (Int.emod_eq_zero_of_dvd (Int.natCast_dvd.mpr (size ▸ multiple)))
  have small := magnitude.small_or_integral.resolve_right not_integral
  have low : -2 ^ 53 ≤ place / Magnitude.one := by
    rw [Int.le_ediv_iff_mul_le one_pos]
    omega
  have high : place / Magnitude.one < 2 ^ 53 := by
    rw [Int.ediv_lt_iff_lt_mul one_pos]
    omega
  exact Magnitude.representable_natural (by omega)

/-- What a finite number is rounded to is its floor or the next integer. -/
theorem At.round (stands : x.At place) :
    x.round.At ((place / Magnitude.one +
      if Magnitude.one ≤ 2 * (place % Magnitude.one) then 1 else 0) * Magnitude.one) := by
  have one_pos := Magnitude.int_one_pos
  have finite : x.isFinite := by
    obtain ⟨negative, magnitude, rfl, -⟩ := stands
    rfl
  have one_stands : (ofNat 1).At Magnitude.one := by
    rw [ofNat_eq_finite (by decide)]
    exact ⟨false, _, rfl, congrArg Nat.cast (Nat.one_mul Magnitude.one)⟩
  have found := stands.half_atMost_excess
  rw [Number.round, if_pos finite]
  dsimp only
  split
  · rename_i up
    have reached := found.mp up
    have next := stands.representable_next (by omega)
    rw [Int.add_mul, Int.one_mul] at next
    rw [if_pos reached, Int.add_mul, Int.one_mul]
    exact stands.floor.add one_stands next
  · rename_i not_up
    rw [if_neg (not_up <| found.mpr ·), Int.add_zero]
    exact stands.floor

/-- The rational number that a finite number is. -/
def value? : Number → Option ℚ
  | finite negative magnitude =>
      some (signedUnits negative magnitude.units / Magnitude.one)
  | _ => none

private theorem At.value?_eq (stands : x.At place) :
    x.value? = some ((place : ℚ) / Magnitude.one) := by
  obtain ⟨negative, magnitude, rfl, rfl⟩ := stands
  rfl

/-- The exact sum with one half has the floor that the comparison with one half leads to. -/
theorem floor_add_half (place : Int) :
    ⌊(place : ℚ) / Magnitude.one + 1 / 2⌋ = place / Magnitude.one +
      if Magnitude.one ≤ 2 * (place % Magnitude.one) then 1 else 0 := by
  have one_pos := Decimal.one_cast_pos
  have nonnegative : (0 : ℚ) ≤ (place % Magnitude.one : Int) := by
    exact_mod_cast Int.emod_nonneg place Magnitude.int_one_pos.ne'
  have below : ((place % Magnitude.one : Int) : ℚ) < Magnitude.one := by
    exact_mod_cast Int.emod_lt_of_pos place Magnitude.int_one_pos
  have split : (place : ℚ) / Magnitude.one =
      (place / Magnitude.one : Int) + ((place % Magnitude.one : Int) : ℚ) / Magnitude.one := by
    rw [div_eq_iff one_pos.ne', add_mul, div_mul_cancel₀ _ one_pos.ne']
    exact_mod_cast (Int.ediv_mul_add_emod place Magnitude.one).symm
  have low := div_nonneg nonnegative one_pos.le
  have high := (div_lt_one one_pos).mpr below
  rw [Int.floor_eq_iff, split]
  split
  · rename_i reached
    have reached : (1 : ℚ) / 2 ≤ ((place % Magnitude.one : Int) : ℚ) / Magnitude.one := by
      rw [div_le_div_iff₀ two_pos one_pos, one_mul, mul_comm]
      exact_mod_cast reached
    push_cast
    constructor <;> linarith
  · rename_i not_reached
    have less : ((place % Magnitude.one : Int) : ℚ) / Magnitude.one < 1 / 2 := by
      rw [div_lt_div_iff₀ one_pos two_pos, one_mul, mul_comm]
      exact_mod_cast Int.not_le.mp not_reached
    push_cast
    constructor <;> linarith

end Number

namespace Builtin

open Number (signedUnits)

/--
A finite number is rounded to the greatest integer that does not exceed its sum with one half, both
taken as rational numbers.
-/
theorem round_half_up (negative : Bool) (magnitude : Magnitude) (others : List Value) :
    ∃ result, round.apply (.number (.finite negative magnitude) :: others) = .number result ∧
      result.value? = some
        ((⌊(signedUnits negative magnitude.units : ℚ) / Magnitude.one + 1 / 2⌋ : Int) : ℚ) := by
  refine ⟨(Number.finite negative magnitude).round, rfl, ?_⟩
  rw [(Number.finite_at negative magnitude).round.value?_eq, Number.floor_add_half]
  push_cast
  rw [mul_div_cancel_right₀ _ Decimal.one_cast_pos.ne']

/-- The greatest number below one half is rounded down, although its sum with one half is one. -/
example :
    (Number.ofBits 0x3FDFFFFFFFFFFFFF).round = .zero ∧
      (Number.ofBits 0x3FDFFFFFFFFFFFFF).add .half = .ofNat 1 := by decide +kernel

end Builtin
end Formulary
