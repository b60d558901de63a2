import Formulary.Proofs.NumberCoercion
import Formulary.Proofs.RoundingInterval

/-!
# The shortest text of a number

At every count of digits one decimal is nearest to a magnitude, and the text of a number shows the
first of them that reads back.  Whatever has fewer digits and reads back as well lies above a power
of two, and the nearest decimal of its length lies below, where the gap is half as wide.
-/

namespace Formulary
namespace Decimal

variable {magnitude : Magnitude} {decimal other : Decimal}

private theorem nearestUnits_of_toNumber (positive : 0 < magnitude.units)
    (denotes : decimal.toNumber false = .finite false magnitude) :
    Magnitude.nearestUnits decimal.quotient.1 decimal.quotient.2 = magnitude.units := by
  unfold toNumber at denotes
  split at denotes
  · cases denotes
    exact absurd positive (Nat.lt_irrefl 0)
  · split at denotes
    · cases denotes
    · unfold Number.ofQuotient Magnitude.nearest? at denotes
      dsimp only at denotes
      split at denotes
      · rename_i rounded
        split at rounded
        · cases denotes
          cases rounded
          rfl
        · cases rounded
      · cases denotes

theorem near_of_toNumber (positive : 0 < magnitude.units)
    (denotes : decimal.toNumber false = .finite false magnitude) :
    2 * |decimal.value * Magnitude.one - magnitude.units| ≤ Magnitude.spacing magnitude.units := by
  rw [← quotient_value]
  exact Magnitude.near_of_rounded (quotient_pos decimal) (nearestUnits_of_toNumber positive denotes)

/-- What is no further away than a decimal that denotes a magnitude mostly denotes it as well. -/
theorem toNumber_of_nearer (positive : 0 < magnitude.units)
    (denotes : decimal.toNumber false = .finite false magnitude)
    (nearer : |other.value * Magnitude.one - magnitude.units| ≤
      |decimal.value * Magnitude.one - magnitude.units|)
    (side : (magnitude.units : ℚ) ≤ other.value * Magnitude.one ∨
      decimal.value * Magnitude.one ≤ magnitude.units ∨ ¬ Magnitude.Lopsided magnitude.units) :
    other.toNumber false = .finite false magnitude := by
  have near := near_of_toNumber positive denotes
  have narrow : (Magnitude.spacing magnitude.units : ℚ) ≤ magnitude.units := by
    exact_mod_cast Nat.le_of_dvd positive magnitude.spaced
  have rounded := nearestUnits_of_toNumber positive denotes
  refine toNumber_of_near positive (by linarith) false ?_
  rw [← quotient_value, ← quotient_value] at nearer side
  exact Magnitude.nearestUnits_of_nearer positive magnitude.spaced (quotient_pos decimal)
    (quotient_pos other) rounded nearer side

/-- The distance between neighbouring decimals of a count of digits, in units. -/
def step (magnitude : Magnitude) (digits : Nat) : ℚ :=
  10 ^ (leadingExponent magnitude - digits + 1) * Magnitude.one

theorem step_pos (magnitude : Magnitude) (digits : Nat) : 0 < step magnitude digits :=
  mul_pos (zpow_pos (by norm_num) _) one_cast_pos

theorem pow_mul_step {digits count : Nat} {place : Int}
    (same : leadingExponent magnitude - digits + 1 + count = place) :
    10 ^ count * step magnitude digits = 10 ^ place * Magnitude.one := by
  rw [step, ← mul_assoc, ← same, zpow_add₀ (by norm_num) _ (count : Int), zpow_natCast,
    mul_comm ((10 : ℚ) ^ count)]

private theorem step_succ (magnitude : Magnitude) (digits : Nat) :
    10 * step magnitude (digits + 1) = step magnitude digits := by
  have place : leadingExponent magnitude - (digits + 1 : Nat) + 1 + (1 : Nat) =
      leadingExponent magnitude - digits + 1 := by
    omega
  have shifted := pow_mul_step place
  rwa [pow_one] at shifted

/-- A decimal of so many digits is on the grid, or else below the leading power of ten. -/
theorem on_grid_or_below (magnitude : Magnitude) {digits : Nat}
    (fits : decimal.coefficient < 10 ^ digits) :
    (∃ count : Nat, decimal.value * Magnitude.one = count * step magnitude digits) ∨
      decimal.value * Magnitude.one < 10 ^ leadingExponent magnitude * Magnitude.one := by
  rcases le_or_gt (leadingExponent magnitude - digits + 1) decimal.exponent with coarse | fine
  · left
    obtain ⟨count, above⟩ := Int.le.dest coarse
    refine ⟨decimal.coefficient * 10 ^ count, ?_⟩
    rw [value, Nat.cast_mul, Nat.cast_pow, Nat.cast_ofNat, mul_assoc, mul_assoc,
      pow_mul_step above]
  · right
    have digits_lt : (decimal.coefficient : ℚ) < 10 ^ digits := by exact_mod_cast fits
    have power : (0 : ℚ) < 10 ^ decimal.exponent := zpow_pos (by norm_num) _
    refine mul_lt_mul_of_pos_right ?_ one_cast_pos
    calc decimal.value
        < 10 ^ digits * (10 : ℚ) ^ decimal.exponent := mul_lt_mul_of_pos_right digits_lt power
      _ = (10 : ℚ) ^ (digits + decimal.exponent) := by
          rw [zpow_add₀ (by norm_num), zpow_natCast]
      _ ≤ 10 ^ leadingExponent magnitude := zpow_le_zpow_right₀ (by norm_num) (by omega)

section Approximation

variable {digits : Nat} (some_digit : 0 < digits)

include some_digit

theorem approximate_step (magnitude : Magnitude) :
    (approximate magnitude digits).value * Magnitude.one =
      scaleToNat magnitude (leadingExponent magnitude - digits + 1) * step magnitude digits := by
  rw [approximate_value magnitude some_digit, step, mul_assoc]

theorem approximate_within (magnitude : Magnitude) :
    |(approximate magnitude digits).value * Magnitude.one - magnitude.units| ≤
      step magnitude digits / 2 :=
  approximate_near magnitude some_digit

/-- On the grid nothing is nearer to the magnitude than its approximation. -/
theorem approximate_nearest_on_grid (magnitude : Magnitude) (count : Nat) :
    |(approximate magnitude digits).value * Magnitude.one - magnitude.units| ≤
      |count * step magnitude digits - magnitude.units| := by
  have within := approximate_within some_digit magnitude
  have width := step_pos magnitude digits
  rw [approximate_step some_digit] at within ⊢
  generalize scaleToNat magnitude (leadingExponent magnitude - digits + 1) = nearest at within ⊢
  obtain ⟨low, high⟩ := abs_le.mp within
  rcases Nat.lt_trichotomy count nearest with below | rfl | above
  · have apart : ((count : ℚ) + 1) * step magnitude digits ≤ nearest * step magnitude digits :=
      mul_le_mul_of_nonneg_right (by exact_mod_cast below) width.le
    have reached := neg_abs_le (count * step magnitude digits - (magnitude.units : ℚ))
    linarith
  · exact le_rfl
  · have apart : ((nearest : ℚ) + 1) * step magnitude digits ≤ count * step magnitude digits :=
      mul_le_mul_of_nonneg_right (by exact_mod_cast above) width.le
    have reached := le_abs_self (count * step magnitude digits - (magnitude.units : ℚ))
    linarith

/-- No decimal of so many digits is nearer to a magnitude than its approximation. -/
theorem approximate_nearest (positive : 0 < magnitude.units)
    (fits : decimal.coefficient < 10 ^ digits) :
    |(approximate magnitude digits).value * Magnitude.one - magnitude.units| ≤
      |decimal.value * Magnitude.one - magnitude.units| := by
  obtain ⟨count, on_grid⟩ | below := on_grid_or_below magnitude fits
  · rw [on_grid]
    exact approximate_nearest_on_grid some_digit magnitude count
  · -- The leading power of ten is on the grid, between the decimal and the magnitude.
    have leading := leadingExponent_le positive
    have bottom : ((10 ^ (digits - 1) : Nat) : ℚ) * step magnitude digits =
        10 ^ leadingExponent magnitude * Magnitude.one := by
      rw [Nat.cast_pow, Nat.cast_ofNat]
      exact pow_mul_step (by omega)
    have nearest := approximate_nearest_on_grid some_digit magnitude (10 ^ (digits - 1))
    rw [bottom, abs_of_nonpos (sub_nonpos.mpr leading)] at nearest
    have reached := neg_abs_le (decimal.value * Magnitude.one - magnitude.units)
    linarith

theorem approximate_fits (positive : 0 < magnitude.units) :
    (approximate magnitude digits).coefficient < 10 ^ digits := by
  have width := step_pos magnitude digits
  have within := approximate_within some_digit magnitude
  have below := lt_leadingExponent positive
  have top : (10 : ℚ) ^ digits * step magnitude digits =
      10 ^ (leadingExponent magnitude + 1) * Magnitude.one :=
    pow_mul_step (by omega)
  rw [approximate_step some_digit, abs_le] at within
  have reached : (scaleToNat magnitude (leadingExponent magnitude - digits + 1) : ℚ) *
      step magnitude digits < (10 ^ digits + 1) * step magnitude digits := by
    linarith [within.2]
  have bounded : scaleToNat magnitude (leadingExponent magnitude - digits + 1) <
      10 ^ digits + 1 := by
    exact_mod_cast lt_of_mul_lt_mul_right reached width.le
  unfold approximate
  simp only [Nat.pow_eq]
  generalize scaleToNat magnitude (leadingExponent magnitude - digits + 1) = nearest at bounded ⊢
  split
  · exact Nat.pow_lt_pow_right (by decide) (Nat.sub_lt some_digit Nat.one_pos)
  · rename_i not_carried
    exact Nat.lt_of_le_of_ne (Nat.le_of_lt_succ bounded) not_carried

end Approximation

theorem shortestFrom_first (magnitude : Magnitude) {more digits : Nat}
    (enough : digits + more = 17) :
    ∃ count, digits ≤ count ∧ count ≤ 17 ∧
      shortestFrom magnitude more digits = approximate magnitude count ∧
      ∀ fewer, digits ≤ fewer → fewer < count →
        (approximate magnitude fewer).toNumber false ≠ .finite false magnitude := by
  induction more generalizing digits with
  | zero => exact ⟨digits, le_rfl, by omega, rfl, fun fewer _ _ => by omega⟩
  | succ more induction =>
      rw [shortestFrom]
      split
      · exact ⟨digits, le_rfl, by omega, rfl, fun fewer _ _ => by omega⟩
      · rename_i unread
        have later : digits + 1 + more = 17 := by omega
        obtain ⟨count, low, high, same, first⟩ := induction later
        refine ⟨count, by omega, high, same, fun fewer above below => ?_⟩
        rcases Nat.eq_or_lt_of_le above with rfl | beyond
        · simpa [readsBack] using unread
        · exact first fewer beyond below

/-- Between the approximation and another decimal of as many digits lies a step of the grid. -/
theorem step_le_of_between (positive : 0 < magnitude.units) {digits : Nat} (some_digit : 0 < digits)
    (fits : decimal.coefficient < 10 ^ digits)
    (below : (approximate magnitude digits).value * Magnitude.one < magnitude.units)
    (above : magnitude.units < decimal.value * Magnitude.one) :
    step magnitude digits ≤ decimal.value * Magnitude.one -
      (approximate magnitude digits).value * Magnitude.one := by
  have width := step_pos magnitude digits
  obtain ⟨count, on_grid⟩ | lower := on_grid_or_below magnitude fits
  · have less := below.trans above
    rw [on_grid, approximate_step some_digit] at less ⊢
    have counts := lt_of_mul_lt_mul_right less width.le
    have next : (scaleToNat magnitude (leadingExponent magnitude - digits + 1) : ℚ) + 1 ≤
        count := by
      exact_mod_cast counts
    have scaled := mul_le_mul_of_nonneg_right next width.le
    linarith
  · exact absurd (lower.trans_le (leadingExponent_le positive)) above.not_gt

/-- A step that is no wider than the gap above a power of two leaves the next step narrow enough. -/
theorem toNumber_of_step_le (positive : 0 < magnitude.units) {digits : Nat}
    (lopsided : Magnitude.Lopsided magnitude.units)
    (narrow : step magnitude digits ≤ Magnitude.spacing magnitude.units) :
    (approximate magnitude (digits + 1)).toNumber false = .finite false magnitude := by
  have within := approximate_within (Nat.succ_pos digits) magnitude
  have narrower := step_succ magnitude digits
  have units_pos : (0 : ℚ) < magnitude.units := Nat.cast_pos.mpr positive
  obtain ⟨exponent, large, power⟩ := lopsided
  have digits_eq : exponent - 52 + 52 = exponent := by omega
  have spacing : (Magnitude.spacing magnitude.units : ℚ) * 2 ^ 52 = magnitude.units := by
    rw [power, Magnitude.spacing_eq, Nat.log2_two_pow]
    exact_mod_cast (pow_add 2 (exponent - 52) 52).symm.trans (congrArg (2 ^ ·) digits_eq)
  refine toNumber_of_close positive false (lt_of_le_of_lt within ?_)
  rw [lt_div_iff₀ (by positivity)]
  linarith

/--
A decimal that is shorter than the approximation of a power of two may still denote it, when it
lies above; the next approximation is then close enough to read back.
-/
theorem approximate_of_passed_over (positive : 0 < magnitude.units) {digits : Nat}
    (some_digit : 0 < digits) (fits : decimal.coefficient < 10 ^ digits)
    (denotes : decimal.toNumber false = .finite false magnitude)
    (unread : (approximate magnitude digits).toNumber false ≠ .finite false magnitude) :
    Magnitude.Lopsided magnitude.units ∧ magnitude.units < decimal.value * Magnitude.one ∧
      (approximate magnitude (digits + 1)).toNumber false = .finite false magnitude := by
  have nearest := approximate_nearest some_digit positive fits
  have side : ¬ _ := fun side => unread (toNumber_of_nearer positive denotes nearest side)
  rw [not_or, not_or, not_le, not_le, not_not] at side
  obtain ⟨below, above, lopsided⟩ := side
  have apart := step_le_of_between positive some_digit fits below above
  have near := near_of_toNumber positive denotes
  have narrow : step magnitude digits ≤ Magnitude.spacing magnitude.units := by
    have high := le_abs_self (decimal.value * Magnitude.one - magnitude.units)
    have low := neg_abs_le
      ((approximate magnitude digits).value * Magnitude.one - magnitude.units)
    linarith
  exact ⟨lopsided, above, toNumber_of_step_le positive lopsided narrow⟩

end Decimal

namespace Significand

private theorem length_digits_le {decimal : Decimal} {count : Nat}
    (nonzero : decimal.coefficient ≠ 0)
    (fits : decimal.coefficient < 10 ^ count) : (ofDecimal decimal).digits.length ≤ count := by
  have positive := Nat.pos_of_ne_zero nonzero
  obtain ⟨padding, split, -⟩ := ofDecimal_split nonzero
  have size := congrArg List.length split
  rw [List.length_append, Text.length_ofNat positive] at size
  exact Nat.le_trans (Nat.le.intro size.symm) (Text.digitCount_le positive fits)

end Significand

namespace Numeral

/-- A numeral has the value of a decimal with no more digits than its significant ones. -/
theorem exists_decimal {numeral : Numeral}
    (all : ∀ byte ∈ numeral.whole ++ numeral.fraction, Text.isDigit byte) :
    ∃ decimal : Decimal, decimal.coefficient < 10 ^ numeral.significantDigits ∧
      decimal.value = numeral.toDecimal.value := by
  obtain ⟨whole, fraction, exponent⟩ := numeral
  have fits {digits : Text} (inside : ∀ byte ∈ digits, byte ∈ whole ++ fraction) :
      Text.toNat digits < 10 ^ (digits.dropWhile (· == Text.zeroDigit)).length := by
    rw [← Text.toNat_dropWhile_zeros]
    exact Text.toNat_lt fun byte member =>
      all byte (inside byte ((List.dropWhile_sublist _).mem member))
  by_cases no_fraction : fraction = []
  · subst no_fraction
    obtain ⟨padding, split⟩ := Text.split_zeros whole
    rw [List.append_nil] at fits
    refine ⟨⟨Text.toNat (whole.reverse.dropWhile (· == Text.zeroDigit)).reverse,
      exponent + padding⟩, ?_, ?_⟩
    · rw [significantDigits, countedDigits, if_pos List.isEmpty_nil]
      refine fits fun byte member => ?_
      rw [split]
      exact List.mem_append_left _ member
    · refine (Significand.toDecimal_value padding ?_ ?_).symm
      · rw [List.append_nil]
        conv_lhs => rw [split]
        rw [Text.toNat_append, Significand.length_zeros, Significand.zeros, Text.toNat_zeros,
          Nat.add_zero]
      · rw [List.length_nil, Nat.cast_zero, sub_zero]
  · refine ⟨⟨Text.toNat (whole ++ fraction), exponent - fraction.length⟩, ?_, rfl⟩
    rw [significantDigits, countedDigits, if_neg (by simpa using no_fraction)]
    exact fits fun byte member => member

end Numeral

namespace Number

variable {magnitude : Magnitude}

/-- The text shows no more digits than the first approximation that reads back. -/
theorem toText_first (positive : 0 < magnitude.units) :
    ∃ numeral count, Numeral.Written (toText (.finite false magnitude)) numeral ∧
      numeral.toDecimal.toNumber false = .finite false magnitude ∧
      numeral.significantDigits ≤ count ∧
      ∀ fewer, 0 < fewer → fewer < count →
        (Decimal.approximate magnitude fewer).toNumber false ≠ .finite false magnitude := by
  have nonzero := Decimal.shortest_coefficient positive
  obtain ⟨count, low, -, same, first⟩ := Decimal.shortestFrom_first magnitude (rfl : 1 + 16 = 17)
  obtain ⟨numeral, written, worth, shown⟩ := toText_worth positive
  have fits : (Decimal.shortest magnitude).coefficient < 10 ^ count := by
    rw [Decimal.shortest, same]
    exact Decimal.approximate_fits low positive
  have denotes : numeral.toDecimal.toNumber false = .finite false magnitude := by
    rw [Decimal.toNumber_congr false worth]
    exact Decimal.shortest_toNumber positive
  exact ⟨numeral, count, written, denotes,
    shown.trans (Significand.length_digits_le nonzero fits), first⟩

/--
The text of a number is a numeral that denotes the number.  A numeral with fewer significant digits
denotes it only if the number is a power of two with a narrower gap below it than above; such a
numeral lies above the power of two and is shorter by a single digit.
-/
theorem toText_shortest (negative : Bool) (positive : 0 < magnitude.units) :
    ∃ spelling numeral,
      Numeral.readSign (toText (.finite negative magnitude)) = (negative, spelling) ∧
      Numeral.read? spelling = some (numeral, []) ∧
      numeral.toDecimal.toNumber negative = .finite negative magnitude ∧
      ∀ (sign : Bool) (other : Numeral),
        (∀ byte ∈ other.whole ++ other.fraction, Text.isDigit byte) →
        other.toDecimal.toNumber sign = .finite negative magnitude →
        other.significantDigits < numeral.significantDigits →
          Magnitude.Lopsided magnitude.units ∧
          magnitude.units < other.toDecimal.value * Magnitude.one ∧
          numeral.significantDigits = other.significantDigits + 1 := by
  obtain ⟨numeral, count, written, denotes, shown, first⟩ := toText_first positive
  refine ⟨toText (.finite false magnitude), numeral, ?signed, written.read?_eq, ?denoted, ?least⟩
  case signed =>
    rw [toText_of_pos negative positive]
    exact readSign_minus negative written.numeral
  case denoted =>
    exact Decimal.toNumber_eq_finite_iff.mpr ⟨rfl, denotes⟩
  case least =>
    intro sign other all reads shorter
    obtain ⟨decimal, fits, same⟩ := Numeral.exists_decimal all
    have also := (Decimal.toNumber_eq_finite_iff.mp reads).2
    rw [← Decimal.toNumber_congr false same] at also
    have some_digit : 0 < other.significantDigits := by
      rw [Nat.pos_iff_ne_zero]
      intro none
      rw [none, pow_zero, Nat.lt_one_iff] at fits
      rw [Decimal.toNumber, fits] at also
      cases also
      exact Nat.lt_irrefl 0 positive
    obtain ⟨lopsided, above, next⟩ := Decimal.approximate_of_passed_over positive some_digit fits
      also (first _ some_digit (shorter.trans_le shown))
    rw [same] at above
    refine ⟨lopsided, above, ?_⟩
    have reached : count ≤ other.significantDigits + 1 := by
      by_contra further
      exact first _ (Nat.succ_pos _) (Nat.lt_of_not_le further) next
    omega

/-- The text of `-2 ^ -24` denotes it, and what may be shorter lies above it. -/
theorem toText_shortest_at_power :
    ∃ magnitude : Magnitude, magnitude.units = 2 ^ 1050 ∧ ∃ spelling numeral,
      Numeral.readSign (toText (.finite true magnitude)) = (true, spelling) ∧
      Numeral.read? spelling = some (numeral, []) ∧
      numeral.toDecimal.toNumber true = .finite true magnitude ∧
      ∀ (sign : Bool) (other : Numeral),
        (∀ byte ∈ other.whole ++ other.fraction, Text.isDigit byte) →
        other.toDecimal.toNumber sign = .finite true magnitude →
        other.significantDigits < numeral.significantDigits →
          Magnitude.Lopsided magnitude.units ∧
          magnitude.units < other.toDecimal.value * Magnitude.one ∧
          numeral.significantDigits = other.significantDigits + 1 :=
  ⟨⟨2 ^ 1050, by decide +kernel, by decide +kernel⟩, rfl,
    toText_shortest true (by decide +kernel)⟩

/-- The text of `2 ^ -24` is a digit longer than another numeral that denotes it. -/
theorem toText_not_shortest :
    ∃ (magnitude : Magnitude) (numeral other : Numeral),
      0 < magnitude.units ∧
      toText (.finite false magnitude) = Text.ascii "5.9604644775390625e-8" ∧
      Numeral.read? (Text.ascii "5.9604644775390625e-8") = some (numeral, []) ∧
      Numeral.read? (Text.ascii "5.960464477539063e-8") = some (other, []) ∧
      other.toDecimal.toNumber false = .finite false magnitude ∧
      other.significantDigits < numeral.significantDigits :=
  ⟨⟨2 ^ 1050, by decide +kernel, by decide +kernel⟩,
    ⟨Text.ascii "5", Text.ascii "9604644775390625", -8⟩,
    ⟨Text.ascii "5", Text.ascii "960464477539063", -8⟩,
    by decide +kernel, by decide +kernel, by rfl, by rfl, by decide +kernel, by decide⟩

end Number
end Formulary
