import Formulary.Proofs.NumberCoercion
import Formulary.Proofs.ShortestText

/-!
# Numbers by way of scientific texts

The text of a number made out of another text: decimals are written in scientific form, with one
digit more each time until the text reads back, and the digits and the exponent of that text are
cut out of it and laid out again.  Every cut is asked for by place and count, and there is nothing
to cut where a text is too short.  The outcome is the text of the number all the same.
-/

namespace Formulary

namespace Text

/-- So many bytes of a text from a place on, if it has all of them. -/
def part? (text : Text) (place count : Int) : Option Text :=
  if 0 ≤ place ∧ 0 ≤ count ∧ place + count ≤ text.length then
    some ((text.drop place.toNat).take count.toNat)
  else none

/-- So many zeros, if there can be so many. -/
def zeros? (count : Int) : Option Text :=
  if 0 ≤ count then some (Significand.zeros count.toNat) else none

/-- The text without the zeros at its end, which are dropped one by one; one byte stays. -/
def popZeros (digits : Text) : Text :=
  if 1 < digits.length ∧ digits.getLast? = some zeroDigit then popZeros digits.dropLast else digits
termination_by digits.length
decreasing_by
  rw [List.length_dropLast]
  omega

/-- The integer that a text begins with, if it fits in 32 bits. -/
def leadingInt? (text : Text) : Option Int :=
  let (negative, unsigned) := Numeral.readSign text
  let value : Int := toNat (unsigned.takeWhile isDigit)
  let signed := if negative then -value else value
  if -2 ^ 31 ≤ signed ∧ signed < 2 ^ 31 then some signed else none

end Text

namespace Decimal

/-- The digits of a power of ten, at least two. -/
def powerText (power : Nat) : Text :=
  if power < 10 then Text.zeroDigit :: Text.ofNat power else Text.ofNat power

/-- The digits of a decimal with a point behind the first of them, unless it is the only one. -/
def mantissaText (decimal : Decimal) : Text :=
  let digits := Text.ofNat decimal.coefficient
  digits.take 1 ++ (if 1 < digits.length then Text.ascii "." ++ digits.drop 1 else [])

/-- The decimal with a single digit in front of its point, and a power of ten. -/
def scientific (decimal : Decimal) : Text :=
  let power := decimal.topExponent - 1
  decimal.mantissaText ++
    ((if 0 ≤ power then Text.ascii "e+" else Text.ascii "e-") ++ powerText power.natAbs)

/--
The first scientific text with at least `precision` digits that reads back as a magnitude, or else
the one with seventeen digits.
-/
def scientificFrom (magnitude : Magnitude) : Nat → Nat → Text
  | 0, precision => (approximate magnitude precision).scientific
  | more + 1, precision =>
      let text := (approximate magnitude precision).scientific
      if Number.ofLeading text == .finite false magnitude then text
      else scientificFrom magnitude more (precision + 1)

/-- The scientific text that the text of a magnitude is made of. -/
def shortestScientific (magnitude : Magnitude) : Text :=
  scientificFrom magnitude 16 1

end Decimal

namespace Text

/-- The digits of a scientific text whose exponent is marked at a place. -/
def scientificDigits? (text : Text) (mark : Nat) : Option Text := do
  let first ← text.part? 0 1
  if 2 < mark then return first ++ (← text.part? 2 (mark - 2)) else return first

/-- The digits behind the first one, with a point in front of them. -/
def behindPoint? (digits : Text) : Option Text :=
  if 1 < digits.length then (digits.part? 1 (digits.length - 1)).map (ascii "." ++ ·) else some []

/-- Digits with their point written out, if all that is cut out of them is there. -/
def layOut? (digits : Text) (point : Int) : Option Text :=
  let count : Int := digits.length
  if count ≤ point ∧ point ≤ 21 then do
    return digits ++ (← zeros? (point - count))
  else if 0 < point ∧ point ≤ 21 then do
    return (← digits.part? 0 point) ++ ascii "." ++ (← digits.part? point (count - point))
  else if -6 < point ∧ point ≤ 0 then do
    return ascii "0." ++ (← zeros? (-point)) ++ digits
  else do
    let mark := if 0 ≤ point - 1 then ascii "e+" else ascii "e-"
    return (← digits.part? 0 1) ++ (← behindPoint? digits) ++ (mark ++ ofNat (point - 1).natAbs)

/-- The text of the number that a scientific text denotes; its exponent follows the first `e`. -/
def ofScientific? (text : Text) : Option Text := do
  let mark ← text.findIdx? (· == 101)
  let digits ← text.scientificDigits? mark
  let exponent ← leadingInt? (text.drop (mark + 1))
  layOut? digits.popZeros (exponent + 1)

private theorem part?_front {text : Text} {count : Int} (some_byte : 0 ≤ count)
    (inside : count ≤ text.length) : text.part? 0 count = some (text.take count.toNat) := by
  rw [part?, if_pos (by omega), Int.toNat_zero, List.drop_zero]

private theorem part?_back {text : Text} {place : Int} (some_byte : 0 ≤ place)
    (inside : place ≤ text.length) :
    text.part? place (text.length - place) = some (text.drop place.toNat) := by
  rw [part?, if_pos (by omega), List.take_of_length_le]
  rw [List.length_drop]
  omega

private theorem part?_middle (front middle back : Text) :
    (front ++ middle ++ back).part? front.length middle.length = some middle := by
  rw [part?, if_pos (by simp only [List.length_append]; omega), Int.toNat_natCast,
    Int.toNat_natCast, List.append_assoc, List.drop_left, List.take_left]

private theorem zeros?_eq {count : Int} {natural : Nat} (same : count = natural) :
    zeros? count = some (Significand.zeros natural) := by
  rw [same, zeros?, if_pos (Int.natCast_nonneg natural), Int.toNat_natCast]

/-- Dropping zeros one by one leaves what is in front of all of them. -/
theorem popZeros_eq_stripZeros (digits : Text) : digits.popZeros = digits.stripZeros := by
  induction digits using List.reverseRecOn with
  | nil =>
      rw [popZeros]
      rfl
  | append_singleton front last induction =>
      rw [popZeros, List.getLast?_append, List.getLast?_singleton, List.dropLast_concat,
        induction, stripZeros, stripZeros, List.reverse_append, List.reverse_singleton,
        List.singleton_append]
      by_cases zero : last = zeroDigit
      · rw [List.dropWhile_cons_of_pos (by simpa using zero)]
        cases front with
        | nil => rw [zero]; rfl
        | cons first rest => 
            rw [if_pos (by simp [zero])]
            rfl
      · rw [List.dropWhile_cons_of_neg (by simpa using zero), List.reverse_cons,
          List.reverse_reverse, if_neg (by simpa using fun _ => zero)]
        cases front <;> rfl

/-- What is laid out out of digits is all there. -/
theorem layOut?_eq {significand : Significand} (some_digit : significand.digits ≠ []) :
    layOut? significand.digits significand.point = some significand.layout := by
  obtain ⟨digits, point⟩ := significand
  have positive : 0 < digits.length := List.length_pos_iff.mpr some_digit
  simp only [layOut?, Significand.layout]
  split
  · have count : point - digits.length = (point.toNat - digits.length : Nat) := by omega
    rw [zeros?_eq count]
    rfl
  split
  · rw [part?_front (by omega) (by omega), part?_back (by omega) (by omega)]
    rfl
  split
  · rw [zeros?_eq (show -point = (point.natAbs : Int) by omega)]
    rfl
  rw [part?_front (by omega) (by omega), behindPoint?, part?_back (by omega) (by omega)]
  split <;> rfl

end Text
namespace Decimal

open Lexicon (Digits)

private theorem toNat_powerText (power : Nat) : Text.toNat (powerText power) = power := by
  rw [powerText]
  split
  · rw [← List.singleton_append, Text.toNat_append, Text.toNat_ofNat]
    exact (congrArg (· + power) (Nat.zero_mul _)).trans (Nat.zero_add power)
  · exact Text.toNat_ofNat power

private theorem digits_powerText (power : Nat) : Digits (powerText power) := by
  have digits := Text.digits_ofNat power
  rw [powerText]
  split
  · exact ⟨List.cons_ne_nil _ _, List.forall_mem_cons.mpr ⟨by decide, digits.2⟩⟩
  · exact digits

variable (decimal : Decimal)

/-- The parts of the scientific text of a decimal. -/
def scientificNumeral : Numeral where
  whole := (Text.ofNat decimal.coefficient).take 1
  fraction := (Text.ofNat decimal.coefficient).drop 1
  exponent := decimal.topExponent - 1

private theorem unscaled_mantissaText :
    Numeral.Unscaled decimal.mantissaText decimal.scientificNumeral.whole
      decimal.scientificNumeral.fraction := by
  have digits := Text.digits_ofNat decimal.coefficient
  have front := Significand.digits_take digits Nat.one_pos
  simp only [mantissaText, scientificNumeral]
  split
  · rename_i several
    exact .pointed front (Significand.digits_drop digits several)
  · rename_i single
    rw [List.append_nil, List.drop_eq_nil_iff.mpr (Nat.le_of_not_lt single)]
    exact .whole front

/-- Behind the mantissa the exponent is marked, and has a sign. -/
theorem scientific_marked :
    ∃ sign, Text.isSign sign ∧
      decimal.scientific = decimal.mantissaText ++
        101 :: sign :: powerText (decimal.topExponent - 1).natAbs ∧
      (if sign = Text.minusSign then -((decimal.topExponent - 1).natAbs : Int)
        else (decimal.topExponent - 1).natAbs) = decimal.topExponent - 1 := by
  rw [scientific]
  by_cases upward : 0 ≤ decimal.topExponent - 1
  · refine ⟨43, by decide, by rw [if_pos upward]; rfl, ?_⟩
    rw [if_neg (by decide)]
    omega
  · refine ⟨45, by decide, by rw [if_neg upward]; rfl, ?_⟩
    rw [if_pos (by decide)]
    omega

theorem read?_scientific :
    Numeral.read? decimal.scientific = some (decimal.scientificNumeral, []) := by
  obtain ⟨sign, signs, spelled, power⟩ := scientific_marked decimal
  have scaled : Numeral.Scaled (101 :: sign :: powerText (decimal.topExponent - 1).natAbs) _ :=
    .signed (by decide) signs (digits_powerText _)
  have no_digit := fun byte head => (scaled.head_apart byte head).1
  have no_point := fun byte head => (scaled.head_apart byte head).2
  rw [spelled, (unscaled_mantissaText decimal).read?_eq no_digit no_point,
    scaled.readExponent_eq, toNat_powerText, power]
  rfl

theorem numeral_scientific : Lexicon.Numeral decimal.scientific := by
  obtain ⟨sign, signs, spelled, -⟩ := scientific_marked decimal
  exact ⟨_, _, spelled, (unscaled_mantissaText decimal).mantissa,
    .signed (by decide) signs (digits_powerText _)⟩

variable {decimal} (nonzero : decimal.coefficient ≠ 0)

include nonzero

theorem toDecimal_scientificNumeral : decimal.scientificNumeral.toDecimal = decimal := by
  have count := Text.length_ofNat (Nat.pos_of_ne_zero nonzero)
  have some_digit := Text.digitCount_pos (Nat.pos_of_ne_zero nonzero)
  obtain ⟨coefficient, exponent⟩ := decimal
  simp only [scientificNumeral, Numeral.toDecimal, List.take_append_drop, Text.toNat_ofNat,
    List.length_drop, topExponent] at count some_digit ⊢
  congr 1
  omega

/-- A scientific text reads as its decimal does. -/
theorem ofLeading_scientific : Number.ofLeading decimal.scientific = decimal.toNumber false := by
  rw [Number.ofLeading_numeral (numeral_scientific decimal), read?_scientific]
  exact congrArg (toNumber false) (toDecimal_scientificNumeral nonzero)

omit nonzero

section Loop

variable {magnitude : Magnitude} (positive : 0 < magnitude.units)

include positive

private theorem le_approximate {precision : Nat} (some_digit : 0 < precision) :
    10 ^ (precision - 1) ≤ (approximate magnitude precision).coefficient := by
  have width := step_pos magnitude precision
  have within := approximate_within some_digit magnitude
  have leading := leadingExponent_le positive
  have bottom : (10 : ℚ) ^ (precision - 1) * step magnitude precision =
      10 ^ leadingExponent magnitude * Magnitude.one :=
    pow_mul_step (by omega)
  rw [approximate_step some_digit, abs_le] at within
  have reached : (10 ^ (precision - 1) : ℚ) * step magnitude precision <
      (scaleToNat magnitude (leadingExponent magnitude - precision + 1) + 1) *
        step magnitude precision := by
    linarith [within.1]
  have bounded : 10 ^ (precision - 1) <
      scaleToNat magnitude (leadingExponent magnitude - precision + 1) + 1 := by
    exact_mod_cast lt_of_mul_lt_mul_right reached width.le
  unfold approximate
  simp only [Nat.pow_eq]
  generalize scaleToNat magnitude (leadingExponent magnitude - precision + 1) = nearest
    at bounded ⊢
  split
  · exact le_rfl
  · exact Nat.le_of_lt_succ bounded

/-- An approximation has exactly the digits that it is asked for. -/
theorem digitCount_approximate {precision : Nat} (some_digit : 0 < precision) :
    Text.digitCount (approximate magnitude precision).coefficient = precision := by
  have low := le_approximate positive some_digit
  have high := approximate_fits some_digit positive
  have some_value := Nat.lt_of_lt_of_le (Nat.pow_pos (by decide)) low
  have at_most := Text.digitCount_le some_value high
  have below := Nat.lt_of_le_of_lt low (Text.lt_pow_digitCount _)
  have at_least := (Nat.pow_lt_pow_iff_right (by decide : 1 < 10)).mp below
  omega

private theorem approximate_coefficient {precision : Nat} (some_digit : 0 < precision) :
    (approximate magnitude precision).coefficient ≠ 0 := by
  intro zero
  have count := digitCount_approximate positive some_digit
  rw [zero, Text.digitCount_zero] at count
  omega

/-- Trying texts ends where trying decimals does. -/
theorem scientificFrom_eq {more precision : Nat} (some_digit : 0 < precision) :
    scientificFrom magnitude more precision =
      (shortestFrom magnitude more precision).scientific := by
  induction more generalizing precision with
  | zero => rfl
  | succ more induction =>
      have reads := ofLeading_scientific (approximate_coefficient positive some_digit)
      rw [scientificFrom, shortestFrom, readsBack]
      simp only [reads]
      split
      · rfl
      · exact induction (Nat.succ_pos precision)

/-- The scientific text with the first approximation that reads back. -/
theorem shortestScientific_first :
    ∃ precision, 1 ≤ precision ∧ precision ≤ 17 ∧
      shortest magnitude = approximate magnitude precision ∧
      Text.digitCount (approximate magnitude precision).coefficient = precision ∧
      shortestScientific magnitude = (approximate magnitude precision).scientific := by
  obtain ⟨precision, low, high, same, -⟩ := shortestFrom_first magnitude (rfl : 1 + 16 = 17)
  refine ⟨precision, low, high, same, digitCount_approximate positive low, ?_⟩
  rw [shortestScientific, scientificFrom_eq positive Nat.one_pos, same]

/-- The point of a decimal that denotes a number does not stand far away from its digits. -/
theorem topExponent_shortest :
    -324 < (shortest magnitude).topExponent ∧ (shortest magnitude).topExponent ≤ 309 := by
  have reads := shortest_toNumber positive
  rw [toNumber] at reads
  split at reads
  · cases reads
    exact absurd positive (Nat.lt_irrefl 0)
  · rename_i not_tiny
    split at reads
    · cases reads
    · rename_i not_huge
      simp only [Bool.or_eq_true, decide_eq_true_eq, not_or, Int.not_le] at not_tiny
      exact ⟨not_tiny.2, Int.not_lt.mp not_huge⟩

end Loop

/-- The mark of the exponent is the first of its kind. -/
theorem scientific_mark (decimal : Decimal) :
    decimal.scientific.findIdx? (· == 101) = some decimal.mantissaText.length := by
  obtain ⟨sign, -, spelled, -⟩ := scientific_marked decimal
  have no_mark : decimal.mantissaText.findIdx? (· == 101) = none := by
    refine List.findIdx?_eq_none_iff.mpr fun byte member => beq_eq_false_iff_ne.mpr ?_
    rintro rfl
    exact (unscaled_mantissaText decimal).mantissa.bytes 101 member |>.elim nofun nofun
  rw [spelled, List.findIdx?_append, no_mark]
  exact congrArg some (Nat.zero_add _)

/-- The digits of a decimal are found in its scientific text. -/
theorem scientificDigits?_scientific (decimal : Decimal) :
    decimal.scientific.scientificDigits? decimal.mantissaText.length =
      some (Text.ofNat decimal.coefficient) := by
  obtain ⟨sign, -, spelled, -⟩ := scientific_marked decimal
  obtain ⟨first, rest, digits⟩ :=
    List.exists_cons_of_ne_nil (Text.digits_ofNat decimal.coefficient).1
  have mantissa := mantissaText.eq_1 decimal
  rw [digits] at mantissa ⊢
  rw [spelled, Text.scientificDigits?]
  generalize 101 :: sign :: powerText (decimal.topExponent - 1).natAbs = tail
  cases rest with
  | nil =>
      have alone : decimal.mantissaText = [first] := mantissa
      rw [alone, Text.part?_front (by decide) (by simp)]
      rfl
  | cons second others =>
      have pointed : decimal.mantissaText = first :: Text.dot :: second :: others := mantissa
      have more : 2 < (first :: Text.dot :: second :: others).length :=
        Nat.le_add_left 3 others.length
      have inside : Text.part? (first :: Text.dot :: second :: others ++ tail) 2
          ((first :: Text.dot :: second :: others).length - 2) = some (second :: others) := by
        have count : ((first :: Text.dot :: second :: others).length : Int) - 2 =
            (second :: others).length := by
          simp only [List.length_cons]
          omega
        rw [count]
        exact Text.part?_middle [first, Text.dot] (second :: others) tail
      rw [pointed, Text.part?_front (by decide) (by simp; omega)]
      simp only [if_pos more, inside]
      rfl

/-- The exponent of a decimal is found in its scientific text. -/
theorem leadingInt?_scientific {decimal : Decimal} (low : -324 < decimal.topExponent)
    (high : decimal.topExponent ≤ 309) :
    Text.leadingInt? (decimal.scientific.drop (decimal.mantissaText.length + 1)) =
      some (decimal.topExponent - 1) := by
  obtain ⟨sign, signs, spelled, power⟩ := scientific_marked decimal
  have digits := digits_powerText (decimal.topExponent - 1).natAbs
  have behind : decimal.scientific.drop (decimal.mantissaText.length + 1) =
      sign :: powerText (decimal.topExponent - 1).natAbs := by
    rw [spelled, List.append_cons]
    exact List.drop_left' (by simp)
  have all : (powerText (decimal.topExponent - 1).natAbs).takeWhile Text.isDigit = _ :=
    List.takeWhile_eq_self_iff.mpr digits.2
  simp only [behind, Text.leadingInt?, Numeral.readSign, signs, if_true, all, toNat_powerText,
    beq_iff_eq, power]
  exact if_pos (by omega)

/-- What is made of a scientific text is the layout of its decimal. -/
theorem ofScientific?_scientific {decimal : Decimal} (nonzero : decimal.coefficient ≠ 0)
    (low : -324 < decimal.topExponent) (high : decimal.topExponent ≤ 309) :
    Text.ofScientific? decimal.scientific = some (Significand.ofDecimal decimal).layout := by
  obtain ⟨-, -, nonempty⟩ := Significand.ofDecimal_split nonzero
  have laid_out := Text.layOut?_eq nonempty
  rw [Text.ofScientific?, scientific_mark]
  simp only [Option.bind_eq_bind, Option.bind_some, scientificDigits?_scientific,
    leadingInt?_scientific low high, Text.popZeros_eq_stripZeros, Int.sub_add_cancel]
  exact laid_out

end Decimal
end Formulary
