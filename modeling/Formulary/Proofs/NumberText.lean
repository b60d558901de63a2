import Mathlib.Data.List.TakeWhile
import Formulary.Number.Layout
import Formulary.Number.Numeral
import Formulary.Proofs.DecimalValue

/-!
# Number text reads back

Every layout of a number is one numeral of digits with the value of the number's shortest decimal.
Reading the text as a literal therefore gives the number again.
-/

namespace Formulary

open Lexicon (Digits)

namespace Numeral

/-- Digits with or without a point among them, and the digits on both sides of it. -/
inductive Unscaled : Text → Text → Text → Prop where
  | whole {whole} (digits : Digits whole) : Unscaled whole whole []
  | pointed {whole fraction} (digits : Digits whole) (part : Digits fraction) :
      Unscaled (whole ++ Text.dot :: fraction) whole fraction

/-- The text is written the way numbers are, and these are its parts. -/
inductive Written : Text → Numeral → Prop where
  | plain {text whole fraction} (unscaled : Unscaled text whole fraction) :
      Written text ⟨whole, fraction, 0⟩
  | scaled {text whole fraction} (unscaled : Unscaled text whole fraction) (exponent : Int) :
      Written (text ++ Significand.exponentText exponent) ⟨whole, fraction, exponent⟩

theorem exponentText_eq (exponent : Int) :
    ∃ sign, Text.isSign sign ∧ (sign == Text.minusSign) = decide (exponent < 0) ∧
      Significand.exponentText exponent = 101 :: sign :: Text.ofNat exponent.natAbs := by
  rw [Significand.exponentText]
  split
  · exact ⟨43, by decide, by simp [Int.not_lt.mpr ‹0 ≤ exponent›]; decide, rfl⟩
  · exact ⟨45, by decide, by simp [Int.not_le.mp ‹¬ 0 ≤ exponent›]; decide, rfl⟩

private theorem readFraction_eq {isDigit : UInt8 → Bool} {tail : Text}
    (no_point : ∀ byte ∈ tail.head?, byte ≠ Text.dot) : readFraction isDigit tail = ([], tail) := by
  cases tail with
  | nil => rfl
  | cons byte rest => rw [readFraction, if_neg (no_point byte rfl)]

theorem dropWhile_append_eq {holds : UInt8 → Bool} {front rest : Text}
    (inside : ∀ byte ∈ front, holds byte) (outside : ∀ byte ∈ rest.head?, ¬ holds byte) :
    (front ++ rest).dropWhile holds = rest := by
  rw [List.dropWhile_append_of_pos inside]
  cases rest with
  | nil => rfl
  | cons byte rest => rw [List.dropWhile_cons_of_neg (outside byte rfl)]

private theorem readExponent_exponentText (exponent : Int) :
    readExponent Text.isExponentMark (Significand.exponentText exponent) = (exponent, []) := by
  obtain ⟨sign, signs, minus, written⟩ := exponentText_eq exponent
  have digits := Text.digits_ofNat exponent.natAbs
  have nothing : ∀ byte ∈ ([] : Text).head?, ¬ Text.isDigit byte := by simp
  have all := Lexicon.takeWhile_append_eq digits.2 nothing
  have none_left := dropWhile_append_eq digits.2 nothing
  have some_digit := List.isEmpty_eq_false_iff.mpr digits.1
  rw [List.append_nil] at all none_left
  rw [written, readExponent, if_pos (by decide)]
  simp only [readSign, signs, if_true, all, none_left, some_digit, Bool.false_eq_true, if_false,
    minus, Text.toNat_ofNat, decide_eq_true_eq]
  split
  · congr 1
    omega
  · congr 1
    omega

/-- Digits are read with the point behind them, among them or in front of them. -/
theorem read?_pointed {whole fraction tail : Text} (digits : ∀ byte ∈ whole, Text.isDigit byte)
    (part : ∀ byte ∈ fraction, Text.isDigit byte) (some_digit : whole ≠ [] ∨ fraction ≠ [])
    (no_digit : ∀ byte ∈ tail.head?, ¬ Text.isDigit byte) :
    read? (whole ++ Text.dot :: (fraction ++ tail)) =
      some (⟨whole, fraction, (readExponent Text.isExponentMark tail).1⟩,
        (readExponent Text.isExponentMark tail).2) := by
  have point : ∀ byte ∈ (Text.dot :: (fraction ++ tail)).head?, ¬ Text.isDigit byte := by
    simpa using Lexicon.not_digit_dot
  have not_empty : ¬ (whole.isEmpty && fraction.isEmpty) := by
    rw [Bool.and_eq_true, List.isEmpty_iff, List.isEmpty_iff]
    exact not_and_or.mpr some_digit
  simp only [read?, Lexicon.takeWhile_append_eq digits point, dropWhile_append_eq digits point,
    readFraction, if_true, Lexicon.takeWhile_append_eq part no_digit,
    dropWhile_append_eq part no_digit, if_neg not_empty]

theorem Unscaled.read?_eq {text whole fraction tail : Text}
    (unscaled : Unscaled text whole fraction) (no_digit : ∀ byte ∈ tail.head?, ¬ Text.isDigit byte)
    (no_point : ∀ byte ∈ tail.head?, byte ≠ Text.dot) :
    read? (text ++ tail) =
      some (⟨whole, fraction, (readExponent Text.isExponentMark tail).1⟩,
        (readExponent Text.isExponentMark tail).2) := by
  cases unscaled with
  | whole digits =>
      have some_digit := List.isEmpty_eq_false_iff.mpr digits.1
      simp only [read?, Lexicon.takeWhile_append_eq digits.2 no_digit,
        dropWhile_append_eq digits.2 no_digit, readFraction_eq no_point, some_digit,
        Bool.false_and, Bool.false_eq_true, if_false]
  | pointed digits part =>
      rw [List.append_assoc, List.cons_append]
      exact read?_pointed digits.2 part.2 (.inl digits.1) no_digit

/-- A written numeral is read whole. -/
theorem Written.read?_eq {text : Text} {numeral : Numeral} (written : Written text numeral) :
    read? text = some (numeral, []) := by
  cases written with
  | plain unscaled =>
      have no_digit : ∀ byte ∈ ([] : Text).head?, ¬ Text.isDigit byte := by simp
      have read := unscaled.read?_eq no_digit (by simp)
      rwa [List.append_nil] at read
  | scaled unscaled exponent =>
      obtain ⟨sign, -, -, spelled⟩ := exponentText_eq exponent
      have no_digit : ∀ byte ∈ (Significand.exponentText exponent).head?,
          ¬ Text.isDigit byte := by
        rw [spelled]
        simp only [List.head?_cons, Option.mem_some_iff, forall_eq']
        decide
      have no_point : ∀ byte ∈ (Significand.exponentText exponent).head?, byte ≠ Text.dot := by
        rw [spelled]
        simp only [List.head?_cons, Option.mem_some_iff, forall_eq']
        decide
      have read := unscaled.read?_eq no_digit no_point
      rwa [readExponent_exponentText] at read

theorem Unscaled.mantissa {text whole fraction : Text} (unscaled : Unscaled text whole fraction) :
    Lexicon.Mantissa text := by
  cases unscaled with
  | whole digits => exact .whole digits
  | pointed digits part => exact .fractional digits part

/-- A written numeral spells a number. -/
theorem Written.numeral {text : Text} {numeral : Numeral} (written : Written text numeral) :
    Lexicon.Numeral text := by
  cases written with
  | plain unscaled => exact ⟨text, [], (List.append_nil _).symm, unscaled.mantissa, .none⟩
  | scaled unscaled exponent =>
      obtain ⟨sign, signs, -, spelled⟩ := exponentText_eq exponent
      refine ⟨_, _, rfl, unscaled.mantissa, ?_⟩
      rw [spelled]
      exact .signed (by decide) signs (Text.digits_ofNat _)

end Numeral

namespace Text

theorem digits_zero : Digits [zeroDigit] := by
  refine ⟨List.cons_ne_nil _ _, fun byte member => ?_⟩
  rw [List.mem_singleton.mp member]
  decide

private theorem takeWhile_zeros (digits : Text) : digits.takeWhile (· == zeroDigit) =
    Significand.zeros (digits.takeWhile (· == zeroDigit)).length := by
  rw [Significand.zeros, List.eq_replicate_iff]
  refine ⟨rfl, fun byte member => ?_⟩
  simpa using List.mem_takeWhile_imp member

/-- The zeros at the end of some digits, split off. -/
theorem split_zeros (digits : Text) :
    ∃ count, digits = (digits.reverse.dropWhile (· == zeroDigit)).reverse ++
      Significand.zeros count := by
  have split := congrArg List.reverse
    (List.takeWhile_append_dropWhile (p := (· == zeroDigit)) (l := digits.reverse))
  rw [List.reverse_append, List.reverse_reverse, takeWhile_zeros, Significand.zeros,
    List.reverse_replicate] at split
  exact ⟨_, split.symm⟩

/-- A text of digits that is worth something is not all zeros. -/
theorem dropZeros_ne_nil {digits : Text} (nonzero : toNat digits ≠ 0) :
    (digits.reverse.dropWhile (· == zeroDigit)).reverse ≠ [] := by
  intro empty
  obtain ⟨count, split⟩ := split_zeros digits
  rw [empty, List.nil_append] at split
  rw [split, Significand.zeros, toNat_zeros] at nonzero
  exact nonzero rfl

private theorem stripZeros_eq {digits : Text} (nonzero : toNat digits ≠ 0) :
    ∃ count, digits = stripZeros digits ++ Significand.zeros count ∧ stripZeros digits ≠ [] := by
  obtain ⟨count, split⟩ := split_zeros digits
  rw [stripZeros]
  split
  · rename_i empty
    exact absurd empty (dropZeros_ne_nil nonzero)
  · rename_i kept some_kept
    exact ⟨count, split, some_kept⟩

/-- Zeros in front of a number do not change its value. -/
theorem toNat_dropWhile_zeros (digits : Text) :
    toNat (digits.dropWhile (· == zeroDigit)) = toNat digits := by
  conv_rhs => rw [← List.takeWhile_append_dropWhile (p := (· == zeroDigit)) (l := digits)]
  rw [toNat_append, takeWhile_zeros, Significand.zeros, toNat_zeros, Nat.zero_mul, Nat.zero_add]

private theorem mem_stripZeros (digits : Text) : ∀ byte ∈ stripZeros digits, byte ∈ digits := by
  intro byte member
  rw [stripZeros] at member
  split at member
  · exact List.mem_of_mem_take member
  · exact List.mem_reverse.mp ((List.dropWhile_sublist _).mem (List.mem_reverse.mp member))

end Text

namespace Numeral

/-- The digits of a numeral, without the zeros at its end if it has no fraction. -/
def countedDigits (numeral : Numeral) : Text :=
  if numeral.fraction.isEmpty then
    (numeral.whole.reverse.dropWhile (· == Text.zeroDigit)).reverse
  else numeral.whole ++ numeral.fraction

/-- How many digits of a numeral are significant: zeros in front of the others are not. -/
def significantDigits (numeral : Numeral) : Nat :=
  (numeral.countedDigits.dropWhile (· == Text.zeroDigit)).length

private theorem significantDigits_padded (digits : Text) (count : Nat) (exponent : Int) :
    significantDigits ⟨digits ++ Significand.zeros count, [], exponent⟩ ≤ digits.length := by
  have zeros : ∀ byte ∈ Significand.zeros count, byte == Text.zeroDigit :=
    fun byte member => beq_iff_eq.mpr (List.eq_of_mem_replicate member)
  rw [significantDigits, countedDigits, if_pos List.isEmpty_nil, List.reverse_append,
    List.dropWhile_append_of_pos fun byte member => zeros byte (List.mem_reverse.mp member)]
  calc (List.dropWhile _ (List.dropWhile _ digits.reverse).reverse).length
      ≤ (List.dropWhile _ digits.reverse).reverse.length := (List.dropWhile_sublist _).length_le
    _ = (List.dropWhile _ digits.reverse).length := List.length_reverse
    _ ≤ digits.reverse.length := (List.dropWhile_sublist _).length_le
    _ = digits.length := List.length_reverse

private theorem significantDigits_pointed {whole fraction digits : Text} (count : Nat)
    (some_fraction : fraction ≠ []) (split : whole ++ fraction = Significand.zeros count ++ digits)
    (exponent : Int) : significantDigits ⟨whole, fraction, exponent⟩ ≤ digits.length := by
  have zeros : ∀ byte ∈ Significand.zeros count, byte == Text.zeroDigit :=
    fun byte member => beq_iff_eq.mpr (List.eq_of_mem_replicate member)
  rw [significantDigits, countedDigits, if_neg (by simpa using some_fraction), split,
    List.dropWhile_append_of_pos zeros]
  exact (List.dropWhile_sublist _).length_le

end Numeral

namespace Significand

/-- What the digits with their point are worth. -/
def value (significand : Significand) : ℚ :=
  Text.toNat significand.digits * (10 : ℚ) ^ (significand.point - significand.digits.length)

theorem toDecimal_value (padding : Nat) {whole fraction digits : Text} {exponent shift : Int}
    (same : Text.toNat (whole ++ fraction) = Text.toNat digits * 10 ^ padding)
    (place : exponent - fraction.length + padding = shift) :
    (Numeral.toDecimal ⟨whole, fraction, exponent⟩).value =
      Text.toNat digits * (10 : ℚ) ^ shift := by
  rw [Decimal.value, Numeral.toDecimal, same, ← place, zpow_add₀ (by norm_num), zpow_natCast]
  push_cast
  ring

theorem digits_take {digits : Text} (all : Digits digits) {count : Nat} (some_digit : 0 < count) :
    Digits (digits.take count) := by
  refine ⟨?_, fun byte member => all.2 byte (List.mem_of_mem_take member)⟩
  rw [Ne, List.take_eq_nil_iff, not_or]
  exact ⟨Nat.ne_of_gt some_digit, all.1⟩

theorem digits_drop {digits : Text} (all : Digits digits) {count : Nat}
    (more : count < digits.length) : Digits (digits.drop count) := by
  refine ⟨?_, fun byte member => all.2 byte (List.mem_of_mem_drop member)⟩
  rw [Ne, List.drop_eq_nil_iff, Nat.not_le]
  exact more

private theorem isDigit_of_mem_zeros {count : Nat} : ∀ byte ∈ zeros count, Text.isDigit byte := by
  intro byte member
  rw [List.eq_of_mem_replicate member]
  decide

theorem digits_append_zeros {digits : Text} (all : Digits digits) (count : Nat) :
    Digits (digits ++ zeros count) := by
  refine ⟨by simp [all.1], fun byte member => ?_⟩
  exact (List.mem_append.mp member).elim (all.2 byte) (isDigit_of_mem_zeros byte)

theorem digits_zeros_append {digits : Text} (all : Digits digits) (count : Nat) :
    Digits (zeros count ++ digits) := by
  refine ⟨by simp [all.1], fun byte member => ?_⟩
  exact (List.mem_append.mp member).elim (isDigit_of_mem_zeros byte) (all.2 byte)

theorem point_append (fraction : Text) :
    Text.ascii "." ++ fraction = Text.dot :: fraction := rfl

theorem zero_point_append (fraction : Text) :
    Text.ascii "0." ++ fraction = [Text.zeroDigit] ++ Text.dot :: fraction := rfl

theorem length_zeros (count : Nat) : (zeros count).length = count :=
  List.length_replicate

/-- The text is written the way numbers are, has the value, and shows so many digits at most. -/
def Worth (text : Text) (value : ℚ) (count : Nat) : Prop :=
  ∃ numeral, Numeral.Written text numeral ∧ numeral.toDecimal.value = value ∧
    numeral.significantDigits ≤ count

section Layouts

variable {digits : Text} {point : Int} (all : Digits digits)

include all

private theorem padded_worth (fits : (digits.length : Int) ≤ point) :
    Worth (digits ++ zeros (point.toNat - digits.length))
      (Text.toNat digits * 10 ^ (point - digits.length)) digits.length := by
  have padded := digits_append_zeros all (point.toNat - digits.length)
  refine ⟨_, .plain (.whole padded), toDecimal_value (point.toNat - digits.length) ?_ ?_,
    Numeral.significantDigits_padded _ _ _⟩
  · rw [List.append_nil, Text.toNat_append, length_zeros, zeros, Text.toNat_zeros, Nat.add_zero]
  · rw [List.length_nil]
    omega

private theorem pointed_worth (positive : 0 < point) (inside : point < digits.length) :
    Worth (digits.take point.toNat ++ Text.ascii "." ++ digits.drop point.toNat)
      (Text.toNat digits * 10 ^ (point - digits.length)) digits.length := by
  have front := digits_take all (show 0 < point.toNat by omega)
  have back := digits_drop all (show point.toNat < digits.length by omega)
  rw [List.append_assoc, point_append]
  refine ⟨_, .plain (.pointed front back), toDecimal_value 0 ?_ ?_,
    Numeral.significantDigits_pointed 0 back.1 (List.take_append_drop _ _) _⟩
  · rw [List.take_append_drop, pow_zero, Nat.mul_one]
  · rw [List.length_drop]
    omega

private theorem fraction_worth (small : point ≤ 0) :
    Worth (Text.ascii "0." ++ zeros point.natAbs ++ digits)
      (Text.toNat digits * 10 ^ (point - digits.length)) digits.length := by
  have padded := digits_zeros_append all point.natAbs
  have split : [Text.zeroDigit] ++ (zeros point.natAbs ++ digits) =
      zeros (point.natAbs + 1) ++ digits := by
    rw [zeros, zeros, List.replicate_succ, List.singleton_append, List.cons_append]
  rw [List.append_assoc, zero_point_append]
  refine ⟨_, .plain (.pointed Text.digits_zero padded), toDecimal_value 0 ?_ ?_,
    Numeral.significantDigits_pointed _ padded.1 split _⟩
  · rw [Text.toNat_append, Text.toNat_append, zeros, Text.toNat_zeros]
    simp [Text.toNat, Text.digitValue, Text.zeroDigit]
  · rw [List.length_append, length_zeros]
    omega

private theorem scaled_worth :
    Worth (digits.take 1 ++ (if 1 < digits.length then Text.ascii "." ++ digits.drop 1 else []) ++
      exponentText (point - 1)) (Text.toNat digits * 10 ^ (point - digits.length))
      digits.length := by
  have some_digit : 0 < digits.length := List.length_pos_iff.mpr all.1
  split
  · rename_i several
    have front := digits_take all Nat.one_pos
    have back := digits_drop all several
    rw [point_append]
    refine ⟨_, .scaled (.pointed front back) (point - 1), toDecimal_value 0 ?_ ?_,
      Numeral.significantDigits_pointed 0 back.1 (List.take_append_drop _ _) _⟩
    · rw [List.take_append_drop, pow_zero, Nat.mul_one]
    · rw [List.length_drop]
      omega
  · rename_i single
    rw [List.append_nil, List.take_of_length_le (Nat.le_of_not_lt single)]
    have shown := Numeral.significantDigits_padded digits 0 (point - 1)
    rw [zeros, List.replicate_zero, List.append_nil] at shown
    refine ⟨_, .scaled (.whole all) (point - 1), toDecimal_value 0 ?_ ?_, shown⟩
    · rw [List.append_nil, pow_zero, Nat.mul_one]
    · rw [List.length_nil]
      omega

end Layouts

/-- Every layout of some digits is a numeral of the same value. -/
theorem layout_worth {significand : Significand} (all : Digits significand.digits) :
    Worth significand.layout significand.value significand.digits.length := by
  rw [layout, value]
  split
  · rename_i whole
    exact padded_worth all whole.1
  · rename_i not_whole
    split
    · rename_i inside
      exact pointed_worth all inside.1 (by omega)
    · split
      · rename_i small
        exact fraction_worth all small.2
      · exact scaled_worth all

/-! ## Shortest decimals -/

section Decimals

variable {decimal : Decimal} (nonzero : decimal.coefficient ≠ 0)

include nonzero

/-- The digits of a coefficient are those that are kept, and zeros. -/
theorem ofDecimal_split :
    ∃ count, Text.ofNat decimal.coefficient = (ofDecimal decimal).digits ++ zeros count ∧
      (ofDecimal decimal).digits ≠ [] := by
  apply Text.stripZeros_eq
  rw [Text.toNat_ofNat]
  exact nonzero

theorem ofDecimal_digits : Digits (ofDecimal decimal).digits := by
  obtain ⟨-, -, nonempty⟩ := ofDecimal_split nonzero
  exact ⟨nonempty, fun byte member =>
    Text.isDigit_of_mem_ofNat _ byte (Text.mem_stripZeros _ byte member)⟩

/-- Zeros at the end of the digits do not count, so leaving them out keeps the value. -/
theorem ofDecimal_value : (ofDecimal decimal).value = decimal.value := by
  obtain ⟨count, split, -⟩ := ofDecimal_split nonzero
  have worth := congrArg Text.toNat split
  have size := congrArg List.length split
  rw [Text.toNat_ofNat, Text.toNat_append, length_zeros, zeros, Text.toNat_zeros,
    Nat.add_zero] at worth
  rw [List.length_append, length_zeros, Text.length_ofNat (Nat.pos_of_ne_zero nonzero)] at size
  have place : decimal.topExponent - (ofDecimal decimal).digits.length =
      decimal.exponent + count := by
    have top : decimal.topExponent = decimal.exponent + Text.digitCount decimal.coefficient := rfl
    omega
  have coefficient : (decimal.coefficient : ℚ) =
      Text.toNat (ofDecimal decimal).digits * 10 ^ count := by
    exact_mod_cast worth
  calc (ofDecimal decimal).value
      = Text.toNat (ofDecimal decimal).digits * (10 : ℚ) ^ (decimal.exponent + count) := by
        rw [value, ← place]
        rfl
    _ = Text.toNat (ofDecimal decimal).digits * 10 ^ count * (10 : ℚ) ^ decimal.exponent := by
        rw [zpow_add₀ (by norm_num), zpow_natCast]
        ring
    _ = decimal.value := by rw [Decimal.value, coefficient]

end Decimals
end Significand

theorem Decimal.shortest_coefficient {magnitude : Magnitude} (positive : 0 < magnitude.units) :
    (Decimal.shortest magnitude).coefficient ≠ 0 := by
  intro zero
  have read := Decimal.shortest_toNumber positive
  rw [Decimal.toNumber, zero] at read
  cases read
  exact Nat.lt_irrefl 0 positive

/-- The text of a number has the value and the digits of its shortest decimal. -/
theorem Number.toText_worth {magnitude : Magnitude} (positive : 0 < magnitude.units) :
    Significand.Worth (toText (.finite false magnitude)) (Decimal.shortest magnitude).value
      (Significand.ofDecimal (Decimal.shortest magnitude)).digits.length := by
  have nonzero := Decimal.shortest_coefficient positive
  rw [toText, if_neg (Nat.ne_of_gt positive), if_neg Bool.false_ne_true, List.nil_append,
    ← Significand.ofDecimal_value nonzero]
  exact Significand.layout_worth (Significand.ofDecimal_digits nonzero)

/-- The text of a number is a numeral that is worth the number. -/
theorem Number.toText_written (magnitude : Magnitude) :
    ∃ numeral, Numeral.Written (toText (.finite false magnitude)) numeral ∧
      numeral.toDecimal.toNumber false = .finite false magnitude := by
  rcases Nat.eq_zero_or_pos magnitude.units with zero | positive
  · refine ⟨⟨[Text.zeroDigit], [], 0⟩, ?_, ?_⟩
    · rw [toText, if_pos zero]
      exact .plain (.whole Text.digits_zero)
    · obtain ⟨units, spaced, bounded⟩ := magnitude
      obtain rfl : units = 0 := zero
      have worthless : (Numeral.toDecimal ⟨[Text.zeroDigit], [], 0⟩).coefficient = 0 := rfl
      rw [Decimal.toNumber, worthless]
      rfl
  · obtain ⟨numeral, written, same, -⟩ := toText_worth positive
    refine ⟨numeral, written, ?_⟩
    rw [Decimal.toNumber_congr false same]
    exact Decimal.shortest_toNumber positive

namespace Lexicon

theorem Exponent.bytes {exponent : Text} (spelled : Exponent exponent) :
    ∀ byte ∈ exponent,
      Text.isDigit byte ∨ byte = Text.dot ∨ Text.isExponentMark byte ∨ Text.isSign byte := by
  intro byte member
  cases spelled with
  | none => cases member
  | unsigned marks power =>
      rcases List.mem_cons.mp member with rfl | member
      · exact .inr (.inr (.inl marks))
      · exact .inl (power.2 byte member)
  | signed marks signs power =>
      rcases List.mem_cons.mp member with rfl | member
      · exact .inr (.inr (.inl marks))
      · rcases List.mem_cons.mp member with rfl | member
        · exact .inr (.inr (.inr signs))
        · exact .inl (power.2 byte member)

theorem Mantissa.bytes {mantissa : Text} (spelled : Mantissa mantissa) :
    ∀ byte ∈ mantissa, Text.isDigit byte ∨ byte = Text.dot := by
  intro byte member
  cases spelled with
  | whole whole => exact .inl (whole.2 byte member)
  | fractional whole part =>
      rcases List.mem_append.mp member with member | member
      · exact .inl (whole.2 byte member)
      · rcases List.mem_cons.mp member with rfl | member
        · exact .inr rfl
        · exact .inl (part.2 byte member)
  | pointed part =>
      rcases List.mem_cons.mp member with rfl | member
      · exact .inr rfl
      · exact .inl (part.2 byte member)

theorem Numeral.bytes {spelling : Text} (numeral : Numeral spelling) :
    ∀ byte ∈ spelling,
      Text.isDigit byte ∨ byte = Text.dot ∨ Text.isExponentMark byte ∨ Text.isSign byte := by
  obtain ⟨mantissa, exponent, rfl, spelled, power⟩ := numeral
  intro byte member
  rcases List.mem_append.mp member with member | member
  · exact (spelled.bytes byte member).imp_right .inl
  · exact power.bytes byte member

/-- The bytes of numerals are no spaces and no NUL, and of the letters only exponent marks. -/
theorem apart_of_numeralByte {byte : UInt8}
    (kind : Text.isDigit byte ∨ byte = Text.dot ∨ Text.isExponentMark byte ∨ Text.isSign byte) :
    ¬ Text.isSpace byte ∧ byte ≠ Text.nul ∧
      ¬ (Text.isLetter byte && !Text.isExponentMark byte) ∧ byte ≠ 110 := by
  simp only [Text.isDigit, Text.dot, Text.isExponentMark, Text.isSign, Text.isSpace, Text.nul,
    Text.isLetter, Text.isUpper, Text.isLower] at kind ⊢
  grind

/-- The letters of `inf`, `nan` and `0x` that no numeral has. -/
theorem Numeral.not_lower {spelling : Text} (numeral : Numeral spelling) {byte : UInt8}
    (lowered : byte ∈ spelling.toLower) : byte ≠ 110 ∧ byte ≠ 120 := by
  obtain ⟨original, member, rfl⟩ := List.mem_map.mp lowered
  have kind := numeral.bytes original member
  simp only [Text.isDigit, Text.dot, Text.isExponentMark, Text.isSign, Text.isUpper] at kind ⊢
  grind

/-- A numeral begins with a digit or a point, and so with no sign. -/
theorem Numeral.readSign_eq {spelling : Text} (numeral : Numeral spelling) :
    Formulary.Numeral.readSign spelling = (false, spelling) := by
  cases spelling with
  | nil => exact absurd rfl numeral.ne_nil
  | cons first rest =>
      have begins := numeral.begins (List.prefix_refl _)
      have not_sign : ¬ Text.isSign first := by
        intro signs
        have not_digit := not_digit_of_sign signs
        simp only [beginsNumber, not_digit, Bool.false_or, Bool.and_eq_true,
          decide_eq_true_eq] at begins
        rw [begins.1] at signs
        cases signs
      rw [Formulary.Numeral.readSign, if_neg not_sign]

end Lexicon

namespace Text

theorem trimStart_eq_self {text : Text} (no_space : ∀ byte ∈ text, ¬ isSpace byte) :
    trimStart text = text := by
  rw [trimStart, List.dropWhile_eq_self_iff]
  exact fun inside => no_space _ (List.getElem_mem inside)

end Text

/-- A numeral is read as a decimal, since it is no other word that stands for a number. -/
theorem Number.ofLeading_numeral {spelling : Text} (numeral : Lexicon.Numeral spelling) :
    ofLeading spelling =
      match Numeral.read? spelling with
      | some (numeral, _) => numeral.toDecimal.toNumber false
      | none => zero := by
  have plain byte (member : byte ∈ spelling) :=
    Lexicon.apart_of_numeralByte (numeral.bytes byte member)
  have no_nul := Text.beforeNul_eq_self fun byte member => (plain byte member).2.1
  have trimmed := Text.trimStart_eq_self fun byte member => (plain byte member).1
  have no_word {word : Text} (byte : UInt8) (member : byte ∈ word)
      (letter : byte = 110 ∨ byte = 120) : ¬ word.isPrefixOf spelling.toLower := by
    intro begins
    obtain ⟨not_n, not_x⟩ :=
      numeral.not_lower ((List.isPrefixOf_iff_prefix.mp begins).mem member)
    exact letter.elim not_n not_x
  rw [ofLeading, no_nul, trimmed, numeral.readSign_eq]
  simp only
  rw [if_neg (no_word 110 (by decide) (.inl rfl)), if_neg (no_word 110 (by decide) (.inl rfl))]
  exact if_neg (no_word 120 (by decide) (.inr rfl))

/-- The text of a number reads back as the number. -/
theorem Number.ofLeading_toText (magnitude : Magnitude) :
    ofLeading (toText (.finite false magnitude)) = .finite false magnitude := by
  obtain ⟨numeral, written, same⟩ := toText_written magnitude
  rw [ofLeading_numeral written.numeral, written.read?_eq]
  exact same

/-- Only the sign of what a decimal denotes depends on the sign that it is read with. -/
theorem Decimal.toNumber_eq_finite_iff {decimal : Decimal} {negative sign : Bool}
    {magnitude : Magnitude} :
    decimal.toNumber negative = .finite sign magnitude ↔
      negative = sign ∧ decimal.toNumber false = .finite false magnitude := by
  unfold toNumber
  split
  · simp
  · split
    · simp
    · unfold Number.ofQuotient
      dsimp only
      split <;> simp

/-- No numeral reads as a negative number. -/
theorem Number.ofLeading_sign {spelling : Text} (numeral : Lexicon.Numeral spelling)
    {negative : Bool} {magnitude : Magnitude}
    (finite : ofLeading spelling = .finite negative magnitude) : negative = false := by
  rw [ofLeading_numeral numeral] at finite
  split at finite
  · exact (Decimal.toNumber_eq_finite_iff.mp finite).1.symm
  · cases finite
    rfl

end Formulary
