import Formulary.Number.Decimal

/-!
# Number text

The shortest decimal of a number is written positionally while its point stands within 21 digits
to the left or its first digit within six places to the right, and with a power of ten otherwise.
Zeros at the end of the digits are never significant.
-/

namespace Formulary

namespace Text

/-- The text without its zeros at the end; one digit always stays. -/
def stripZeros (digits : Text) : Text :=
  match (digits.reverse.dropWhile (· == zeroDigit)).reverse with
  | [] => digits.take 1
  | kept => kept

end Text

/-- Significant digits and the place of the decimal point, counted from the first digit. -/
structure Significand where
  /-- The digits, without zeros at the end. -/
  digits : Text
  /-- How many digits stand in front of the point; negative counts zeros behind it. -/
  point : Int

namespace Significand

/-- The digits of a decimal and the place of its point. -/
def ofDecimal (decimal : Decimal) : Significand where
  digits := (Text.ofNat decimal.coefficient).stripZeros
  point := decimal.topExponent

/-- A run of zeros. -/
def zeros (count : Nat) : Text :=
  List.replicate count Text.zeroDigit

/-- The exponent mark, the sign and the digits of a power of ten. -/
def exponentText (exponent : Int) : Text :=
  (if 0 ≤ exponent then Text.ascii "e+" else Text.ascii "e-") ++ Text.ofNat exponent.natAbs

/-- The written form of digits and their point. -/
def layout (significand : Significand) : Text :=
  let digits := significand.digits
  let point := significand.point
  if (digits.length : Int) ≤ point ∧ point ≤ 21 then
    digits ++ zeros (point.toNat - digits.length)
  else if 0 < point ∧ point ≤ 21 then
    digits.take point.toNat ++ Text.ascii "." ++ digits.drop point.toNat
  else if -6 < point ∧ point ≤ 0 then
    Text.ascii "0." ++ zeros point.natAbs ++ digits
  else
    digits.take 1 ++ (if 1 < digits.length then Text.ascii "." ++ digits.drop 1 else []) ++
      exponentText (point - 1)

end Significand

namespace Number

/-- The text of a number.  Both zeros are `0`. -/
def toText : Number → Text
  | .nan => Text.ascii "NaN"
  | .infinite negative => Text.ascii (if negative then "-Infinity" else "Infinity")
  | .finite negative magnitude =>
      if magnitude.units = 0 then Text.ascii "0"
      else
        (if negative then Text.ascii "-" else []) ++
          (Significand.ofDecimal (Decimal.shortest magnitude)).layout

end Number
end Formulary
