import Formulary.Number.Rounding
import Formulary.Text.Digits

/-!
# Decimal numerals

A decimal is a coefficient and a power of ten.  Reading rounds its exact value once; writing takes
the exact decimal neighbours of a number and keeps the first that reads back, from one significant
digit to seventeen.
-/

namespace Formulary

/-- The value `coefficient * 10 ^ exponent`. -/
structure Decimal where
  /-- The digits, as one natural number. -/
  coefficient : Nat
  /-- The power of ten of the last digit. -/
  exponent : Int
  deriving DecidableEq

namespace Decimal

/--
The quotient of units that a decimal is worth: the power of ten goes above the line or, when it is
negative, below.
-/
def quotient (decimal : Decimal) : Nat × Nat :=
  match decimal.exponent with
  | .ofNat power => (decimal.coefficient * Nat.pow 10 power * Magnitude.one, 1)
  | .negSucc power => (decimal.coefficient * Magnitude.one, Nat.pow 10 (power + 1))

/-- The power of ten just above the leading digit; the value lies below it. -/
def topExponent (decimal : Decimal) : Int :=
  decimal.exponent + Text.digitCount decimal.coefficient

/--
The number nearest to a decimal.  Values from `10 ^ 309` upwards are infinite and values below
`10 ^ -324` are zero whatever their digits are, and no power of ten is computed for them.
-/
def toNumber (negative : Bool) (decimal : Decimal) : Number :=
  if decimal.coefficient = 0 || decimal.topExponent ≤ -324 then .finite negative .zero
  else if 309 < decimal.topExponent then .infinite negative
  else
    let (numerator, denominator) := decimal.quotient
    Number.ofQuotient negative numerator denominator

/-- The power of ten of the leading decimal digit of a magnitude that is not zero. -/
def leadingExponent (magnitude : Magnitude) : Int :=
  if Magnitude.one ≤ magnitude.units then
    (Text.digitCount (magnitude.units / Magnitude.one) : Int) - 1
  else
    -(Text.digitCount ((Magnitude.one - 1) / magnitude.units) : Int)

/-- The integer nearest to a magnitude divided by a power of ten; a half goes to the even one. -/
def scaleToNat (magnitude : Magnitude) : Int → Nat
  | .ofNat power => roundHalfEven magnitude.units (Magnitude.one * Nat.pow 10 power)
  | .negSucc power => roundHalfEven (magnitude.units * Nat.pow 10 (power + 1)) Magnitude.one

/--
The decimal of a given number of significant digits nearest to a magnitude.  Rounding up to the
next power of ten moves the point and leaves a one with zeros.
-/
def approximate (magnitude : Magnitude) (digits : Nat) : Decimal :=
  let exponent := leadingExponent magnitude - (digits : Int) + 1
  let coefficient := scaleToNat magnitude exponent
  if coefficient = Nat.pow 10 digits then ⟨Nat.pow 10 (digits - 1), exponent + 1⟩
  else ⟨coefficient, exponent⟩

/-- The decimal reads back as the magnitude. -/
def readsBack (magnitude : Magnitude) (decimal : Decimal) : Bool :=
  decimal.toNumber false == .finite false magnitude

/-- The first approximation of at least `digits` digits that reads back, seventeen being enough. -/
def shortestFrom (magnitude : Magnitude) : Nat → Nat → Decimal
  | 0, digits => approximate magnitude digits
  | more + 1, digits =>
      let decimal := approximate magnitude digits
      if readsBack magnitude decimal then decimal else shortestFrom magnitude more (digits + 1)

/-- The approximation of a magnitude with the fewest digits that reads back. -/
def shortest (magnitude : Magnitude) : Decimal :=
  shortestFrom magnitude 16 1

end Decimal
end Formulary
