import Formulary.Text.Basic

/-!
# Decimal texts of integers

`Text.ofNat` writes a natural number without leading zeros, and `Text.toNat` is the value of a
text of digits.
-/

namespace Formulary
namespace Text

/-- The byte of one decimal digit. -/
def digit (value : Nat) : UInt8 :=
  UInt8.ofNat (48 + value)

/-- The value of one decimal digit. -/
def digitValue (byte : UInt8) : Nat :=
  byte.toNat - 48

/-- The decimal text of a natural number, without leading zeros. -/
def ofNat (n : Nat) : Text :=
  if n < 10 then [digit n] else ofNat (n / 10) ++ [digit (n % 10)]

/-- The decimal text of an integer. -/
def ofInt : Int → Text
  | .ofNat n => ofNat n
  | .negSucc n => ascii "-" ++ ofNat (n + 1)

/-- The value of a text of digits; the empty text is zero. -/
def toNat (digits : Text) : Nat :=
  digits.foldl (fun value byte => 10 * value + digitValue byte) 0

/-- How many decimal digits a number has; zero has none. -/
def digitCount (n : Nat) : Nat :=
  if n = 0 then 0 else digitCount (n / 10) + 1

end Text
end Formulary
