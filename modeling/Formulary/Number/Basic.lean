/-!
# Numbers

The numbers of a formula are the values of the 64-bit binary floating-point format.  A finite
number is a sign and a magnitude, and a magnitude counts units of `2 ^ -1074`, the smallest
positive number.  The representable magnitudes are those with at most 53 significant binary
digits, below `2 ^ 1024`; both conditions are part of the type.
-/

namespace Formulary

namespace Magnitude

/-- The distance between neighbouring representable magnitudes from `units` upwards. -/
def spacing (units : Nat) : Nat :=
  Nat.pow 2 (units.log2 - 52)

/-- The units of `2 ^ 1024`, which no finite magnitude reaches. -/
def limit : Nat :=
  Nat.pow 2 2098

/-- The units of the number one. -/
def one : Nat :=
  Nat.pow 2 1074

end Magnitude

/-- A representable magnitude, in units of `2 ^ -1074`. -/
structure Magnitude where
  /-- How many units it is worth. -/
  units : Nat
  /-- At most 53 binary digits are significant. -/
  spaced : Magnitude.spacing units ∣ units
  /-- It lies below the limit of the format. -/
  bounded : units < Magnitude.limit
  deriving DecidableEq

namespace Magnitude

theorem limit_pos : 0 < limit := by decide +kernel

theorem one_pos : 0 < one := by decide +kernel

theorem spacing_pos (units : Nat) : 0 < spacing units := Nat.two_pow_pos _

/-- The magnitude of zero. -/
def zero : Magnitude where
  units := 0
  spaced := Nat.dvd_zero _
  bounded := limit_pos

end Magnitude

/-- A number of the 64-bit binary floating-point format. -/
inductive Number where
  /-- The result of an operation that has none. -/
  | nan
  /-- One of the two infinities. -/
  | infinite (negative : Bool)
  /-- A finite number; zero has both signs. -/
  | finite (negative : Bool) (magnitude : Magnitude)
  deriving DecidableEq

namespace Number

/-- Positive zero. -/
def zero : Number := .finite false .zero

/-- The number is not a number. -/
def isNaN : Number → Bool
  | .nan => true
  | _ => false

/-- The number is neither infinite nor a NaN. -/
def isFinite : Number → Bool
  | .finite _ _ => true
  | _ => false

/-- A count of units with a sign. -/
def signedUnits (negative : Bool) (units : Nat) : Int :=
  if negative then -(units : Int) else units

/--
The place of a number on the number line, in units.  The infinities stand at the limit that no
finite number reaches, both zeros at the origin, and a NaN stands nowhere.
-/
def place? : Number → Option Int
  | .nan => none
  | .infinite negative => some (signedUnits negative Magnitude.limit)
  | .finite negative magnitude => some (signedUnits negative magnitude.units)

/-- A comparison of two places; a NaN compares with nothing. -/
def comparePlaces (test : Int → Int → Bool) (x y : Number) : Bool :=
  match x.place?, y.place? with
  | some a, some b => test a b
  | _, _ => false

/-- Numeric equality, which identifies the two zeros and tells a NaN from itself. -/
def equals : Number → Number → Bool :=
  comparePlaces fun a b => decide (a = b)

/-- Numeric order. -/
def lessThan : Number → Number → Bool :=
  comparePlaces fun a b => decide (a < b)

/-- Numeric order or equality. -/
def atMost : Number → Number → Bool :=
  comparePlaces fun a b => decide (a ≤ b)

/-- The number of opposite sign. -/
def neg : Number → Number
  | .nan => .nan
  | .infinite negative => .infinite !negative
  | .finite negative magnitude => .finite (!negative) magnitude

/-- The number without its sign. -/
def abs : Number → Number
  | .nan => .nan
  | .infinite _ => .infinite false
  | .finite _ magnitude => .finite false magnitude

end Number
end Formulary
