import Formulary.Number.Rounding

/-!
# Arithmetic

Each operation takes the exact result and rounds it once.  An operation that has no result is a
NaN; a division of a non-zero number by zero is infinite.
-/

namespace Formulary
namespace Number

/-- The number nearest to a signed count of units; no units are positive zero. -/
def ofSignedUnits (units : Int) : Number :=
  ofUnits (decide (units < 0)) units.natAbs

/-- The number nearest to an integer. -/
def ofInt (n : Int) : Number :=
  ofSignedUnits (n * Magnitude.one)

/-- Addition.  A sum of zeros is negative only if both are. -/
def add : Number → Number → Number
  | .nan, _ => .nan
  | _, .nan => .nan
  | .infinite s, .infinite t => if s = t then .infinite s else .nan
  | .infinite s, .finite _ _ => .infinite s
  | .finite _ _, .infinite t => .infinite t
  | .finite s a, .finite t b =>
      let sum := signedUnits s a.units + signedUnits t b.units
      if sum = 0 then .finite (s && t) .zero else ofSignedUnits sum

/-- Subtraction. -/
def sub (x y : Number) : Number :=
  add x y.neg

/-- Multiplication. -/
def mul : Number → Number → Number
  | .nan, _ => .nan
  | _, .nan => .nan
  | .infinite s, .infinite t => .infinite (s != t)
  | .infinite s, .finite t b => if b.units = 0 then .nan else .infinite (s != t)
  | .finite s a, .infinite t => if a.units = 0 then .nan else .infinite (s != t)
  | .finite s a, .finite t b => ofQuotient (s != t) (a.units * b.units) Magnitude.one

/-- Division. -/
def div : Number → Number → Number
  | .nan, _ => .nan
  | _, .nan => .nan
  | .infinite _, .infinite _ => .nan
  | .infinite s, .finite t _ => .infinite (s != t)
  | .finite s _, .infinite t => .finite (s != t) .zero
  | .finite s a, .finite t b =>
      if b.units = 0 then
        if a.units = 0 then .nan else .infinite (s != t)
      else ofQuotient (s != t) (a.units * Magnitude.one) b.units

/-- The remainder of the division truncated toward zero, with the sign of the dividend. -/
def mod : Number → Number → Number
  | .nan, _ => .nan
  | _, .nan => .nan
  | .infinite _, _ => .nan
  | .finite s a, .infinite _ => .finite s a
  | .finite s a, .finite _ b =>
      if b.units = 0 then .nan else ofUnits s (a.units % b.units)

/-- The greatest integer that is not above the number. -/
def floor : Number → Number
  | .nan => .nan
  | .infinite negative => .infinite negative
  | .finite false magnitude => ofUnits false (magnitude.units / Magnitude.one * Magnitude.one)
  | .finite true magnitude =>
      ofUnits true ((magnitude.units + (Magnitude.one - 1)) / Magnitude.one * Magnitude.one)

/-- The least integer that is not below the number. -/
def ceil (x : Number) : Number :=
  x.neg.floor.neg

/--
The integer nearest to the number; a half goes up.  What the number exceeds its floor by is
compared with one half, so that no sum is rounded before the comparison.
-/
def round (x : Number) : Number :=
  if x.isFinite then
    let down := x.floor
    if half.atMost (x.sub down) then down.add (ofNat 1) else down
  else x

/-- The largest number of at most `bits` more binary digits whose square is within `n`. -/
def floorSqrtFrom (n : Nat) : Nat → Nat → Nat
  | 0, root => root
  | bits + 1, root =>
      let candidate := root + Nat.pow 2 bits
      floorSqrtFrom n bits (if candidate * candidate ≤ n then candidate else root)

/-- The integer part of a square root. -/
def floorSqrt (n : Nat) : Nat :=
  floorSqrtFrom n (n.log2 / 2 + 1) 0

/--
The square root.  The root of the units is far longer than 53 digits, so that standing halfway
between two integers for everything between them leaves the rounding unchanged.
-/
def sqrt : Number → Number
  | .nan => .nan
  | .infinite false => .infinite false
  | .infinite true => .nan
  | .finite negative magnitude =>
      if magnitude.units = 0 then .finite negative magnitude
      else if negative then .nan
      else
        let scaled := magnitude.units * Magnitude.one
        let root := floorSqrt scaled
        ofQuotient false (if root * root = scaled then 2 * root else 2 * root + 1) 2

/-- The lesser of two numbers, of which the first is kept unless the second is below it. -/
def min (x y : Number) : Number :=
  if y.lessThan x then y else x

/-- The greater of two numbers, of which the first is kept unless the second is above it. -/
def max (x y : Number) : Number :=
  if x.lessThan y then y else x

end Number
end Formulary
