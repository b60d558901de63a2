import Formulary.Number.Rounding

/-!
# Bit patterns

The interchange form of a number is a sign bit, eleven bits of exponent and 52 bits of fraction.
An exponent of zero marks the magnitudes below `2 ^ 52` units; an exponent of all ones marks the
infinities and, with a fraction, every NaN.
-/

namespace Formulary
namespace Number

/-- The bits of an exponent and a fraction under a sign. -/
def pack (negative : Bool) (exponent fraction : Nat) : Nat :=
  (if negative then Nat.pow 2 63 else 0) + exponent * Nat.pow 2 52 + fraction

/-- The bit pattern of a number; every NaN has the same one. -/
def toBits : Number → Nat
  | .nan => pack false 2047 (Nat.pow 2 51)
  | .infinite negative => pack negative 2047 0
  | .finite negative magnitude =>
      let shift := magnitude.units.log2 - 52
      if magnitude.units < Nat.pow 2 52 then pack negative 0 magnitude.units
      else pack negative (shift + 1) (magnitude.units / Nat.pow 2 shift - Nat.pow 2 52)

/-- The number of a bit pattern. -/
def ofBits (bits : Nat) : Number :=
  let negative := bits / Nat.pow 2 63 % 2 == 1
  let exponent := bits / Nat.pow 2 52 % Nat.pow 2 11
  let fraction := bits % Nat.pow 2 52
  if exponent = 2047 then
    if fraction = 0 then .infinite negative else .nan
  else if exponent = 0 then ofUnits negative fraction
  else ofUnits negative ((Nat.pow 2 52 + fraction) * Nat.pow 2 (exponent - 1))

/-- The power of two numbers, which the platform's mathematics library computes. -/
def pow (x y : Number) : Number :=
  let base := Float.ofBits (UInt64.ofNat x.toBits)
  let exponent := Float.ofBits (UInt64.ofNat y.toBits)
  ofBits (Float.pow base exponent).toBits.toNat

end Number
end Formulary
