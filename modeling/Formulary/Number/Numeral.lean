import Formulary.Number.Decimal

/-!
# Reading numerals

A decimal numeral is digits with at most one point among or beside them, and may end in an
exponent.  `Numeral.read?` splits the longest one off a text.  Two readers build on it:
`Number.ofText` is the coercion of a whole text and takes decimal numerals only, and
`Number.ofLeading` reads as much of the front of a text as is a numeral of any of the forms below.
-/

namespace Formulary

/-- The parts of a decimal numeral without a sign. -/
structure Numeral where
  /-- The digits in front of the point. -/
  whole : Text
  /-- The digits behind the point. -/
  fraction : Text
  /-- The power of ten. -/
  exponent : Int

namespace Numeral

/-- The decimal that a numeral denotes. -/
def toDecimal (numeral : Numeral) : Decimal where
  coefficient := Text.toNat (numeral.whole ++ numeral.fraction)
  exponent := numeral.exponent - numeral.fraction.length

/-- Splits a sign off a text: whether it is a minus, and the rest. -/
def readSign : Text → Bool × Text
  | [] => (false, [])
  | byte :: rest =>
      if Text.isSign byte then (byte == Text.minusSign, rest) else (false, byte :: rest)

/-- Splits off an exponent behind its mark; without digits there is none. -/
def readExponent (isMark : UInt8 → Bool) : Text → Int × Text
  | [] => (0, [])
  | mark :: rest =>
      if isMark mark then
        let (negative, after) := readSign rest
        let digits := after.takeWhile Text.isDigit
        if digits.isEmpty then (0, mark :: rest)
        else
          let value : Int := Text.toNat digits
          (if negative then -value else value, after.dropWhile Text.isDigit)
      else (0, mark :: rest)

/-- Splits off a point and the digits behind it, which may be none. -/
def readFraction (isDigit : UInt8 → Bool) : Text → Text × Text
  | [] => ([], [])
  | byte :: rest =>
      if byte = Text.dot then (rest.takeWhile isDigit, rest.dropWhile isDigit)
      else ([], byte :: rest)

/-- Splits the longest decimal numeral off a text. -/
def read? (text : Text) : Option (Numeral × Text) :=
  let whole := text.takeWhile Text.isDigit
  let (fraction, afterFraction) := readFraction Text.isDigit (text.dropWhile Text.isDigit)
  if whole.isEmpty && fraction.isEmpty then none
  else
    let (exponent, rest) := readExponent Text.isExponentMark afterFraction
    some (⟨whole, fraction, exponent⟩, rest)

/-- The letters `p` and `P`, which mark a power of two. -/
def isBinaryMark (byte : UInt8) : Bool :=
  byte == 112 || byte == 80

/-- The value of a text of hexadecimal digits. -/
def hexToNat (digits : Text) : Nat :=
  digits.foldl (fun value byte => 16 * value + (Text.hexValue? byte).getD 0) 0

/-- The number nearest to `coefficient * 2 ^ exponent`. -/
def binaryToNumber (negative : Bool) (coefficient : Nat) (exponent : Int) : Number :=
  let top := exponent + coefficient.log2
  if coefficient = 0 || top < -1080 then .finite negative .zero
  else if 1024 ≤ top then .infinite negative
  else
    match exponent with
    | .ofNat power => Number.ofQuotient negative (coefficient * Nat.pow 2 power * Magnitude.one) 1
    | .negSucc power =>
        Number.ofQuotient negative (coefficient * Magnitude.one) (Nat.pow 2 (power + 1))

/--
The number of the hexadecimal numeral that follows `0x`: digits with at most one point, and a
power of two in decimal.  Without any digit the numeral is the zero in front of the `x`.
-/
def readHex (negative : Bool) (text : Text) : Number :=
  let whole := text.takeWhile Text.isHexDigit
  let (fraction, afterFraction) := readFraction Text.isHexDigit (text.dropWhile Text.isHexDigit)
  let (exponent, _) := readExponent isBinaryMark afterFraction
  binaryToNumber negative (hexToNat (whole ++ fraction)) (exponent - 4 * fraction.length)

end Numeral

namespace Number

/--
The number that a whole text denotes.  Spaces at both ends do not count; no text at all is zero;
the infinities are written out; a decimal numeral may carry a sign and ends at the end of the text
or at a NUL byte; anything else is a NaN.
-/
def ofText (text : Text) : Number :=
  let word := text.trim
  if word.isEmpty then zero
  else if word = Text.ascii "Infinity" || word = Text.ascii "+Infinity" then .infinite false
  else if word = Text.ascii "-Infinity" then .infinite true
  else if word.any fun byte => Text.isLetter byte && !Text.isExponentMark byte then .nan
  else
    let (negative, unsigned) := Numeral.readSign word.beforeNul
    match Numeral.read? unsigned with
    | some (numeral, []) => numeral.toDecimal.toNumber negative
    | _ => .nan

/--
The number of the longest numeral at the front of a text, behind spaces and a sign: a word for
infinity or a NaN in letters of either case, a hexadecimal numeral, or a decimal one.  A text that
begins with none is zero.
-/
def ofLeading (text : Text) : Number :=
  let (negative, unsigned) := Numeral.readSign text.beforeNul.trimStart
  let small := unsigned.toLower
  if (Text.ascii "inf").isPrefixOf small then .infinite negative
  else if (Text.ascii "nan").isPrefixOf small then .nan
  else if (Text.ascii "0x").isPrefixOf small then Numeral.readHex negative (unsigned.drop 2)
  else
    match Numeral.read? unsigned with
    | some (numeral, _) => numeral.toDecimal.toNumber negative
    | none => zero

end Number
end Formulary
