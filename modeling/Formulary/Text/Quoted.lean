import Formulary.Text.Basic

/-!
# Escaped text

The form in which a text stands between double quotation marks: quotation marks and backslashes
carry a backslash, the three common control bytes have a letter, and every other byte below `0x20`
is `\u00` and two hexadecimal digits.  All other bytes stand for themselves.
-/

namespace Formulary
namespace Text

/-- One small hexadecimal digit. -/
def hexDigit (value : Nat) : UInt8 :=
  if value < 10 then UInt8.ofNat (48 + value) else UInt8.ofNat (87 + value)

/-- The escaped form of one byte. -/
def escapeByte (byte : UInt8) : Text :=
  if byte = doubleQuote || byte = backslash then [backslash, byte]
  else if byte = newline then ascii "\\n"
  else if byte = tab then ascii "\\t"
  else if byte = carriageReturn then ascii "\\r"
  else if byte < 32 then
    ascii "\\u00" ++ [hexDigit (byte.toNat / 16), hexDigit (byte.toNat % 16)]
  else [byte]

/-- The escaped form of a text. -/
def escape (text : Text) : Text :=
  text.flatMap escapeByte

/-- A text between double quotation marks, unescaped. -/
def quote (text : Text) : Text :=
  doubleQuote :: text ++ [doubleQuote]

end Text
end Formulary
