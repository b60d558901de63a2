import Formulary.Text.Basic

/-!
# UTF-8

Counting and indexing characters works on any text: a character is a byte that is no continuation
byte, together with the continuation bytes that follow it.  Continuation bytes in front of the
first character belong to none.  `Utf8.isValid` is the strict form of the encoding: shortest
sequences only, no surrogates, nothing above U+10FFFF.
-/

namespace Formulary
namespace Text

/-- Continuation bytes have the form `10xxxxxx`. -/
def isContinuation (byte : UInt8) : Bool :=
  128 ≤ byte && byte ≤ 191

/-- The characters of a text, in order. -/
def characters : Text → List Text
  | [] => []
  | byte :: rest =>
      if isContinuation byte then characters rest
      else (byte :: rest.takeWhile isContinuation) :: characters rest

/-- The number of characters of a text. -/
def characterCount (text : Text) : Nat :=
  text.countP fun byte => !isContinuation byte

/-- The character at an index, counted from zero. -/
def character? (text : Text) (index : Nat) : Option Text :=
  (characters text)[index]?

theorem length_characters (text : Text) : (characters text).length = characterCount text := by
  induction text with
  | nil => rfl
  | cons byte rest ih =>
      by_cases continuation : isContinuation byte
      · simp [characters, characterCount, continuation] at ih ⊢
        exact ih
      · simp [characters, characterCount, continuation] at ih ⊢
        exact ih

namespace Utf8

/-- The two bytes are a two-byte sequence. -/
def isPair (first second : UInt8) : Bool :=
  194 ≤ first && first ≤ 223 && isContinuation second

/-- The three bytes are a three-byte sequence, neither overlong nor a surrogate. -/
def isTriple (first second third : UInt8) : Bool :=
  224 ≤ first && first ≤ 239 && isContinuation second && isContinuation third &&
    (first != 224 || 160 ≤ second) && (first != 237 || second ≤ 159)

/-- The four bytes are a four-byte sequence, neither overlong nor above U+10FFFF. -/
def isQuadruple (first second third fourth : UInt8) : Bool :=
  240 ≤ first && first ≤ 244 && isContinuation second && isContinuation third &&
    isContinuation fourth && (first != 240 || 144 ≤ second) && (first != 244 || second ≤ 143)

/-- The text is a sequence of shortest-form encodings of scalar values. -/
def isValid : Text → Bool
  | [] => true
  | a :: rest =>
      if a < 128 then isValid rest
      else
        match rest with
        | [] => false
        | b :: rest =>
            if isPair a b then isValid rest
            else
              match rest with
              | [] => false
              | c :: rest =>
                  if isTriple a b c then isValid rest
                  else
                    match rest with
                    | [] => false
                    | d :: rest => isQuadruple a b c d && isValid rest

/--
The bytes of a 16-bit code unit taken as a code point.  Surrogates are encoded in three bytes like
their neighbours, although the strict form has no such sequence.
-/
def encodeUnit (unit : Nat) : Text :=
  if unit < 0x80 then [UInt8.ofNat unit]
  else if unit < 0x800 then [UInt8.ofNat (0xC0 + unit / 64), UInt8.ofNat (0x80 + unit % 64)]
  else
    [UInt8.ofNat (0xE0 + unit / 4096), UInt8.ofNat (0x80 + unit / 64 % 64),
      UInt8.ofNat (0x80 + unit % 64)]

end Utf8
end Text
end Formulary
