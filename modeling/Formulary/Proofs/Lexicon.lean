import Formulary.Token.Lexeme

/-!
# The lexicon

Lexemes are described by their spelling alone: numbers, words, strings between quotes and operators.
Of all the lexemes with which a text begins, the longest one counts.
-/

namespace Formulary
namespace Lexicon

/-- Nothing but digits, and at least one. -/
def Digits (spelling : Text) : Prop :=
  spelling ≠ [] ∧ ∀ byte ∈ spelling, Text.isDigit byte

/-- A number without an exponent. -/
inductive Mantissa : Text → Prop where
  | whole {digits} (whole : Digits digits) : Mantissa digits
  | fractional {digits fraction} (whole : Digits digits) (part : Digits fraction) :
      Mantissa (digits ++ Text.dot :: fraction)
  | pointed {fraction} (part : Digits fraction) : Mantissa (Text.dot :: fraction)

/-- The exponent of a number, which may be missing. -/
inductive Exponent : Text → Prop where
  | none : Exponent []
  | unsigned {mark digits} (marks : Text.isExponentMark mark) (power : Digits digits) :
      Exponent (mark :: digits)
  | signed {mark sign digits} (marks : Text.isExponentMark mark) (signs : Text.isSign sign)
      (power : Digits digits) : Exponent (mark :: sign :: digits)

/-- A number is spelled by a mantissa with an exponent. -/
def Numeral (spelling : Text) : Prop :=
  ∃ mantissa exponent, spelling = mantissa ++ exponent ∧ Mantissa mantissa ∧ Exponent exponent

/-- The bytes may stand between two quotes, and denote the value there. -/
inductive Body (quote : UInt8) : Text → Text → Prop where
  | empty : Body quote [] []
  | plain {byte rest value} (not_quote : byte ≠ quote) (not_backslash : byte ≠ Text.backslash)
      (more : Body quote rest value) : Body quote (byte :: rest) (byte :: value)
  | escaped {byte rest value} (not_unicode : byte ≠ Lexeme.unicodeMark)
      (more : Body quote rest value) :
      Body quote (Text.backslash :: byte :: rest) (Lexeme.unescape byte :: value)
  | unicode {a b c d unit rest value} (digits : Lexeme.codeUnit? a b c d = some unit)
      (more : Body quote rest value) :
      Body quote (Text.backslash :: Lexeme.unicodeMark :: a :: b :: c :: d :: rest)
        (Text.Utf8.encodeUnit unit ++ value)

/-- The bytes spell a lexeme of a kind with a value. -/
inductive Spells : TokenKind → Text → Text → Prop where
  | number {spelling} (numeral : Numeral spelling) : Spells .number spelling spelling
  | word {first rest} (starts : Lexeme.isWordStart first)
      (parts : ∀ byte ∈ rest, Lexeme.isWordPart byte) :
      Spells (Lexeme.wordKind (first :: rest)) (first :: rest) (first :: rest)
  | doubleQuoted {body value} (inside : Body Text.doubleQuote body value) :
      Spells .doubleQuoted (Text.doubleQuote :: (body ++ [Text.doubleQuote])) value
  | singleQuoted {body value} (inside : Body Text.singleQuote body value) :
      Spells .singleQuoted (Text.singleQuote :: (body ++ [Text.singleQuote])) value
  | operator {kind spelling} (listed : (spelling, kind) ∈ Lexeme.operators) :
      Spells kind spelling spelling

/-- No lexeme at the front of the text is longer than this one. -/
structure Longest (text : Text) (kind : TokenKind) (spelling value : Text) : Prop where
  spells : Spells kind spelling value
  begins : spelling <+: text
  longest {kind other value} (also : Spells kind other value) (begins : other <+: text) :
    other.length ≤ spelling.length

end Lexicon
end Formulary
