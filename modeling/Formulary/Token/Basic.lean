import Formulary.Text.Digits

/-!
# Tokens

A token is a kind, a value and the place where it stands.  The value of a string token is what the
literal denotes; every other token's value is its spelling.
-/

namespace Formulary

/-- The kinds of token. -/
inductive TokenKind where
  | identifier
  | number
  | doubleQuoted
  | singleQuoted
  | boolean
  | null
  | comma
  | openParenthesis
  | closeParenthesis
  | openBracket
  | closeBracket
  | colon
  | questionMark
  | dot
  | atSign
  | plus
  | minus
  | star
  | slash
  | percent
  | and
  | or
  | not
  | greater
  | greaterOrEqual
  | less
  | lessOrEqual
  | looseEqual
  | looseNotEqual
  | strictEqual
  | strictNotEqual
  | endOfInput
  | unknown
  deriving DecidableEq

namespace TokenKind

/-- The name of a kind in a token listing. -/
def name : TokenKind → String
  | identifier => "IDENTIFIER"
  | number => "NUMBER"
  | doubleQuoted => "STRING"
  | singleQuoted => "SINGLE_QUOTED_STRING"
  | boolean => "BOOLEAN"
  | null => "NULL_LITERAL"
  | comma => "COMMA"
  | openParenthesis => "OPENPARENTHESIS"
  | closeParenthesis => "CLOSEPARENTHESIS"
  | openBracket => "OPENBRACKET"
  | closeBracket => "CLOSEBRACKET"
  | colon => "COLON"
  | questionMark => "QUESTIONMARK"
  | dot => "DOT"
  | atSign => "AT_SIGN"
  | plus => "PLUS"
  | minus => "MINUS"
  | star => "STAR"
  | slash => "SLASH"
  | percent => "PERCENT"
  | and => "AND"
  | or => "OR"
  | not => "NOT"
  | greater => "GREATERTHAN"
  | greaterOrEqual => "GREATEROREQUALTHAN"
  | less => "LESSTHAN"
  | lessOrEqual => "LESSOREQUALTHAN"
  | looseEqual => "EQUALITY"
  | looseNotEqual => "NOTEQUAL"
  | strictEqual => "STRICT_EQUALITY"
  | strictNotEqual => "STRICT_NOTEQUAL"
  | endOfInput => "EOF_TOKEN"
  | unknown => "UNKNOWN"

/-- All kinds of token. -/
def all : List TokenKind :=
  [identifier, number, doubleQuoted, singleQuoted, boolean, null, comma, openParenthesis,
    closeParenthesis, openBracket, closeBracket, colon, questionMark, dot, atSign, plus, minus,
    star, slash, percent, and, or, not, greater, greaterOrEqual, less, lessOrEqual, looseEqual,
    looseNotEqual, strictEqual, strictNotEqual, endOfInput, unknown]

/-- The kind of a name. -/
def ofName? (name : String) : Option TokenKind :=
  all.find? fun kind => kind.name == name

end TokenKind

/--
A stretch of a file: where it begins, in bytes counted from one, and how many bytes it has.  The
three numbers stand for integers of 32 bits, with which they agree for texts below `2 ^ 31` bytes.
-/
structure Location where
  file : Text
  line : Int
  column : Int
  length : Int
  deriving DecidableEq

namespace Location

/-- A location as `file:line:column`. -/
def toText (location : Location) : Text :=
  location.file ++ Text.ascii ":" ++ Text.ofInt location.line ++ Text.ascii ":" ++
    Text.ofInt location.column

end Location

/-- One token of a formula. -/
structure Token where
  kind : TokenKind
  /-- What the literal denotes, or the spelling. -/
  value : Text
  location : Location
  deriving DecidableEq

namespace Token

/-- The token of a node that was built without any text. -/
def none : Token where
  kind := .unknown
  value := []
  location := ⟨[], 1, 1, 0⟩

/-- What a parser sees behind a list of tokens that has no end of its own. -/
def pastEnd : Token where
  kind := .endOfInput
  value := []
  location := ⟨Text.ascii "<eof>", 0, 0, 0⟩

end Token
end Formulary
