import Formulary.Token.Basic
import Formulary.Text.Utf8

/-!
# Lexemes

`Lexeme.scan` finds the lexeme at the front of a text: the longest number, word, quoted string or
operator that begins there.  A lexeme knows its width, so that the bytes it stands on are a prefix
of the text.
-/

namespace Formulary

/-- What can be wrong with a text that is no sequence of lexemes. -/
inductive LexicalFault where
  /-- No lexeme begins with this byte. -/
  | unexpectedByte (byte : UInt8)
  /-- A quoted string has no end. -/
  | unterminatedString
  /-- Fewer than four hexadecimal digits follow `\u`. -/
  | invalidUnicodeEscape
  deriving DecidableEq

/-- A lexeme: its kind, what it denotes and how many bytes it stands on. -/
structure Lexeme where
  kind : TokenKind
  value : Text
  width : Nat
  deriving DecidableEq

namespace Lexeme

/-- The fault of a text without a lexeme at its front, and how far into the text it lies. -/
structure Failure where
  fault : LexicalFault
  offset : Nat
  deriving DecidableEq

/-- Words begin with a letter, an underscore or a dollar sign. -/
def isWordStart (byte : UInt8) : Bool :=
  Text.isLetter byte || byte == 95 || byte == 36

/-- Words go on with the same bytes and digits. -/
def isWordPart (byte : UInt8) : Bool :=
  isWordStart byte || Text.isDigit byte

/-- The text begins with a digit. -/
def startsWithDigit : Text → Bool
  | [] => false
  | byte :: _ => Text.isDigit byte

/-- The width of a point and the digits behind it, of which there must be one. -/
def fractionWidth : Text → Nat
  | [] => 0
  | byte :: rest =>
      if byte = Text.dot && startsWithDigit rest then 1 + (rest.takeWhile Text.isDigit).length
      else 0

/-- The width of an exponent: a mark, a sign that may be missing, and at least one digit. -/
def exponentWidth : Text → Nat
  | [] => 0
  | mark :: rest =>
      let signWidth := (rest.take 1 |>.takeWhile Text.isSign).length
      let digits := (rest.drop signWidth).takeWhile Text.isDigit
      if Text.isExponentMark mark && !digits.isEmpty then 1 + signWidth + digits.length
      else 0

/-- The width of the number at the front of a text. -/
def numberWidth (text : Text) : Nat :=
  let whole := (text.takeWhile Text.isDigit).length
  let fraction := fractionWidth (text.drop whole)
  whole + fraction + exponentWidth (text.drop (whole + fraction))

/-- The number at the front of a text. -/
def number (text : Text) : Lexeme where
  kind := .number
  value := text.take (numberWidth text)
  width := numberWidth text

/-- The kind of a word. -/
def wordKind (word : Text) : TokenKind :=
  if word = Text.ascii "true" || word = Text.ascii "false" then .boolean
  else if word = Text.ascii "null" then .null
  else .identifier

/-- The word at the front of a text. -/
def word (text : Text) : Lexeme :=
  let value := text.takeWhile isWordPart
  ⟨wordKind value, value, value.length⟩

/-- What `n`, `t`, `r` and `0` stand for behind a backslash. -/
def escapes : List (UInt8 × UInt8) :=
  [(110, Text.newline), (116, Text.tab), (114, Text.carriageReturn), (48, Text.nul)]

/-- The byte that a byte stands for behind a backslash; most stand for themselves. -/
def unescape (byte : UInt8) : UInt8 :=
  (escapes.lookup byte).getD byte

/-- The letter `u`, behind which a code unit is written in hexadecimal. -/
def unicodeMark : UInt8 := 117

/-- The value of four hexadecimal digits. -/
def codeUnit? (a b c d : UInt8) : Option Nat := do
  let a ← Text.hexValue? a
  let b ← Text.hexValue? b
  let c ← Text.hexValue? c
  let d ← Text.hexValue? d
  return ((a * 16 + b) * 16 + c) * 16 + d

/-- What a string body denotes when more bytes stand in front of it. -/
def prepend (bytes : Text) (body : Text × Nat) : Text × Nat :=
  (bytes ++ body.1, body.2)

/--
Reads a string body up to its closing quote.  `offset` is how far the body has been read; the
result is what the rest denotes and the offset behind the quote.
-/
def quotedBody (quote : UInt8) : Nat → Text → Except Failure (Text × Nat)
  | _, [] => .error ⟨.unterminatedString, 0⟩
  | offset, byte :: rest =>
      if byte = quote then .ok ([], offset + 1)
      else if byte = Text.backslash then
        match rest with
        | [] => .error ⟨.unterminatedString, 0⟩
        | escaped :: rest =>
            if escaped = unicodeMark then
              match rest with
              | a :: b :: c :: d :: rest' =>
                  match codeUnit? a b c d with
                  | some unit =>
                      prepend (Text.Utf8.encodeUnit unit) <$> quotedBody quote (offset + 6) rest'
                  | none =>
                      .error
                        ⟨.invalidUnicodeEscape,
                          offset + 2 + (rest.takeWhile Text.isHexDigit).length⟩
              | _ =>
                  .error
                    ⟨.invalidUnicodeEscape,
                      offset + 2 + (rest.takeWhile Text.isHexDigit).length⟩
            else prepend [unescape escaped] <$> quotedBody quote (offset + 2) rest
      else prepend [byte] <$> quotedBody quote (offset + 1) rest

/-- The quoted string whose opening quote stands in front of a text. -/
def quoted (quote : UInt8) (rest : Text) : Except Failure Lexeme :=
  (quotedBody quote 1 rest).map fun (value, width) =>
    ⟨if quote = Text.doubleQuote then .doubleQuoted else .singleQuoted, value, width⟩

/-- The spellings of the operators, longer ones first. -/
def operators : List (Text × TokenKind) :=
  [(Text.ascii "===", .strictEqual), (Text.ascii "!==", .strictNotEqual),
    (Text.ascii ">=", .greaterOrEqual), (Text.ascii "<=", .lessOrEqual),
    (Text.ascii "&&", .and), (Text.ascii "||", .or),
    (Text.ascii "==", .looseEqual), (Text.ascii "!=", .looseNotEqual),
    (Text.ascii "+", .plus), (Text.ascii "-", .minus), (Text.ascii "*", .star),
    (Text.ascii "/", .slash), (Text.ascii "%", .percent), (Text.ascii ">", .greater),
    (Text.ascii "<", .less), (Text.ascii "!", .not), (Text.ascii "(", .openParenthesis),
    (Text.ascii ")", .closeParenthesis), (Text.ascii "[", .openBracket),
    (Text.ascii "]", .closeBracket), (Text.ascii ".", .dot), (Text.ascii ",", .comma),
    (Text.ascii "?", .questionMark), (Text.ascii ":", .colon), (Text.ascii "@", .atSign)]

/-- The operator at the front of a text. -/
def operator? (text : Text) : Option Lexeme :=
  (operators.find? fun entry => entry.1.isPrefixOf text).map fun (spelling, kind) =>
    ⟨kind, spelling, spelling.length⟩

/-- The lexeme at the front of the text `first :: rest`. -/
def scan (first : UInt8) (rest : Text) : Except Failure Lexeme :=
  if Text.isDigit first || (first = Text.dot && startsWithDigit rest) then
    .ok (number (first :: rest))
  else if isWordStart first then .ok (word (first :: rest))
  else if first = Text.doubleQuote || first = Text.singleQuote then quoted first rest
  else
    match operator? (first :: rest) with
    | some lexeme => .ok lexeme
    | none => .error ⟨.unexpectedByte first, 0⟩

end Lexeme
end Formulary
