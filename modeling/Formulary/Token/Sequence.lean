import Formulary.SyntaxError

/-!
# Token sequences

The tokens of a text are its lexemes in order, each with its place, and an end of input behind
them.  Spaces separate lexemes and belong to none, and a byte order mark in front of the text
counts as three columns and nothing else.
-/

namespace Formulary

/-- A line and a column, counted in bytes from one. -/
structure Position where
  line : Int
  column : Int
  deriving DecidableEq

namespace Position

/-- The position behind a byte. -/
def after (position : Position) (byte : UInt8) : Position :=
  if byte = Text.newline then ⟨position.line + 1, 1⟩
  else ⟨position.line, position.column + 1⟩

/-- The position behind a text. -/
def afterText (position : Position) (text : Text) : Position :=
  text.foldl after position

/-- The location of some bytes from a position on. -/
def locate (position : Position) (file : Text) (length : Nat) : Location :=
  ⟨file, position.line, position.column, length⟩

end Position

namespace Token

/-- The bytes that may stand in front of a text to name its encoding. -/
def byteOrderMark : Text := [0xEF, 0xBB, 0xBF]

/-- The name of a file in locations. -/
def fileName (file : Text) : Text :=
  if file.isEmpty then Text.ascii "<expr>" else file

/-- The token of a lexeme that begins at a position. -/
def ofLexeme (file : Text) (position : Position) (lexeme : Lexeme) : Token :=
  ⟨lexeme.kind, lexeme.value, position.locate file lexeme.width⟩

/-- The token behind the last lexeme. -/
def endOfInput (file : Text) (position : Position) : Token :=
  ⟨.endOfInput, [], position.locate file 0⟩

/--
The tokens from a position on.  `pending` counts the bytes that still belong to the lexeme read
last.
-/
def sequenceFrom (file : Text) : Nat → Position → Text → Except SyntaxError (List Token)
  | _, position, [] => .ok [endOfInput file position]
  | pending + 1, position, byte :: rest =>
      sequenceFrom file pending (position.after byte) rest
  | 0, position, byte :: rest =>
      if Text.isSpace byte then sequenceFrom file 0 (position.after byte) rest
      else
        match Lexeme.scan byte rest with
        | .ok lexeme =>
            (ofLexeme file position lexeme :: ·) <$>
              sequenceFrom file (lexeme.width - 1) (position.after byte) rest
        | .error failure =>
            .error
              { fault := .lexical failure.fault
                location :=
                  (position.afterText ((byte :: rest).take failure.offset)).locate file 1 }

/-- The tokens of a text whose first line has the number `firstLine` in its file. -/
def sequence (file : Text) (firstLine : Int) (text : Text) : Except SyntaxError (List Token) :=
  let start : Position := ⟨firstLine, 1⟩
  let file := fileName file
  if byteOrderMark.isPrefixOf text then
    sequenceFrom file 0 (start.afterText byteOrderMark) (text.drop byteOrderMark.length)
  else sequenceFrom file 0 start text

end Token
end Formulary
