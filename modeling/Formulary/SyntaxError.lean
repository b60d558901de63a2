import Formulary.Source
import Formulary.Token.Lexeme

/-!
# Syntax errors

A syntax error is a cause and a location.  Its message names both and, if the source is at hand,
quotes the line.  A message ends at its first NUL byte, wherever that came from.
-/

namespace Formulary

/-- What a parser can miss or reject. -/
inductive GrammarFault where
  | expectedExpression
  | unexpectedToken
  | trailingToken
  | looseEquality
  | looseInequality
  | expectedColon
  | expectedPropertyName
  | expectedClosingBracket
  | expectedClosingParenthesis
  | expectedFunctionName
  /-- No opening parenthesis follows the name of a function. -/
  | expectedArguments (function : Text)
  /-- No closing parenthesis follows the arguments of a function. -/
  | expectedEndOfArguments (function : Text)
  deriving DecidableEq

/-- Why a text is no formula. -/
inductive SyntaxFault where
  | lexical (fault : LexicalFault)
  /-- The grammar has no place for the token that was found. -/
  | grammatical (fault : GrammarFault) (found : Token)
  deriving DecidableEq

/-- A syntax fault and where it is. -/
structure SyntaxError where
  fault : SyntaxFault
  location : Location
  deriving DecidableEq

namespace LexicalFault

/-- The message of a lexical fault. -/
def message : LexicalFault → Text
  | unexpectedByte byte => Text.ascii "Unexpected character '" ++ [byte] ++ Text.ascii "'"
  | unterminatedString => Text.ascii "Unterminated string literal"
  | invalidUnicodeEscape =>
      Text.ascii "Invalid unicode escape: expected 4 hex digits after \\u"

end LexicalFault

namespace GrammarFault

/-- The message of a grammar fault, before what was found. -/
def message : GrammarFault → Text
  | expectedExpression => Text.ascii "Expected an expression"
  | unexpectedToken => Text.ascii "Unexpected token"
  | trailingToken => Text.ascii "Unexpected token after expression"
  | looseEquality => Text.ascii "Use '===' for equality"
  | looseInequality => Text.ascii "Use '!==' for inequality"
  | expectedColon => Text.ascii "Expected ':' after conditional 'then' expression"
  | expectedPropertyName => Text.ascii "Expected property name after '.'"
  | expectedClosingBracket => Text.ascii "Expected ']' after index expression"
  | expectedClosingParenthesis => Text.ascii "Expected ')' after expression"
  | expectedFunctionName => Text.ascii "Expected function name after '@'"
  | expectedArguments function =>
      Text.ascii "Expected '(' after function name '" ++ function ++ Text.ascii "'"
  | expectedEndOfArguments function =>
      Text.ascii "Expected ')' after arguments to '" ++ function ++ Text.ascii "'"

end GrammarFault

namespace Token

/-- How a message names the token that was found. -/
def found (token : Token) : Text :=
  if token.kind = .endOfInput then Text.ascii "end of input"
  else Text.ascii "'" ++ token.value ++ Text.ascii "'"

end Token

namespace SyntaxFault

/-- The message of a syntax fault. -/
def message : SyntaxFault → Text
  | lexical fault => fault.message
  | grammatical fault found =>
      fault.message ++ Text.ascii " (found " ++ found.found ++ Text.ascii ")"

end SyntaxFault

namespace SyntaxError

/-- The line of an error with a caret under its column. -/
def trace (source : Option Source) (location : Location) : Text :=
  match source with
  | some source => source.excerpt location.line location.column
  | none => Text.ascii "(source context unavailable)"

/-- The located message of an error in a source. -/
def message (source : Option Source) (error : SyntaxError) : Text :=
  Text.beforeNul <|
    Text.ascii "SyntaxError at " ++ error.location.toText ++ Text.ascii "\n" ++
      error.fault.message ++ Text.ascii "\n --> Traced at:\n" ++ trace source error.location

end SyntaxError
end Formulary
