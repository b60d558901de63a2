import Formulary.Expr.Basic
import Formulary.Number.Numeral
import Formulary.SyntaxError

/-!
# Parsing

A formula is a conditional over chains of binary operators, from `||` down to `*`, over unary
operators, property accesses and primary expressions.  Each parser takes tokens from the front of
a list that holds no end of input and returns what it has left.  Nested expressions are read by a
parser that is passed in, and the depth of nesting is at most the number of tokens.
-/

namespace Formulary
namespace Expr

/-- A fault and the tokens in front of which it was noticed. -/
structure Stop where
  fault : GrammarFault
  rest : List Token

/-- A parser returns what it read and the tokens it left. -/
abbrev Parser (α : Type) := List Token → Except Stop (α × List Token)

/-- The levels of binary operators, from the loosest to the tightest. -/
inductive Level where
  | or
  | and
  | equality
  | comparison
  | additive
  | multiplicative
  deriving DecidableEq

namespace Level

/-- All levels, from the loosest to the tightest. -/
def all : List Level := [or, and, equality, comparison, additive, multiplicative]

/-- The operators of a level. -/
def joins : Level → TokenKind → Bool
  | or, kind => kind == .or
  | and, kind => kind == .and
  | equality, kind => kind == .strictEqual || kind == .strictNotEqual
  | comparison, kind =>
      kind == .greater || kind == .greaterOrEqual || kind == .less || kind == .lessOrEqual
  | additive, kind => kind == .plus || kind == .minus
  | multiplicative, kind => kind == .star || kind == .slash || kind == .percent

/-- Loose equality is no operator, and its level says what to write instead. -/
def rejects? : Level → TokenKind → Option GrammarFault
  | equality, .looseEqual => some .looseEquality
  | equality, .looseNotEqual => some .looseInequality
  | _, _ => none

end Level

/-- The operator of a token. -/
def operatorText (token : Token) : Text :=
  match token.kind with
  | .or => Text.ascii "||"
  | .and => Text.ascii "&&"
  | _ => token.value

/-- Takes a token of one kind. -/
def expect (kind : TokenKind) (fault : GrammarFault) : Parser Token
  | [] => .error ⟨fault, []⟩
  | token :: rest => if token.kind = kind then .ok (token, rest) else .error ⟨fault, token :: rest⟩

/-- The property name that a token is; the names of constants are property names too. -/
def propertyName? (token : Token) : Option Token :=
  match token.kind with
  | .identifier | .boolean | .null => some { token with kind := .identifier }
  | _ => none

/-- Takes a property name. -/
def property : Parser Expr
  | [] => .error ⟨.expectedPropertyName, []⟩
  | token :: rest =>
      match propertyName? token with
      | some name => .ok (.identifier name.value name, rest)
      | none => .error ⟨.expectedPropertyName, token :: rest⟩

/-- The accesses behind an expression, at most `fuel` of them. -/
def accesses (inner : Parser Expr) : Nat → Expr → Parser Expr
  | 0, node, tokens => .ok (node, tokens)
  | _, node, [] => .ok (node, [])
  | fuel + 1, node, token :: rest =>
      match token.kind with
      | .dot => do
          let (name, rest) ← property rest
          accesses inner fuel (.member node name false token) rest
      | .openBracket => do
          let (index, rest) ← inner rest
          let (_, rest) ← expect .closeBracket .expectedClosingBracket rest
          accesses inner fuel (.member node index true token) rest
      | _ => .ok (node, token :: rest)

/-- Arguments with commas between them, at least one and at most `fuel` of them. -/
def arguments (inner : Parser Expr) : Nat → Parser (List Expr)
  | 0, tokens => .error ⟨.expectedExpression, tokens⟩
  | fuel + 1, tokens => do
      let (first, rest) ← inner tokens
      match rest with
      | [] => .ok ([first], [])
      | token :: after =>
          if token.kind = .comma then do
            let (more, rest) ← arguments inner fuel after
            .ok (first :: more, rest)
          else .ok ([first], token :: after)

/-- The call whose `@` has been taken. -/
def functionCall (inner : Parser Expr) (sign : Token) : Parser Expr := fun tokens => do
  let (name, rest) ← expect .identifier .expectedFunctionName tokens
  let (_, rest) ← expect .openParenthesis (.expectedArguments name.value) rest
  let (values, rest) ←
    match rest with
    | token :: _ =>
        if token.kind = .closeParenthesis then .ok ([], rest)
        else arguments inner rest.length rest
    | [] => arguments inner rest.length rest
  let (_, rest) ← expect .closeParenthesis (.expectedEndOfArguments name.value) rest
  .ok (.call name.value values sign, rest)

/-- What the tokens of a literal denote. -/
def literal? (token : Token) : Option Literal :=
  match token.kind with
  | .number => some (.number (Number.ofLeading token.value))
  | .doubleQuoted => some (.text token.value)
  | .singleQuoted => some (.text token.value)
  | .boolean => some (.boolean (token.value == Text.ascii "true"))
  | .null => some .null
  | _ => none

/-- A literal, a name, a call or an expression in parentheses. -/
def primary (inner : Parser Expr) : Parser Expr
  | [] => .error ⟨.expectedExpression, []⟩
  | token :: rest =>
      match literal? token with
      | some value => .ok (.literal value token, rest)
      | none =>
          match token.kind with
          | .identifier => .ok (.identifier token.value token, rest)
          | .atSign => functionCall inner token rest
          | .openParenthesis => do
              let (body, rest) ← inner rest
              let (_, rest) ← expect .closeParenthesis .expectedClosingParenthesis rest
              .ok (body, rest)
          | _ => .error ⟨.unexpectedToken, token :: rest⟩

/-- A primary expression with the accesses behind it. -/
def postfixed (inner : Parser Expr) : Parser Expr := fun tokens => do
  let (node, rest) ← primary inner tokens
  accesses inner rest.length node rest

/-- Signs and negations in front of an expression. -/
def prefixed (inner : Parser Expr) : Parser Expr
  | [] => postfixed inner []
  | token :: rest =>
      if token.kind = .not || token.kind = .minus then do
        let (argument, rest) ← prefixed inner rest
        .ok (.unary token.value true argument token, rest)
      else postfixed inner (token :: rest)

/-- The rest of a chain of operators of one level, at most `fuel` of them. -/
def chainFrom (level : Level) (operand : Parser Expr) : Nat → Expr → Parser Expr
  | 0, left, tokens => .ok (left, tokens)
  | _, left, [] => .ok (left, [])
  | fuel + 1, left, token :: rest =>
      match level.rejects? token.kind with
      | some fault => .error ⟨fault, token :: rest⟩
      | none =>
          if level.joins token.kind then do
            let (right, rest) ← operand rest
            chainFrom level operand fuel (.binary (operatorText token) left right token) rest
          else .ok (left, token :: rest)

/-- Chains of the operators of some levels; operators of one level group to the left. -/
def chains (inner : Parser Expr) : List Level → Parser Expr
  | [] => prefixed inner
  | level :: tighter => fun tokens => do
      let (left, rest) ← chains inner tighter tokens
      chainFrom level (chains inner tighter) rest.length left rest

/-- A chain of operators, or a conditional whose test is one. -/
def conditionalOver (inner : Parser Expr) : Parser Expr := fun tokens => do
  let (test, rest) ← chains inner Level.all tokens
  match rest with
  | [] => .ok (test, [])
  | token :: after =>
      if token.kind = .questionMark then do
        let (consequent, rest) ← inner after
        let (_, rest) ← expect .colon .expectedColon rest
        let (alternate, rest) ← inner rest
        .ok (.conditional test consequent alternate token, rest)
      else .ok (test, token :: after)

/-- An expression nested at most `depth` deep. -/
def expression : Nat → Parser Expr
  | 0 => fun tokens => .error ⟨.expectedExpression, tokens⟩
  | depth + 1 => conditionalOver (expression depth)

end Expr

namespace Program

/-- The tokens of a list in front of its first end of input. -/
def bodyTokens (tokens : List Token) : List Token :=
  tokens.takeWhile fun token => token.kind != .endOfInput

/-- The first end of input of a list, or the one behind it. -/
def endToken (tokens : List Token) : Token :=
  (tokens.find? fun token => token.kind == .endOfInput).getD Token.pastEnd

/-- The error of a parser that stopped in front of some tokens. -/
def errorAt (tokens : List Token) (stop : Expr.Stop) : SyntaxError :=
  let found := stop.rest.headD (endToken tokens)
  { fault := .grammatical stop.fault found, location := found.location }

/-- The formula that a list of tokens is. -/
def ofTokens (tokens : List Token) : Except SyntaxError Program :=
  let body := bodyTokens tokens
  match Expr.expression body.length body with
  | .error stop => .error (errorAt tokens stop)
  | .ok (expr, []) => .ok { body := expr, token := tokens.headD Token.pastEnd }
  | .ok (_, token :: rest) => .error (errorAt tokens ⟨.trailingToken, token :: rest⟩)

end Program
end Formulary
