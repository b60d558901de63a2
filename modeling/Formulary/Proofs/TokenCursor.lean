import Formulary.Expr.Parser

/-!
# Parsing with a cursor

The parsers of expressions once more, as actions on a cursor that stands in a list of tokens.  An
action looks at the token at the cursor and takes tokens one by one, and the cursor keeps what was
taken and where; behind the last token both see an end of input, and taking it moves nothing.  Calls
and repetitions are nested as deep as is allowed, and an action that goes deeper has no outcome.
-/

namespace Formulary

/-- A place in a list of tokens, with all that was taken so far and the places it was taken at. -/
structure Cursor where
  tokens : List Token
  position : Nat
  taken : List (Nat × Token)

namespace Cursor

open Formulary.Expr (Level)

/-- The cursor in front of some tokens. -/
def start (tokens : List Token) : Cursor := ⟨tokens, 0, []⟩

/-- The token at the cursor, or an end of input behind all tokens. -/
def next (cursor : Cursor) : Token :=
  cursor.tokens.getD cursor.position Token.pastEnd

/-- The cursor once the token at it is taken.  It moves unless it stands behind all tokens. -/
def advance (cursor : Cursor) : Cursor where
  tokens := cursor.tokens
  position :=
    if cursor.position < cursor.tokens.length then cursor.position + 1 else cursor.position
  taken := cursor.taken ++ [(cursor.position, cursor.next)]

/-- The cursor with the token at it made a name. -/
def rename (cursor : Cursor) : Cursor :=
  { cursor with
    tokens := cursor.tokens.set cursor.position { cursor.next with kind := .identifier } }

/-- What moves a cursor and returns a value or fails; without an outcome, it has not ended. -/
abbrev Action (α : Type) := ExceptT SyntaxError (StateT Cursor Option) α

/-- The outcome of an action from a cursor on, if it ends. -/
def Action.run {α : Type} (action : Action α) (cursor : Cursor) :
    Option (Except SyntaxError α × Cursor) :=
  StateT.run (ExceptT.run action) cursor

/-- Looks at the token at the cursor. -/
def peek : Action Token := do
  return (← get).next

/-- Takes the token at the cursor. -/
def consume : Action Token := do
  let token ← peek
  modify advance
  return token

/-- Fails because of the token that was found. -/
def fail {α : Type} (found : Token) (fault : GrammarFault) : Action α :=
  throw { fault := .grammatical fault found, location := found.location }

/-- Takes a token of one kind. -/
def expect (kind : TokenKind) (fault : GrammarFault) : Action Token := do
  let token ← peek
  if token.kind = kind then consume else fail token fault

/-- Takes a property name, which a constant is made before it is taken. -/
def property : Action Expr := do
  let token ← peek
  if token.kind = .boolean ∨ token.kind = .null then modify rename
  let name ← expect .identifier .expectedPropertyName
  return .identifier name.value name

/-- An action that is cut off. -/
def cutOff {α : Type} : Action α :=
  liftM (none : Option α)

mutual

/-- A chain of operators, or a conditional whose test is one. -/
def conditional : Nat → Action Expr
  | 0 => cutOff
  | depth + 1 => do
      let test ← chain depth Level.all
      let token ← peek
      if token.kind = .questionMark then
        let mark ← consume
        let consequent ← conditional depth
        let _ ← expect .colon .expectedColon
        let alternate ← conditional depth
        return .conditional test consequent alternate mark
      else return test

/-- Chains of the operators of some levels. -/
def chain : Nat → List Level → Action Expr
  | 0, _ => cutOff
  | depth + 1, [] => prefixed depth
  | depth + 1, level :: tighter => do
      let left ← chain depth tighter
      chainFrom depth level tighter left

/-- The rest of a chain of operators of one level. -/
def chainFrom : Nat → Level → List Level → Expr → Action Expr
  | 0, _, _, _ => cutOff
  | depth + 1, level, tighter, left => do
      let token ← peek
      match level.rejects? token.kind with
      | some fault => fail token fault
      | none =>
          if level.joins token.kind then
            let operator ← consume
            let right ← chain depth tighter
            chainFrom depth level tighter
              (.binary (Expr.operatorText operator) left right operator)
          else return left

/-- Signs and negations in front of an expression. -/
def prefixed : Nat → Action Expr
  | 0 => cutOff
  | depth + 1 => do
      let token ← peek
      if token.kind = .not ∨ token.kind = .minus then
        let sign ← consume
        let argument ← prefixed depth
        return .unary sign.value true argument sign
      else
        let node ← primary depth
        accesses depth node

/-- The accesses behind an expression. -/
def accesses : Nat → Expr → Action Expr
  | 0, _ => cutOff
  | depth + 1, node => do
      let token ← peek
      if token.kind = .dot then
        let point ← consume
        let name ← property
        accesses depth (.member node name false point)
      else if token.kind = .openBracket then
        let opening ← consume
        let index ← conditional depth
        let _ ← expect .closeBracket .expectedClosingBracket
        accesses depth (.member node index true opening)
      else return node

/-- A literal, a name, a call or an expression in parentheses. -/
def primary : Nat → Action Expr
  | 0 => cutOff
  | depth + 1 => do
      let token ← peek
      match Expr.literal? token with
      | some value => do
          let _ ← consume
          return .literal value token
      | none =>
          if token.kind = .identifier then
            let _ ← consume
            return .identifier token.value token
          else if token.kind = .atSign then
            let _ ← consume
            functionCall depth token
          else if token.kind = .openParenthesis then
            let _ ← consume
            let body ← conditional depth
            let _ ← expect .closeParenthesis .expectedClosingParenthesis
            return body
          else if token.kind = .endOfInput then fail token .expectedExpression
          else fail token .unexpectedToken

/-- The call whose `@` has been taken. -/
def functionCall : Nat → Token → Action Expr
  | 0, _ => cutOff
  | depth + 1, sign => do
      let name ← expect .identifier .expectedFunctionName
      let _ ← expect .openParenthesis (.expectedArguments name.value)
      let token ← peek
      let values ← if token.kind = .closeParenthesis then pure [] else arguments depth []
      let _ ← expect .closeParenthesis (.expectedEndOfArguments name.value)
      return .call name.value values sign

/-- Arguments with commas between them, behind those that have been read. -/
def arguments : Nat → List Expr → Action (List Expr)
  | 0, _ => cutOff
  | depth + 1, read => do
      let value ← conditional depth
      let token ← peek
      if token.kind = .comma then
        let _ ← consume
        arguments depth (read ++ [value])
      else return read ++ [value]

end

/-- A formula, which takes up all tokens in front of the first end of input. -/
def formula (depth : Nat) : Action Program := do
  let first ← peek
  if first.kind = .endOfInput then fail first .expectedExpression
  let body ← conditional depth
  let token ← peek
  if token.kind = .endOfInput then return { body, token := first }
  else fail token .trailingToken

section Run

variable {α β : Type} {cursor : Cursor}

theorem run_peek (following : Token → Action β) :
    (peek >>= following).run cursor = (following cursor.next).run cursor := rfl

theorem run_consume (following : Token → Action β) :
    (consume >>= following).run cursor = (following cursor.next).run cursor.advance := rfl

theorem run_rename (following : Unit → Action β) :
    ((modify rename : Action Unit) >>= following).run cursor =
      (following ()).run cursor.rename := rfl

theorem run_fail (found : Token) (fault : GrammarFault) :
    (fail found fault : Action α).run cursor =
      some (.error { fault := .grammatical fault found, location := found.location }, cursor) :=
  rfl

theorem run_bind_of_ok {first : Action α} {following : α → Action β} {value : α} {after : Cursor}
    (ended : first.run cursor = some (.ok value, after)) :
    (first >>= following).run cursor = (following value).run after := by
  change (StateT.run (ExceptT.run first) cursor >>= _) = _
  rw [show StateT.run (ExceptT.run first) cursor = _ from ended]
  rfl

theorem run_bind_of_error {first : Action α} {following : α → Action β} {error : SyntaxError}
    {after : Cursor} (ended : first.run cursor = some (.error error, after)) :
    (first >>= following).run cursor = some (.error error, after) := by
  change (StateT.run (ExceptT.run first) cursor >>= _) = _
  rw [show StateT.run (ExceptT.run first) cursor = _ from ended]
  rfl

end Run
end Cursor
end Formulary
