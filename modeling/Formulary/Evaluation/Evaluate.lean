import Formulary.Evaluation.Environment
import Formulary.Evaluation.Operator
import Formulary.Expr.Parser
import Formulary.Token.Sequence
import Formulary.Value.Property

/-!
# Evaluation

Operands are evaluated from left to right, and both of them whatever the operator is; a conditional
evaluates its test and one branch.  A function is looked up before its arguments are evaluated, an
object must be something before its key is, and an operator is looked at after its operands.
-/

namespace Formulary

namespace Literal

/-- The value of a literal. -/
def toValue : Literal → Value
  | null => .null
  | number x => .number x
  | text bytes => .text bytes
  | boolean truth => .boolean truth

end Literal

namespace Expr

variable {σ : Type}

/-- What a binary operator makes of two values, if there is such an operator. -/
def applyBinary (operator : Text) (left right : Value) : Run σ Value :=
  match BinaryOperator.ofText? operator with
  | some known => pure (known.apply left right)
  | none => Run.fail (.unknownOperator operator)

/-- What a unary operator makes of a value, if it stands in front and takes such values. -/
def applyUnary (operator : Text) (before : Bool) (argument : Value) : Run σ Value :=
  if before then
    match UnaryOperator.ofText? operator with
    | some known =>
        match known.result? argument with
        | some value => pure value
        | none => Run.fail (.nonNumericNegation argument.toText)
    | none => Run.fail (.unknownOperator operator)
  else Run.fail (.unsupportedPostfix operator)

/-- The property of a value whose name is a node. -/
def namedProperty (object : Value) : Expr → Run σ Value
  | identifier name _ => pure (object.property (.text name))
  | other => Run.fail (.propertyNotName other.typeName?)

/-- The run of an expression in an environment. -/
def evaluate (environment : Environment σ) : Expr → Run σ Value
  | missing => Run.fail .missingNode
  | literal value _ => Run.framed (pure value.toValue)
  | identifier name _ => Run.framed (environment.readVariable name)
  | member object property computed _ => Run.framed do
      let value ← evaluate environment object
      if value.isNullish then Run.fail .nullPropertyAccess
      else if computed then do
        let key ← evaluate environment property
        pure (value.property key)
      else namedProperty value property
  | call function arguments _ => Run.framed do
      let body ← environment.readFunction function
      let values ← evaluateAll environment arguments
      Run.invoke function body values
  | binary operator left right _ => Run.framed do
      let leftValue ← evaluate environment left
      let rightValue ← evaluate environment right
      applyBinary operator leftValue rightValue
  | unary operator before argument _ => Run.framed do
      let value ← evaluate environment argument
      applyUnary operator before value
  | conditional test consequent alternate _ => Run.framed do
      let truth ← evaluate environment test
      if truth.toBool then evaluate environment consequent
      else evaluate environment alternate
  | unsupported type _ => Run.framed (Run.fail (.unsupportedNode type))
where
  /-- The run of some expressions in order. -/
  evaluateAll (environment : Environment σ) : List Expr → Run σ (List Value)
    | [] => pure []
    | argument :: rest => do
        let value ← evaluate environment argument
        let values ← evaluateAll environment rest
        pure (value :: values)

end Expr

namespace Program

variable {σ : Type}

/-- The formula that a text is, whose first line has the number `firstLine` in its file. -/
def ofText (file : Text) (firstLine : Int) (text : Text) : Except SyntaxError Program := do
  ofTokens (← Token.sequence file firstLine text)

/-- The run of a formula. -/
def evaluate (environment : Environment σ) (program : Program) : Run σ Value :=
  program.body.evaluate environment

end Program
end Formulary
