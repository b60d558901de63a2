import Formulary.Number.Arithmetic
import Formulary.Value.Coercion

/-!
# Operators

The operators of formulas and what they do to values.  Only addition and negation look at the
types of their operands; every other operator coerces them.
-/

namespace Formulary

/-- The operators between two operands. -/
inductive BinaryOperator where
  | add
  | subtract
  | multiply
  | divide
  | remainder
  | equal
  | notEqual
  | greater
  | greaterOrEqual
  | less
  | lessOrEqual
  | and
  | or
  deriving DecidableEq

namespace BinaryOperator

/-- The spelling of an operator. -/
def spelling : BinaryOperator → Text
  | add => Text.ascii "+"
  | subtract => Text.ascii "-"
  | multiply => Text.ascii "*"
  | divide => Text.ascii "/"
  | remainder => Text.ascii "%"
  | equal => Text.ascii "==="
  | notEqual => Text.ascii "!=="
  | greater => Text.ascii ">"
  | greaterOrEqual => Text.ascii ">="
  | less => Text.ascii "<"
  | lessOrEqual => Text.ascii "<="
  | and => Text.ascii "&&"
  | or => Text.ascii "||"

/-- All operators between two operands. -/
def all : List BinaryOperator :=
  [add, subtract, multiply, divide, remainder, equal, notEqual, greater, greaterOrEqual, less,
    lessOrEqual, and, or]

/-- The operator of a spelling. -/
def ofText? (text : Text) : Option BinaryOperator :=
  all.find? fun operator => operator.spelling == text

/-- Numbers are added; whatever else is joined as text. -/
def sum : Value → Value → Value
  | .number x, .number y => .number (x.add y)
  | left, right => .text (left.toText ++ right.toText)

/-- What an operator makes of the values of its operands. -/
def apply (operator : BinaryOperator) (left right : Value) : Value :=
  match operator with
  | add => sum left right
  | subtract => .number (left.toNumber.sub right.toNumber)
  | multiply => .number (left.toNumber.mul right.toNumber)
  | divide => .number (left.toNumber.div right.toNumber)
  | remainder => .number (left.toNumber.mod right.toNumber)
  | equal => .boolean (left.strictEquals right)
  | notEqual => .boolean (!left.strictEquals right)
  | greater => .boolean (right.toNumber.lessThan left.toNumber)
  | greaterOrEqual => .boolean (right.toNumber.atMost left.toNumber)
  | less => .boolean (left.toNumber.lessThan right.toNumber)
  | lessOrEqual => .boolean (left.toNumber.atMost right.toNumber)
  | and => .boolean (left.toBool && right.toBool)
  | or => .boolean (left.toBool || right.toBool)

end BinaryOperator

/-- The operators in front of an operand. -/
inductive UnaryOperator where
  | not
  | negate
  deriving DecidableEq

namespace UnaryOperator

/-- The spelling of an operator. -/
def spelling : UnaryOperator → Text
  | not => Text.ascii "!"
  | negate => Text.ascii "-"

/-- The operator of a spelling. -/
def ofText? (text : Text) : Option UnaryOperator :=
  [not, negate].find? fun operator => operator.spelling == text

/-- What an operator makes of the value of its operand; only numbers have a negation. -/
def result? (operator : UnaryOperator) (argument : Value) : Option Value :=
  match operator, argument with
  | not, argument => some (.boolean !argument.toBool)
  | negate, .number x => some (.number x.neg)
  | negate, _ => none

end UnaryOperator
end Formulary
