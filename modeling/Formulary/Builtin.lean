import Formulary.Evaluation.Environment
import Formulary.Evaluation.Operator
import Formulary.Text.Utf8

/-!
# Builtin functions

The functions that formulas can call without a host.  They coerce their arguments, take an
argument that is not given as undefined, ignore arguments they have no use for, and never fail.
-/

namespace Formulary

/-- The builtin functions. -/
inductive Builtin where
  | sum
  | min
  | max
  | avg
  | abs
  | round
  | floor
  | ceil
  | sqrt
  | pow
  | len
  | upper
  | lower
  | trim
  | str
  | num
  | coalesce
  deriving DecidableEq

namespace Builtin

/-- The name under which formulas call a function. -/
def name : Builtin → Text
  | sum => Text.ascii "sum"
  | min => Text.ascii "min"
  | max => Text.ascii "max"
  | avg => Text.ascii "avg"
  | abs => Text.ascii "abs"
  | round => Text.ascii "round"
  | floor => Text.ascii "floor"
  | ceil => Text.ascii "ceil"
  | sqrt => Text.ascii "sqrt"
  | pow => Text.ascii "pow"
  | len => Text.ascii "len"
  | upper => Text.ascii "upper"
  | lower => Text.ascii "lower"
  | trim => Text.ascii "trim"
  | str => Text.ascii "str"
  | num => Text.ascii "num"
  | coalesce => Text.ascii "coalesce"

/-- All builtin functions. -/
def all : List Builtin :=
  [sum, min, max, avg, abs, round, floor, ceil, sqrt, pow, len, upper, lower, trim, str, num,
    coalesce]

/-- An argument, undefined if it is not given. -/
def argument (arguments : List Value) (index : Nat) : Value :=
  arguments.getD index .undefined

/-- The number of an argument. -/
def numberArgument (arguments : List Value) (index : Nat) : Number :=
  (argument arguments index).toNumber

/-- The sum of numbers, from zero on and from left to right. -/
def total (numbers : List Number) : Number :=
  numbers.foldl Number.add Number.zero

/-- The best of some numbers, or a NaN if there are none or one of them is a NaN. -/
def extremum (better : Number → Number → Number) (start : Number) (numbers : List Number) :
    Number :=
  if numbers.isEmpty || numbers.any Number.isNaN then .nan
  else numbers.foldl better start

/-- How many characters, elements or keys a value has. -/
def length : Value → Nat
  | .text bytes => Text.characterCount bytes
  | value => value.size

/-- What a function makes of its arguments. -/
def apply (builtin : Builtin) (arguments : List Value) : Value :=
  let numbers := arguments.map Value.toNumber
  match builtin with
  | sum => .number (total numbers)
  | min => .number (extremum Number.min (.infinite false) numbers)
  | max => .number (extremum Number.max (.infinite true) numbers)
  | avg =>
      .number
        (if numbers.isEmpty then .nan
        else (total numbers).div (Number.ofNat numbers.length))
  | abs => .number (numberArgument arguments 0).abs
  | round => .number (numberArgument arguments 0).round
  | floor => .number (numberArgument arguments 0).floor
  | ceil => .number (numberArgument arguments 0).ceil
  | sqrt => .number (numberArgument arguments 0).sqrt
  | pow => .number ((numberArgument arguments 0).pow (numberArgument arguments 1))
  | len => .number (Number.ofNat (length (argument arguments 0)))
  | upper => .text (Text.toUpper (argument arguments 0).toText)
  | lower => .text (Text.toLower (argument arguments 0).toText)
  | trim => .text (Text.trim (argument arguments 0).toText)
  | str => .text (argument arguments 0).toText
  | num => .number (numberArgument arguments 0)
  | coalesce => (arguments.find? fun value => !value.isNullish).getD .null

/-- A builtin function for hosts of any kind, whose state it leaves alone. -/
def toHostFunction {σ : Type} (builtin : Builtin) : HostFunction σ :=
  fun arguments host => (.ok (builtin.apply arguments), host)

end Builtin

namespace Environment

/-- The environment with all builtin functions registered. -/
def withBuiltins {σ : Type} (environment : Environment σ) : Environment σ :=
  Builtin.all.foldl
    (fun environment builtin =>
      environment.withFunction builtin.name (some builtin.toHostFunction))
    environment

end Environment
end Formulary
