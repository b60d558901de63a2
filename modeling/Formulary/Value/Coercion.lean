import Formulary.Value.Basic
import Formulary.Number.Layout
import Formulary.Number.Numeral

/-!
# Coercions

Every value has a truth, a number and a text.  Coercion never fails: what has no number is a NaN.
-/

namespace Formulary
namespace Value

/-- The truth of a value.  Objects and arrays are true even when they are empty. -/
def toBool : Value → Bool
  | .null => false
  | .undefined => false
  | .number x => !x.isNaN && !x.equals Number.zero
  | .text bytes => !bytes.isEmpty
  | .boolean truth => truth
  | .object _ _ => true
  | .array _ _ => true

/-- The number of a value. -/
def toNumber : Value → Number
  | .null => Number.zero
  | .undefined => .nan
  | .number x => x
  | .text bytes => Number.ofText bytes
  | .boolean truth => if truth then Number.ofNat 1 else Number.zero
  | .object _ _ => .nan
  | .array _ _ => .nan

/--
The text of a value.  An array is the texts of its elements with commas between them, in which
elements that stand for nothing are empty.
-/
def toText : Value → Text
  | .null => Text.ascii "null"
  | .undefined => Text.ascii "undefined"
  | .number x => x.toText
  | .text bytes => bytes
  | .boolean truth => Text.ascii (if truth then "true" else "false")
  | .object _ _ => Text.ascii "[object Object]"
  | .array _ elements => Text.join (Text.ascii ",") (elementTexts elements)
where
  /-- The texts that an array joins. -/
  elementTexts : List Value → List Text
    | [] => []
    | element :: rest => (if element.isNullish then [] else element.toText) :: elementTexts rest

end Value
end Formulary
