import Formulary.Value.Coercion
import Formulary.Text.Utf8

/-!
# Properties

A property is looked up under the text of its key.  Arrays and texts have a length and the
elements or characters whose index is written canonically; whatever is missing is undefined.
-/

namespace Formulary
namespace Value

/-- The index that a key writes: at most 18 digits, without a leading zero unless it is all. -/
def index? (key : Text) : Option Nat :=
  if key.isEmpty || 18 < key.length then none
  else if 1 < key.length && key.head? == some Text.zeroDigit then none
  else if key.all Text.isDigit then some (Text.toNat key)
  else none

/-- The key under which arrays and texts have their length. -/
def lengthKey : Text := Text.ascii "length"

/-- What a value has under the text of a key. -/
def propertyNamed (key : Text) : Value → Value
  | .object _ entries => (Fields.find? key entries).getD .undefined
  | .array _ elements =>
      if key = lengthKey then .number (Number.ofNat elements.length)
      else ((index? key).bind fun index => elements[index]?).getD .undefined
  | .text bytes =>
      if key = lengthKey then .number (Number.ofNat (Text.characterCount bytes))
      else (((index? key).bind (Text.character? bytes)).map Value.text).getD .undefined
  | _ => .undefined

/-- What a value has under a key. -/
def property (object key : Value) : Value :=
  propertyNamed key.toText object

end Value
end Formulary
