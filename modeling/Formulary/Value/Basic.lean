import Formulary.Fields
import Formulary.Number.Bits

/-!
# Values

A value is a scalar, an object or an array.  Objects and arrays are made by the host and carry the
tag it gave them: two of them are the same value when they share tag and contents, so that
separately made ones differ even if they hold the same things.
-/

namespace Formulary

/-- The values that formulas compute with. -/
inductive Value where
  /-- A value that is known to be none. -/
  | null
  /-- The absence of a value, such as a missing property. -/
  | undefined
  | number (number : Number)
  | text (text : Text)
  | boolean (truth : Bool)
  /-- Properties under a tag; the first entry for a key counts. -/
  | object (tag : Nat) (entries : List (Text × Value))
  /-- Elements under a tag. -/
  | array (tag : Nat) (elements : List Value)

namespace Value

instance : Inhabited Value := ⟨.undefined⟩

/-- Two values are the same, down to the tags and the bits of every number. -/
def same : Value → Value → Bool
  | .null, .null => true
  | .undefined, .undefined => true
  | .number x, .number y => decide (x = y)
  | .text x, .text y => decide (x = y)
  | .boolean x, .boolean y => decide (x = y)
  | .object tag entries, .object tag' entries' =>
      decide (tag = tag') && sameEntries entries entries'
  | .array tag elements, .array tag' elements' =>
      decide (tag = tag') && sameElements elements elements'
  | _, _ => false
where
  /-- The entries agree in order. -/
  sameEntries : List (Text × Value) → List (Text × Value) → Bool
    | [], [] => true
    | (key, x) :: xs, (key', y) :: ys => decide (key = key') && same x y && sameEntries xs ys
    | _, _ => false
  /-- The elements agree in order. -/
  sameElements : List Value → List Value → Bool
    | [], [] => true
    | x :: xs, y :: ys => same x y && sameElements xs ys
    | _, _ => false

mutual

theorem same_iff (x y : Value) : same x y = true ↔ x = y := by
  cases x <;> cases y <;>
    simp [same, sameEntries_iff, sameElements_iff]

theorem sameEntries_iff (xs ys : List (Text × Value)) :
    same.sameEntries xs ys = true ↔ xs = ys := by
  match xs, ys with
  | [], [] => simp [same.sameEntries]
  | [], _ :: _ => simp [same.sameEntries]
  | _ :: _, [] => simp [same.sameEntries]
  | (key, x) :: xs, (key', y) :: ys =>
      simp [same.sameEntries, same_iff x y, sameEntries_iff xs ys]

theorem sameElements_iff (xs ys : List Value) : same.sameElements xs ys = true ↔ xs = ys := by
  match xs, ys with
  | [], [] => simp [same.sameElements]
  | [], _ :: _ => simp [same.sameElements]
  | _ :: _, [] => simp [same.sameElements]
  | x :: xs, y :: ys => simp [same.sameElements, same_iff x y, sameElements_iff xs ys]

end

instance : DecidableEq Value := fun x y =>
  decidable_of_iff (same x y = true) (same_iff x y)

/-- The name of a value's type. -/
def typeName : Value → Text
  | .null => Text.ascii "null"
  | .undefined => Text.ascii "undefined"
  | .number _ => Text.ascii "number"
  | .text _ => Text.ascii "string"
  | .boolean _ => Text.ascii "boolean"
  | .object _ _ => Text.ascii "object"
  | .array _ _ => Text.ascii "array"

/-- The two values that stand for nothing. -/
def isNullish : Value → Bool
  | .null => true
  | .undefined => true
  | _ => false

/-- The value is an object or an array. -/
def isStructured : Value → Bool
  | .object _ _ => true
  | .array _ _ => true
  | _ => false

/--
Equality without coercion.  Values of different types differ, numbers compare numerically, and
objects and arrays are equal only to themselves.
-/
def strictEquals : Value → Value → Bool
  | .null, .null => true
  | .undefined, .undefined => true
  | .number x, .number y => x.equals y
  | .text x, .text y => decide (x = y)
  | .boolean x, .boolean y => decide (x = y)
  | .object tag entries, .object tag' entries' =>
      same (.object tag entries) (.object tag' entries')
  | .array tag elements, .array tag' elements' =>
      same (.array tag elements) (.array tag' elements')
  | _, _ => false

/-- How many keys an object has, or elements an array. -/
def size : Value → Nat
  | .object _ entries => (Fields.normalize entries).length
  | .array _ elements => elements.length
  | _ => 0

end Value
end Formulary
