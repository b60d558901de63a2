import Formulary.Value.Printer

/-!
# Nested values

Values have values in them, and what is made of a list of these is made of each of them.
-/

namespace Formulary
namespace Value

/-- What an object or an array has if all values in it have it, is had by every value. -/
theorem nested {motive : Value → Prop} (null : motive null) (undefined : motive undefined)
    (number : ∀ x, motive (number x)) (text : ∀ bytes, motive (text bytes))
    (boolean : ∀ truth, motive (boolean truth))
    (object : ∀ tag entries, (∀ entry ∈ entries, motive entry.2) → motive (object tag entries))
    (array : ∀ tag elements, (∀ element ∈ elements, motive element) → motive (array tag elements))
    (value : Value) : motive value := by
  match value with
  | .null => exact null
  | .undefined => exact undefined
  | .number x => exact number x
  | .text bytes => exact text bytes
  | .boolean truth => exact boolean truth
  | .object tag entries =>
      refine object tag entries fun entry listed => ?_
      have smaller := List.sizeOf_lt_of_mem listed
      exact nested null undefined number text boolean object array entry.2
  | .array tag elements =>
      refine array tag elements fun element listed => ?_
      exact nested null undefined number text boolean object array element
termination_by sizeOf value
decreasing_by
  · obtain ⟨key, inner⟩ := entry
    simp at *
    omega
  · have smaller := List.sizeOf_lt_of_mem listed
    simp
    omega

theorem elementTexts_eq (elements : List Value) :
    toText.elementTexts elements =
      elements.map fun element => if element.isNullish then [] else element.toText := by
  induction elements with
  | nil => rfl
  | cons element rest induction => rw [toText.elementTexts, induction, List.map_cons]

theorem printElements_eq (colour : Bool) (elements : List Value) :
    printInner.printElements colour elements = elements.map (printInner colour) := by
  induction elements with
  | nil => rfl
  | cons element rest induction => rw [printInner.printElements, induction, List.map_cons]

theorem printEntries_eq (colour : Bool) (entries : Fields Value) :
    printInner.printEntries colour entries = entries.mapValues (printInner colour) := by
  induction entries with
  | nil => rfl
  | cons entry rest induction =>
      rw [printInner.printEntries, induction]
      rfl

end Value
end Formulary
