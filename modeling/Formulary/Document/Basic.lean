import Formulary.Fields
import Formulary.Number.Basic

/-!
# JSON documents

What a reader of JSON texts hands over and a writer takes.  The reader and the writer themselves
come from elsewhere, so that a command is given them.
-/

namespace Formulary

/-- A JSON document. -/
inductive Document where
  | null
  | boolean (truth : Bool)
  /-- A number that is written without a fraction and without an exponent. -/
  | integer (value : Int)
  | number (number : Number)
  | text (text : Text)
  | array (elements : List Document)
  /-- The members of an object, each under a name of its own, in the order of the names. -/
  | object (members : List (Text × Document))

namespace Document

instance : Inhabited Document := ⟨.null⟩

/-- The name of a document's type. -/
def typeName : Document → Text
  | .null => Text.ascii "null"
  | .boolean _ => Text.ascii "boolean"
  | .integer _ => Text.ascii "number"
  | .number _ => Text.ascii "number"
  | .text _ => Text.ascii "string"
  | .array _ => Text.ascii "array"
  | .object _ => Text.ascii "object"

theorem sizeOf_elements_lt (elements : List Document) :
    sizeOf elements < sizeOf (array elements) := by
  rw [array.sizeOf_spec]
  omega

theorem sizeOf_members_lt (members : List (Text × Document)) :
    sizeOf members < sizeOf (object members) := by
  rw [object.sizeOf_spec]
  omega

/-- A member is smaller than the members that it is found among. -/
theorem sizeOf_lt_of_find? {name : Text} {members : List (Text × Document)} {member : Document}
    (found : Fields.find? name members = some member) : sizeOf member < sizeOf members := by
  induction members with
  | nil => cases found
  | cons entry rest induction =>
      obtain ⟨held, document⟩ := entry
      rw [Fields.find?] at found
      rw [List.cons.sizeOf_spec, Prod.mk.sizeOf_spec]
      split at found
      · cases found
        omega
      · have later := induction found
        omega

end Document

/--
A reader and a writer of JSON texts, each of which may refuse with a message.  A file with a number
beyond the doubles is neither read nor refused: it ends the program, and no command is run on it.
-/
structure JsonLibrary where
  /-- The document that a text denotes. -/
  parse : Text → Except Text Document
  /-- A text that denotes a document. -/
  dump : Document → Except Text Text

namespace JsonLibrary

/-- The library of a command that is built without one: it refuses every text and document. -/
def absent : JsonLibrary where
  parse _ := .error (Text.ascii "there is no JSON library")
  dump _ := .error (Text.ascii "there is no JSON library")

end JsonLibrary
end Formulary
