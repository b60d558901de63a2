import Formulary.Document.Basic
import Formulary.Number.Arithmetic
import Formulary.Value.Basic

/-!
# Values in JSON

Variables are read from JSON documents and results are written as documents.  Every object and
every array that is read is a value of its own, so that it takes the next tag; what JSON has no
word for is written as its null.
-/

namespace Formulary

namespace Document

/-- The tag of a value that is made next. -/
def nextTag : StateM Nat Nat :=
  modifyGet fun tag => (tag, tag + 1)

/-- The value of a document. -/
def toValue : Document → StateM Nat Value
  | .null => return .null
  | .boolean truth => return .boolean truth
  | .integer value => return .number (Number.ofInt value)
  | .number x => return .number x
  | .text bytes => return .text bytes
  | .array elements => do
      let tag ← nextTag
      return .array tag (← toElements elements)
  | .object members => do
      let tag ← nextTag
      return .object tag (← toEntries members)
where
  /-- The values of the elements of an array. -/
  toElements : List Document → StateM Nat (List Value)
    | [] => return []
    | element :: rest => do
        let value ← toValue element
        return value :: (← toElements rest)
  /-- The names of the members of an object with their values. -/
  toEntries : List (Text × Document) → StateM Nat (List (Text × Value))
    | [] => return []
    | (name, member) :: rest => do
        let value ← toValue member
        return (name, value) :: (← toEntries rest)

/-- The document of a number: an integer if it is one below `2 ^ 53`, which is written as such. -/
def ofNumber : Number → Document
  | .finite negative magnitude =>
      if magnitude.units % Magnitude.one = 0 ∧
          magnitude.units < Nat.pow 2 53 * Magnitude.one then
        .integer (Number.signedUnits negative (magnitude.units / Magnitude.one))
      else .number (.finite negative magnitude)
  | _ => .null

end Document

namespace Value

/-- The document of a value. -/
def toDocument : Value → Document
  | .null => .null
  | .undefined => .null
  | .number x => Document.ofNumber x
  | .text bytes => .text bytes
  | .boolean truth => .boolean truth
  | .object _ entries => .object (Fields.normalize (toMembers entries))
  | .array _ elements => .array (toElements elements)
where
  /-- The documents of the elements of an array. -/
  toElements : List Value → List Document
    | [] => []
    | element :: rest => toDocument element :: toElements rest
  /-- The keys of an object with the documents of their values. -/
  toMembers : List (Text × Value) → List (Text × Document)
    | [] => []
    | (key, value) :: rest => (key, toDocument value) :: toMembers rest

end Value
end Formulary
