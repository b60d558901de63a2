import Formulary.Proofs.JsonWriting
import Formulary.Token.Listing

/-!
# Listings are JSON

A listing of tokens is a JSON text from which all that it shows of the tokens is read back: the name
of the kind, the value, the place and the length.
-/

namespace Formulary

private theorem Json.integer?_ofInt (n : Int) : (Json.number (Text.ofInt n)).integer? = some n := by
  cases n with
  | ofNat n =>
      have digits := Text.isDigit_of_mem_ofNat n
      have value := Text.toNat_ofNat n
      rw [Text.ofInt]
      cases spelled : Text.ofNat n with
      | nil => exact absurd spelled (Text.ofNat_ne_nil n)
      | cons first rest =>
          rw [spelled] at digits value
          have unsigned : first ≠ Text.minusSign := by
            rintro rfl
            exact absurd (digits _ List.mem_cons_self) (by decide)
          rw [integer?, if_neg unsigned, if_pos (List.all_eq_true.mpr digits), value]
          rfl
  | negSucc n =>
      have digits := Text.isDigit_of_mem_ofNat (n + 1)
      have signed : Text.ofInt (.negSucc n) = Text.minusSign :: Text.ofNat (n + 1) := rfl
      rw [signed, integer?, if_pos rfl, if_pos (List.all_eq_true.mpr digits), Text.toNat_ofNat]
      rfl

namespace Token

/-- What a listing shows of a token. -/
structure Entry where
  /-- The name of the token's kind. -/
  type : Text
  value : Text
  /-- File, line and column. -/
  place : Text
  length : Int
  deriving DecidableEq

/-- What the listing of a token shows. -/
def entry (token : Token) : Entry where
  type := Text.ascii token.kind.name
  value := token.value
  place := token.location.toText
  length := token.location.length

/-- The entry that an object describes. -/
def Entry.ofJson? (json : Json) : Option Entry := do
  let type ← (← json.member? "type").text?
  let value ← (← json.member? "value").text?
  let place ← (← json.member? "loc").text?
  let length ← (← json.member? "length").integer?
  return ⟨type, value, place, length⟩

/-- The object of one token. -/
def toJson (token : Token) : Json :=
  .object [(Text.ascii "type", .string (Text.ascii token.kind.name)),
    (Text.ascii "value", .string token.value),
    (Text.ascii "loc", .string token.location.toText),
    (Text.ascii "length", .number (Text.ofInt token.location.length))]

private theorem Entry.ofJson?_toJson (token : Token) :
    Entry.ofJson? token.toJson = some token.entry := by
  have type : token.toJson.member? "type" = some (.string (Text.ascii token.kind.name)) := rfl
  have value : token.toJson.member? "value" = some (.string token.value) := rfl
  have place : token.toJson.member? "loc" = some (.string token.location.toText) := rfl
  have length : token.toJson.member? "length" =
      some (.number (Text.ofInt token.location.length)) := rfl
  simp only [ofJson?, type, value, place, length, Json.text?, Json.integer?_ofInt,
    Option.bind_eq_bind, Option.bind_some]
  rfl

end Token
end Formulary
