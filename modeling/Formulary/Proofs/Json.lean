import Formulary.Fields
import Formulary.Proofs.Lexicon
import Formulary.Text.Quoted

/-!
# JSON

The grammar of JSON texts.  A number is kept as it is written, and the members of an object keep
their order.  A string is a sequence of bytes: every byte from `0x80` upwards stands for itself, and
an escaped code unit stands for the byte of its value, so that no unit above `00ff` is written.
-/

namespace Formulary

/-- A JSON value. -/
inductive Json where
  | null
  | boolean (truth : Bool)
  /-- A number, as it is written. -/
  | number (numeral : Text)
  | string (text : Text)
  | array (elements : List Json)
  | object (members : List (Text × Json))

namespace Json

/-- The byte between neighbours in an array or an object. -/
def comma : UInt8 := 44

/-- The byte between the name of a member and its value. -/
def colon : UInt8 := 58

def openBracket : UInt8 := 91

def closeBracket : UInt8 := 93

def openBrace : UInt8 := 123

def closeBrace : UInt8 := 125

/-- Blanks, tabs, newlines and carriage returns may stand around every value. -/
def isSpace (byte : UInt8) : Bool :=
  byte == Text.blank || byte == Text.tab || byte == Text.newline || byte == Text.carriageReturn

/-- Nothing but space. -/
def Space (text : Text) : Prop :=
  ∀ byte ∈ text, isSpace byte

instance (text : Text) : Decidable (Space text) :=
  List.decidableBAll (isSpace ·) text

/-- The bytes behind a backslash and what they stand for there. -/
def escapes : List (UInt8 × UInt8) :=
  [(Text.doubleQuote, Text.doubleQuote), (Text.backslash, Text.backslash), (47, 47), (98, 8),
    (102, 12), (110, Text.newline), (114, Text.carriageReturn), (116, Text.tab)]

/-- The byte of two hexadecimal digits. -/
def pairByte? (high low : UInt8) : Option UInt8 := do
  let high ← Text.hexValue? high
  let low ← Text.hexValue? low
  return UInt8.ofNat (16 * high + low)

/-- The bytes may stand between double quotation marks, and denote the value there. -/
inductive Body : Text → Text → Prop where
  | empty : Body [] []
  | plain {byte rest value} (no_control : 32 ≤ byte) (not_quote : byte ≠ Text.doubleQuote)
      (not_backslash : byte ≠ Text.backslash) (more : Body rest value) :
      Body (byte :: rest) (byte :: value)
  | escaped {letter byte rest value} (listed : (letter, byte) ∈ escapes)
      (more : Body rest value) : Body (Text.backslash :: letter :: rest) (byte :: value)
  | unit {high low byte rest value} (digits : pairByte? high low = some byte)
      (more : Body rest value) :
      Body (Text.backslash :: Lexeme.unicodeMark :: Text.zeroDigit :: Text.zeroDigit ::
        high :: low :: rest) (byte :: value)

/-- The text begins with a digit, and with a zero only if no other digit is next to it. -/
def leads : Text → Bool
  | [] => false
  | first :: rest =>
      Text.isDigit first && !(first == Text.zeroDigit && Lexeme.startsWithDigit rest)

/-- A numeral of formulas that leads with a digit, maybe behind a minus sign. -/
def Numeral (spelling : Text) : Prop :=
  ∃ unsigned, (spelling = unsigned ∨ spelling = Text.minusSign :: unsigned) ∧
    Lexicon.Numeral unsigned ∧ leads unsigned

section Sequences

variable {α : Type} (Item : Text → α → Prop)

/-- An item with space around it. -/
inductive Spaced : Text → α → Prop where
  | intro {before text after value} (front : Space before) (item : Item text value)
      (back : Space after) : Spaced (before ++ text ++ after) value

/-- Items with commas between them, of which there is at least one. -/
inductive Items : Text → List α → Prop where
  | last {text value} (item : Spaced Item text value) : Items text [value]
  | more {text value rest values} (item : Spaced Item text value) (others : Items rest values) :
      Items (text ++ comma :: rest) (value :: values)

end Sequences

/-- A member of an object: its name, a colon and its value. -/
inductive Member (Value : Text → Json → Prop) : Text → Text × Json → Prop where
  | intro {body name between before text value} (named : Body body name) (front : Space between)
      (back : Space before) (written : Value text value) :
      Member Value (Text.quote body ++ between ++ colon :: (before ++ text)) (name, value)

/-- The text is a value, without space around it. -/
inductive Writes : Text → Json → Prop where
  | null : Writes (Text.ascii "null") null
  | boolean (truth : Bool) : Writes (Text.ascii (if truth then "true" else "false")) (boolean truth)
  | number {spelling} (numeral : Numeral spelling) : Writes spelling (number spelling)
  | string {body value} (inside : Body body value) : Writes (Text.quote body) (string value)
  | emptyArray {space} (inside : Space space) :
      Writes (openBracket :: (space ++ [closeBracket])) (array [])
  | array {text elements} (inside : Items Writes text elements) :
      Writes (openBracket :: (text ++ [closeBracket])) (array elements)
  | emptyObject {space} (inside : Space space) :
      Writes (openBrace :: (space ++ [closeBrace])) (object [])
  | object {text members} (inside : Items (Member Writes) text members) :
      Writes (openBrace :: (text ++ [closeBrace])) (object members)

/-- A JSON text is a value with space around it. -/
def Denotes (text : Text) (value : Json) : Prop :=
  Spaced Writes text value

/-- The member of a name, of which the first one counts. -/
def member? (name : String) : Json → Option Json
  | object members => Fields.find? (Text.ascii name) members
  | _ => none

def text? : Json → Option Text
  | string text => some text
  | _ => none

def truth? : Json → Option Bool
  | boolean truth => some truth
  | _ => none

/-- The integer of a numeral that has neither a fraction nor an exponent. -/
def integer? : Json → Option Int
  | number (first :: rest) =>
      if first = Text.minusSign then
        if rest.all Text.isDigit then some (-(Text.toNat rest : Int)) else none
      else if (first :: rest).all Text.isDigit then some (Text.toNat (first :: rest)) else none
  | _ => none

end Json
end Formulary
