/-!
# Byte texts

A text is a sequence of bytes.  Every classification here is by ASCII: a space is one of
` \t\n\v\f\r`, letters and digits are the ASCII ones, and a byte of `0x80` or more belongs to no
class.  Nothing requires a text to be well-formed UTF-8.
-/

namespace Formulary

/-- A text is a sequence of bytes. -/
abbrev Text := List UInt8

namespace Text

/-- The bytes of a literal whose characters are all ASCII. -/
def ascii (literal : String) : Text :=
  literal.toList.map Char.toUInt8

/-- The byte that ends a line. -/
def newline : UInt8 := 10

/-- The byte `0`. -/
def nul : UInt8 := 0

/-- The byte of a backslash. -/
def backslash : UInt8 := 92

/-- The byte of a double quotation mark. -/
def doubleQuote : UInt8 := 34

/-- The byte of a single quotation mark. -/
def singleQuote : UInt8 := 39

/-- The byte of a full stop. -/
def dot : UInt8 := 46

/-- The byte of a blank. -/
def blank : UInt8 := 32

/-- The byte of a tab. -/
def tab : UInt8 := 9

/-- The byte of a carriage return. -/
def carriageReturn : UInt8 := 13

/-- The byte of a minus sign. -/
def minusSign : UInt8 := 45

/-- The byte of the digit `0`. -/
def zeroDigit : UInt8 := 48

/-- Spaces are the blank and the five control bytes from tab to carriage return. -/
def isSpace (byte : UInt8) : Bool :=
  byte == 32 || (9 ≤ byte && byte ≤ 13)

/-- The ASCII digits. -/
def isDigit (byte : UInt8) : Bool :=
  48 ≤ byte && byte ≤ 57

/-- The ASCII capital letters. -/
def isUpper (byte : UInt8) : Bool :=
  65 ≤ byte && byte ≤ 90

/-- The ASCII small letters. -/
def isLower (byte : UInt8) : Bool :=
  97 ≤ byte && byte ≤ 122

/-- The ASCII letters. -/
def isLetter (byte : UInt8) : Bool :=
  isUpper byte || isLower byte

/-- The plus and minus signs. -/
def isSign (byte : UInt8) : Bool :=
  byte == 43 || byte == 45

/-- The letters `e` and `E`, which mark a power of ten. -/
def isExponentMark (byte : UInt8) : Bool :=
  byte == 101 || byte == 69

/-- The value of a hexadecimal digit of either case. -/
def hexValue? (byte : UInt8) : Option Nat :=
  if isDigit byte then some (byte.toNat - 48)
  else if 97 ≤ byte && byte ≤ 102 then some (byte.toNat - 87)
  else if 65 ≤ byte && byte ≤ 70 then some (byte.toNat - 55)
  else none

/-- The hexadecimal digits of either case. -/
def isHexDigit (byte : UInt8) : Bool :=
  (hexValue? byte).isSome

/-- The text without its leading spaces. -/
def trimStart (text : Text) : Text :=
  text.dropWhile isSpace

/-- The text without its trailing spaces. -/
def trimEnd (text : Text) : Text :=
  (text.reverse.dropWhile isSpace).reverse

/-- The text without its leading and trailing spaces. -/
def trim (text : Text) : Text :=
  trimEnd (trimStart text)

/-- The text with ASCII small letters made capital. -/
def toUpper (text : Text) : Text :=
  text.map fun byte => if isLower byte then byte - 32 else byte

/-- The text with ASCII capital letters made small. -/
def toLower (text : Text) : Text :=
  text.map fun byte => if isUpper byte then byte + 32 else byte

/-- The part of a text that stands before its first NUL byte. -/
def beforeNul (text : Text) : Text :=
  text.takeWhile (· != nul)

/-- A run of blanks. -/
def blanks (count : Nat) : Text :=
  List.replicate count blank

/-- The texts in order with a separator between neighbours. -/
def join (separator : Text) (parts : List Text) : Text :=
  List.intercalate separator parts

/--
The lines of a text.  A newline ends a line, and the bytes after the last newline are a line of
their own only if there are any.
-/
def lines : Text → List Text
  | [] => []
  | byte :: rest =>
      if byte = newline then [] :: lines rest
      else
        match lines rest with
        | [] => [[byte]]
        | line :: more => (byte :: line) :: more

@[simp]
theorem beforeNul_beforeNul (text : Text) : beforeNul (beforeNul text) = beforeNul text := by
  induction text with
  | nil => rfl
  | cons byte rest ih =>
      by_cases nul_byte : byte = nul
      · simp [beforeNul, nul_byte]
      · simpa [beforeNul, nul_byte] using ih

theorem beforeNul_append {front : Text} (no_nul : nul ∉ front) (rest : Text) :
    beforeNul (front ++ rest) = front ++ beforeNul rest :=
  List.takeWhile_append_of_pos fun _ member =>
    bne_iff_ne.mpr fun same => no_nul (same ▸ member)

theorem beforeNul_eq_self {text : Text} (no_nul : ∀ byte ∈ text, byte ≠ nul) :
    beforeNul text = text := by
  have whole := beforeNul_append (fun member => no_nul nul member rfl) []
  rwa [List.append_nil, show beforeNul [] = [] from rfl, List.append_nil] at whole

theorem beforeNul_append_of_mem {text : Text} (has_nul : nul ∈ text) (rest : Text) :
    beforeNul (text ++ rest) = beforeNul text := by
  induction text with
  | nil => cases has_nul
  | cons byte text induction =>
      by_cases is_nul : byte = nul
      · simp [beforeNul, is_nul]
      · have later := induction ((List.mem_cons.mp has_nul).resolve_left (Ne.symm is_nul))
        simpa [beforeNul, is_nul] using later

theorem nul_notMem_beforeNul (text : Text) : nul ∉ beforeNul text := fun member => by
  have kept : (beforeNul text).all (· != nul) = true := List.all_takeWhile
  exact bne_iff_ne.mp (List.all_eq_true.mp kept nul member) rfl

@[simp]
theorem lines_nil : lines [] = [] := rfl

@[simp]
theorem lines_newline (rest : Text) : lines (newline :: rest) = [] :: lines rest := by
  simp [lines]

/-- A line followed by its newline is the first line of the text. -/
theorem lines_append_newline (line rest : Text) (no_newline : newline ∉ line) :
    lines (line ++ newline :: rest) = line :: lines rest := by
  induction line with
  | nil => simp
  | cons byte line ih =>
      have byte_ne : byte ≠ newline := fun same => no_newline (same ▸ List.mem_cons_self)
      have inner := ih fun later => no_newline (List.mem_cons_of_mem byte later)
      simp only [List.cons_append, lines, if_neg byte_ne, inner]

end Text
end Formulary
