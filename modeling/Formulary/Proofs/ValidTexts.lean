import Formulary.Proofs.JsonWriting
import Formulary.Proofs.Seams
import Formulary.Proofs.Utf8
import Formulary.Text.Colour

/-!
# Making UTF-8 texts

Whatever is joined from UTF-8 texts is UTF-8, and so is what stays when spaces are taken off or the
case of ASCII letters is changed.  The texts of numbers are ASCII.
-/

namespace Formulary
namespace Text
namespace Utf8

private theorem isValid_of_ascii {text : Text} (ascii : ∀ byte ∈ text, byte < 128) :
    isValid text := by
  induction text with
  | nil => rfl
  | cons byte rest induction =>
      obtain ⟨first, others⟩ := List.forall_mem_cons.mp ascii
      rw [isValid_ascii first]
      exact induction others

/-- Whether all bytes of a word are ASCII can be computed. -/
theorem isValid_word {word : Text} (ascii : word.all (· < 128)) : isValid word :=
  isValid_of_ascii fun byte member => of_decide_eq_true (List.all_eq_true.mp ascii byte member)

theorem isValid_concat {front back : Text} (front_valid : isValid front)
    (back_valid : isValid back) : isValid (front ++ back) := by
  rwa [isValid_append front_valid]

theorem isValid_join {separator : Text} (separates : isValid separator) {parts : List Text}
    (valid : ∀ part ∈ parts, isValid part) : isValid (join separator parts) := by
  induction parts with
  | nil => rfl
  | cons part rest induction =>
      obtain ⟨first, others⟩ := List.forall_mem_cons.mp valid
      cases rest with
      | nil => simpa [join] using first
      | cons next rest =>
          rw [join, List.intercalate_cons_cons]
          exact isValid_concat (isValid_concat first separates) (induction others)

/-- A change of ASCII bytes into ASCII bytes keeps a text valid. -/
theorem isValid_map {change : UInt8 → UInt8}
    (ascii : ∀ byte, byte < 128 → change byte < 128)
    (high : ∀ byte, ¬ byte < 128 → change byte = byte) {text : Text} (valid : isValid text) :
    isValid (text.map change) := by
  -- The induction is on the length, since a character of several bytes is taken at once.
  induction size : text.length using Nat.strongRecOn generalizing text with
  | _ size induction =>
      cases text with
      | nil => rfl
      | cons byte rest =>
          obtain ⟨front, back, split, character, back_valid⟩ := exists_character valid
          have positive := List.length_pos_iff.mpr character.ne_nil
          have shorter := congrArg List.length split
          rw [List.length_append] at shorter
          have later := induction back.length (by omega) back_valid rfl
          rw [split, List.map_append]
          obtain ⟨single, rfl, is_ascii⟩ | all_high := character.ascii_or_high
          · exact (isValid_ascii (ascii single is_ascii) _).trans later
          · have unchanged : ∀ byte ∈ front, change byte = byte := fun byte member =>
              high byte (isHigh_iff.mp (all_high byte member))
            have kept : front.map change = front :=
              (List.map_congr_left unchanged).trans (List.map_id front)
            rw [kept, character.isValid_append]
            exact later

theorem isValid_toUpper {text : Text} (valid : isValid text) : isValid (toUpper text) :=
  isValid_map (forall_of_codes (by decide +kernel)) (forall_of_codes (by decide +kernel)) valid

theorem isValid_toLower {text : Text} (valid : isValid text) : isValid (toLower text) :=
  isValid_map (forall_of_codes (by decide +kernel)) (forall_of_codes (by decide +kernel)) valid

private theorem isValid_trimStart {text : Text} (valid : isValid text) :
    isValid (trimStart text) := by
  have spaces : isValid (text.takeWhile isSpace) := isValid_of_ascii fun byte member =>
    Lexicon.ascii_of_space (List.mem_takeWhile_imp member)
  rwa [← List.takeWhile_append_dropWhile (p := isSpace) (l := text), isValid_append spaces] at valid

private theorem isValid_trimEnd {text : Text} (valid : isValid text) : isValid (trimEnd text) := by
  have split : trimEnd text ++ (text.reverse.takeWhile isSpace).reverse = text := by
    rw [trimEnd, ← List.reverse_append, List.takeWhile_append_dropWhile, List.reverse_reverse]
  cases spaces : (text.reverse.takeWhile isSpace).reverse with
  | nil =>
      rw [spaces, List.append_nil] at split
      rwa [split]
  | cons byte rest =>
      have member : byte ∈ text.reverse.takeWhile isSpace := by
        rw [← List.mem_reverse, spaces]
        exact List.mem_cons_self
      have space := List.mem_takeWhile_imp member
      rw [← split, spaces] at valid
      exact ((isValid_append_ascii (Lexicon.ascii_of_space space)).mp valid).1

theorem isValid_trim {text : Text} (valid : isValid text) : isValid (trim text) :=
  isValid_trimEnd (isValid_trimStart valid)

theorem isValid_quote {text : Text} (valid : isValid text) : isValid (quote text) := by
  rw [quote, List.cons_append, isValid_ascii (by decide)]
  exact isValid_concat valid (by decide)

theorem isValid_paint (colour : Colour) (enabled : Bool) {text : Text} (valid : isValid text) :
    isValid (colour.paint enabled text) := by
  have start : isValid colour.start := by cases colour <;> decide
  rw [Colour.paint]
  split
  · exact isValid_concat (isValid_concat start valid) (by decide)
  · exact valid

end Utf8
end Text

private theorem Json.Numeral.ascii {spelling : Text} (numeral : Json.Numeral spelling) :
    ∀ byte ∈ spelling, byte < 128 := by
  obtain ⟨unsigned, same, digits, -⟩ := numeral
  have ascii := fun byte member =>
    Lexicon.ascii_of_continues (Lexicon.continues_of_numeralByte (digits.bytes byte member))
  obtain rfl | rfl := same
  · exact ascii
  · exact List.forall_mem_cons.mpr ⟨by decide, ascii⟩

theorem Number.isValid_toText (x : Number) : Text.Utf8.isValid x.toText := by
  cases x with
  | nan => exact Text.Utf8.isValid_word (by decide)
  | infinite negative => exact Text.Utf8.isValid_word (by cases negative <;> decide)
  | finite negative magnitude =>
      have numeral : Json.Numeral (finite negative magnitude).toText := numeral_toText rfl
      exact Text.Utf8.isValid_of_ascii numeral.ascii

end Formulary
