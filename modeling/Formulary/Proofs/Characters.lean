import Mathlib.Data.List.TakeWhile
import Formulary.Proofs.Utf8

/-!
# Characters

The characters of a text take up all of it but the continuation bytes in front, whether it is UTF-8
or not.  Those of a UTF-8 text are the encodings of its scalar values.
-/

namespace Formulary
namespace Text

/-- A byte that continues no character, with bytes behind it that all continue one. -/
def IsCharacter (character : Text) : Prop :=
  ∃ lead rest, character = lead :: rest ∧ ¬ isContinuation lead ∧ ∀ byte ∈ rest, isContinuation byte

private theorem characters_continuation {byte : UInt8} (continues : isContinuation byte)
    (rest : Text) : characters (byte :: rest) = characters rest := by
  rw [characters, if_pos continues]

private theorem characters_lead {byte : UInt8} (leads : ¬ isContinuation byte) (rest : Text) :
    characters (byte :: rest) = (byte :: rest.takeWhile isContinuation) :: characters rest := by
  rw [characters, if_neg leads]

private theorem characters_skip {front : Text} (all : ∀ byte ∈ front, isContinuation byte)
    (rest : Text) : characters (front ++ rest) = characters rest := by
  induction front with
  | nil => rfl
  | cons byte front induction =>
      rw [List.cons_append, characters_continuation (all byte List.mem_cons_self)]
      exact induction fun other member => all other (List.mem_cons_of_mem byte member)

/-- The characters are pieces of the text, which leave out its first continuation bytes only. -/
theorem flatten_characters (text : Text) :
    (characters text).flatten = text.dropWhile isContinuation := by
  induction text with
  | nil => rfl
  | cons byte rest induction =>
      by_cases continues : isContinuation byte
      · rw [characters_continuation continues, List.dropWhile_cons_of_pos continues, induction]
      · rw [characters_lead continues, List.dropWhile_cons_of_neg continues, List.flatten_cons,
          induction, List.cons_append, List.takeWhile_append_dropWhile]

theorem isCharacter_of_mem {text : Text} :
    ∀ character ∈ characters text, IsCharacter character := by
  induction text with
  | nil => simp [characters]
  | cons byte rest induction =>
      by_cases continues : isContinuation byte
      · rwa [characters_continuation continues]
      · rw [characters_lead continues]
        refine List.forall_mem_cons.mpr ⟨⟨byte, _, rfl, continues, ?_⟩, induction⟩
        exact fun _ => List.mem_takeWhile_imp

namespace Utf8

private theorem Character.isCharacter {front : Text} (character : Character front) :
    IsCharacter front := by
  cases character with
  | one ascii =>
      refine ⟨_, [], rfl, ?_, List.forall_mem_nil _⟩
      rw [isContinuation_iff]
      have small := UInt8.lt_iff_toNat_lt.mp ascii
      simp only [UInt8.reduceToNat] at small
      omega
  | two pair =>
      obtain ⟨lead, second⟩ := isPair_iff.mp pair
      refine ⟨_, _, rfl, ?_, by simpa [isContinuation_iff] using second⟩
      rw [isContinuation_iff]
      omega
  | three triple =>
      obtain ⟨lead, second, third, -⟩ := isTriple_iff.mp triple
      refine ⟨_, _, rfl, ?_, by simpa [isContinuation_iff] using ⟨second, third⟩⟩
      rw [isContinuation_iff]
      omega
  | four quadruple =>
      obtain ⟨lead, second, third, fourth, -⟩ := isQuadruple_iff.mp quadruple
      refine ⟨_, _, rfl, ?_, by simpa [isContinuation_iff] using ⟨second, third, fourth⟩⟩
      rw [isContinuation_iff]
      omega

/-- The characters of a sequence of encodings are these encodings. -/
theorem characters_flatMap (scalars : List Char) :
    characters (scalars.flatMap String.utf8EncodeChar) = scalars.map String.utf8EncodeChar := by
  induction scalars with
  | nil => rfl
  | cons scalar scalars induction =>
      obtain ⟨lead, rest, encoded, leads, continues⟩ :=
        (character_utf8EncodeChar scalar).isCharacter
      -- The next encoding begins with a byte that ends this character.
      have ends : (scalars.flatMap String.utf8EncodeChar).takeWhile isContinuation = [] := by
        cases scalars with
        | nil => rfl
        | cons next scalars =>
            obtain ⟨first, more, encoded, leads, -⟩ := (character_utf8EncodeChar next).isCharacter
            rw [List.flatMap_cons, encoded, List.cons_append, List.takeWhile_cons_of_neg leads]
      rw [List.flatMap_cons, List.map_cons, encoded, List.cons_append, characters_lead leads,
        characters_skip continues, induction, List.takeWhile_append_of_pos continues, ends,
        List.append_nil]

/-- A text without continuation bytes in front loses nothing, and a UTF-8 text has none. -/
theorem dropWhile_of_isValid {text : Text} (valid : isValid text) :
    text.dropWhile isContinuation = text := by
  obtain ⟨scalars, rfl⟩ := (isValid_iff text).mp valid
  rw [← flatten_characters, characters_flatMap, List.flatMap_def]

theorem isValid_of_mem_characters {text character : Text} (valid : isValid text)
    (member : character ∈ characters text) : isValid character := by
  obtain ⟨scalars, rfl⟩ := (isValid_iff text).mp valid
  rw [characters_flatMap] at member
  obtain ⟨scalar, -, rfl⟩ := List.mem_map.mp member
  exact (isValid_iff _).mpr ⟨[scalar], (List.append_nil _).symm⟩

end Utf8
end Text
end Formulary
