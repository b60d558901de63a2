import Formulary.Builtin
import Formulary.Proofs.Characters
import Formulary.Proofs.JsonWriting
import Formulary.Proofs.Naturals

/-!
# Indexing

An index reaches its character or element through the text of the key.  The characters of a text
are numbered from zero without a gap up to its length, and a number picks an element only if it is
a natural number.
-/

namespace Formulary
namespace Value

/-- What a text has under an index that is written in decimal. -/
def characterAt (bytes : Text) (index : Nat) : Value :=
  (text bytes).property (text (Text.ofNat index))

/-- An index that no text of fewer bytes reaches is written like any other. -/
theorem characterAt_eq {bytes : Text} (short : bytes.length < 10 ^ 18) (index : Nat) :
    characterAt bytes index = ((Text.characters bytes)[index]?.map text).getD undefined := by
  rw [characterAt, property, toText, propertyNamed, if_neg (ofNat_ne_lengthKey index)]
  rcases Nat.lt_or_ge index (10 ^ 18) with small | large
  · rw [index?_eq_some_iff.mpr ⟨small, rfl⟩]
    rfl
  · have unwritten : index? (Text.ofNat index) = none := by
      refine Option.eq_none_iff_forall_ne_some.mpr fun other writes => ?_
      obtain ⟨small, same⟩ := index?_eq_some_iff.mp writes
      have value := congrArg Text.toNat same
      rw [Text.toNat_ofNat, Text.toNat_ofNat] at value
      omega
    have beyond : (Text.characters bytes).length ≤ index := by
      have fewer : Text.characterCount bytes ≤ bytes.length := List.countP_le_length
      rw [Text.length_characters]
      omega
    rw [unwritten, List.getElem?_eq_none beyond]
    rfl

section Short

variable {bytes : Text} (short : bytes.length < 10 ^ 18)

include short

private theorem characterAt_of_lt {index : Nat} (inside : index < (Text.characters bytes).length) :
    characterAt bytes index = text (Text.characters bytes)[index] := by
  rw [characterAt_eq short, List.getElem?_eq_getElem inside, Option.map_some, Option.getD_some]

private theorem characterAt_of_le {index : Nat} (beyond : (Text.characters bytes).length ≤ index) :
    characterAt bytes index = undefined := by
  rw [characterAt_eq short, List.getElem?_eq_none beyond, Option.map_none, Option.getD_none]

private theorem mem_characters_of_characterAt {index : Nat} {character : Text}
    (picked : characterAt bytes index = text character) :
    ∃ inside : index < (Text.characters bytes).length,
      (Text.characters bytes)[index] = character := by
  rcases Nat.lt_or_ge index (Text.characters bytes).length with inside | beyond
  · rw [characterAt_of_lt short inside] at picked
    exact ⟨inside, text.inj picked⟩
  · rw [characterAt_of_le short beyond] at picked
    cases picked

private theorem flatMap_characterAt :
    (List.range (Text.characters bytes).length).flatMap
      (fun index => (characterAt bytes index).toText) = (Text.characters bytes).flatten := by
  rw [List.flatMap_def]
  congr 1
  refine List.ext_getElem (by simp) fun index _ inside => ?_
  rw [List.getElem_map, List.getElem_range, characterAt_of_lt short inside]
  rfl

/--
The indices below the count of a text's characters pick characters that make up the text, and the
others pick nothing.  The length of the text is the correct rounding of this count, and so the count
itself up to `2 ^ 53`.  The bytes that belong to no character are continuation bytes in front, which
a UTF-8 text does not have; its characters are the encodings of its scalar values.
-/
theorem characterAt_partitions :
    (∀ index, (∃ character, characterAt bytes index = text character) ↔
      index < Text.characterCount bytes) ∧
    (∀ index, Text.characterCount bytes ≤ index → characterAt bytes index = undefined) ∧
    (text bytes).property (text lengthKey) =
      number (Number.ofNat (Text.characterCount bytes)) ∧
    Builtin.len.apply [text bytes] = number (Number.ofNat (Text.characterCount bytes)) ∧
    Number.Rounded false (Text.characterCount bytes)
      (Number.ofNat (Text.characterCount bytes)) ∧
    (Text.characterCount bytes ≤ 2 ^ 53 →
      (Number.ofNat (Text.characterCount bytes)).IsNat (Text.characterCount bytes)) ∧
    (∀ index character, characterAt bytes index = text character → Text.IsCharacter character) ∧
    (List.range (Text.characterCount bytes)).flatMap
      (fun index => (characterAt bytes index).toText) = bytes.dropWhile Text.isContinuation ∧
    (Text.Utf8.isValid bytes →
      bytes.dropWhile Text.isContinuation = bytes ∧
      ∃ scalars : List Char, bytes = scalars.flatMap String.utf8EncodeChar ∧
        scalars.length = Text.characterCount bytes ∧
        ∀ index (inside : index < scalars.length),
          characterAt bytes index = text (String.utf8EncodeChar scalars[index])) := by
  rw [← Text.length_characters]
  refine ⟨fun index => ⟨?_, fun inside => ⟨_, characterAt_of_lt short inside⟩⟩,
    fun index => characterAt_of_le short, ?_, ?_, Number.ofNat_rounded _, Number.isNat_ofNat,
    fun index character picked => ?_, ?_, fun valid => ?_⟩
  · rintro ⟨character, picked⟩
    obtain ⟨inside, -⟩ := mem_characters_of_characterAt short picked
    exact inside
  · rw [Text.length_characters]
    rfl
  · rw [Text.length_characters]
    rfl
  · obtain ⟨inside, rfl⟩ := mem_characters_of_characterAt short picked
    exact Text.isCharacter_of_mem _ (List.getElem_mem inside)
  · rw [flatMap_characterAt short, Text.flatten_characters]
  · refine ⟨Text.Utf8.dropWhile_of_isValid valid, ?_⟩
    obtain ⟨scalars, rfl⟩ := (Text.Utf8.isValid_iff bytes).mp valid
    refine ⟨scalars, rfl, by rw [Text.Utf8.characters_flatMap, List.length_map],
      fun index inside => ?_⟩
    rw [characterAt_eq short, Text.Utf8.characters_flatMap, List.getElem?_map,
      List.getElem?_eq_getElem inside]
    rfl

end Short

/-- A continuation byte in front belongs to no character, and the others make up two. -/
theorem characterAt_partitions_stray :
    ([0x80, 0x61, 0xC3, 0xA9] : Text).length < 10 ^ 18 ∧
      (List.range 2).flatMap (fun index => (characterAt [0x80, 0x61, 0xC3, 0xA9] index).toText) =
        [0x61, 0xC3, 0xA9] := by
  have short : ([0x80, 0x61, 0xC3, 0xA9] : Text).length < 10 ^ 18 := by decide
  obtain ⟨-, -, -, -, -, -, -, pieces, -⟩ := characterAt_partitions short
  exact ⟨short, pieces⟩

private theorem ofNat_after_two_pow : Number.ofNat (2 ^ 53 + 1) = Number.ofNat (2 ^ 53) := by
  decide +kernel

/-- A text of one character more than `2 ^ 53` has a length that is one too small. -/
theorem length_of_longer_text :
    (List.replicate (2 ^ 53 + 1) 97 : Text).length < 10 ^ 18 ∧
      Text.characterCount (List.replicate (2 ^ 53 + 1) 97) = 2 ^ 53 + 1 ∧
      (text (List.replicate (2 ^ 53 + 1) 97)).property (text lengthKey) =
        number (Number.ofNat (2 ^ 53)) ∧
      Builtin.len.apply [text (List.replicate (2 ^ 53 + 1) 97)] = number (Number.ofNat (2 ^ 53)) ∧
      ¬ (Number.ofNat (2 ^ 53)).IsNat (2 ^ 53 + 1) := by
  have measured (bytes : Text) : (text bytes).property (text lengthKey) =
      number (Number.ofNat (Text.characterCount bytes)) := rfl
  have counted (bytes : Text) : Builtin.len.apply [text bytes] =
      number (Number.ofNat (Text.characterCount bytes)) := rfl
  have count (length : Nat) : Text.characterCount (List.replicate length 97) = length := by
    simp [Text.characterCount, List.countP_replicate, Text.isContinuation]
  refine ⟨by rw [List.length_replicate]; norm_num, count _, ?_, ?_, fun natural => ?_⟩
  · rw [measured, count, ofNat_after_two_pow]
  · rw [counted, count, ofNat_after_two_pow]
  · have same := Option.some.inj ((Number.isNat_ofNat (n := 2 ^ 53) le_rfl).symm.trans natural)
    have one_pos := Magnitude.one_pos
    omega

end Value

namespace Number

private theorem toText_ne_lengthKey (x : Number) : x.toText ≠ Value.lengthKey := by
  cases x with
  | nan => decide
  | infinite negative => cases negative <;> decide
  | finite negative magnitude =>
      exact (numeral_toText rfl).ne_word (by decide)

end Number

namespace Value

/--
A number picks an element of an array exactly if it is numerically the index of one, which negative
zero is as well; every other number, however close, picks nothing.
-/
theorem element_of_number {elements : List Value} (bounded : elements.length ≤ 2 ^ 53) (tag : Nat)
    (x : Number) :
    (∀ index (inside : index < elements.length), x.IsNat index →
      (array tag elements).property (number x) = elements[index]) ∧
    ((∀ index < elements.length, ¬ x.IsNat index) →
      (array tag elements).property (number x) = undefined) := by
  have found : (array tag elements).property (number x) =
      ((index? x.toText).bind fun index => elements[index]?).getD undefined := by
    rw [property, toText, propertyNamed, if_neg x.toText_ne_lengthKey]
  constructor
  · intro index inside natural
    have small : index < 2 ^ 53 := by omega
    rw [found, natural.toText_eq small, index?_eq_some_iff.mpr ⟨by omega, rfl⟩, Option.bind_some,
      List.getElem?_eq_getElem inside, Option.getD_some]
  · intro none_natural
    rw [found]
    cases writes : index? x.toText with
    | none => rfl
    | some index =>
        obtain ⟨-, same⟩ := index?_eq_some_iff.mp writes
        have beyond : elements.length ≤ index := by
          by_contra inside
          have inside := Nat.lt_of_not_le inside
          exact none_natural index inside (Number.isNat_of_toText same (by omega))
        rw [Option.bind_some, List.getElem?_eq_none beyond, Option.getD_none]

/-- Negative zero is the index of the first element, and a NaN is none. -/
theorem element_of_negative_zero :
    [boolean true].length ≤ 2 ^ 53 ∧ (Number.finite true .zero).IsNat 0 ∧
      (array 0 [boolean true]).property (number (.finite true .zero)) = boolean true ∧
      (∀ index < 1, ¬ Number.nan.IsNat index) ∧
      (array 0 [boolean true]).property (number .nan) = undefined := by
  have bounded : [boolean true].length ≤ 2 ^ 53 := by decide
  have zero : (Number.finite true .zero).IsNat 0 := by
    rw [Number.IsNat, Nat.zero_mul]
    rfl
  have none_natural : ∀ index < 1, ¬ Number.nan.IsNat index := fun index _ =>
    Number.not_isNat_nan index
  exact ⟨bounded, zero, (element_of_number bounded 0 _).1 0 Nat.one_pos zero, none_natural,
    (element_of_number bounded 0 _).2 none_natural⟩

end Value
end Formulary
