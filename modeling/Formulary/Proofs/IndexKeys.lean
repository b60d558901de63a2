import Formulary.Proofs.Characters
import Formulary.Proofs.Indices

/-!
# The keys of elements and characters

An index is read off its key into 64 bits, one digit after the other.  The keys that are read are so
short that nothing is ever cut off, and what is read is the number whose decimal text the key is.
Every element of an array and every character of a text is therefore reached by one key only.
-/

namespace Formulary
namespace Value

/-- What has been read with one more digit behind it, as far as it fits into 64 bits. -/
def pushDigit (read : UInt64) (byte : UInt8) : UInt64 :=
  read * 10 + (byte - Text.zeroDigit).toUInt64

/-- Reads digits up to the end of a key, behind those that have been read. -/
def readDigits? (read : UInt64) : Text → Option UInt64
  | [] => some read
  | byte :: rest => if Text.isDigit byte then readDigits? (pushDigit read byte) rest else none

/-- The index that a key writes, read into 64 bits. -/
def readIndex? (key : Text) : Option UInt64 :=
  if key.isEmpty || 18 < key.length then none
  else if 1 < key.length && key.head? == some Text.zeroDigit then none
  else readDigits? 0 key

/-- The exact sums that reading a key comes to, of which only 64 bits are kept. -/
def sums (read : UInt64) : Text → List Nat
  | [] => []
  | byte :: rest =>
      if Text.isDigit byte then
        (read.toNat * 10 + Text.digitValue byte) :: sums (pushDigit read byte) rest
      else []

/-- Nothing is cut off from a sum that fits into 64 bits. -/
theorem toNat_pushDigit {read : UInt64} {byte : UInt8} (digit : Text.isDigit byte)
    (fits : read.toNat * 10 + Text.digitValue byte < 2 ^ 64) :
    (pushDigit read byte).toNat = read.toNat * 10 + Text.digitValue byte := by
  have low : Text.zeroDigit ≤ byte := by
    simp only [Text.isDigit, Bool.and_eq_true, decide_eq_true_eq] at digit
    exact digit.1
  have value : (byte - Text.zeroDigit).toNat = Text.digitValue byte :=
    UInt8.toNat_sub_of_le _ _ low
  rw [pushDigit, UInt64.toNat_add, UInt64.toNat_mul, UInt8.toNat_toUInt64, value,
    show (10 : UInt64).toNat = 10 from rfl, Nat.mod_add_mod, Nat.mod_eq_of_lt fits]

/-- One more digit makes a number below the next power of ten. -/
theorem push_lt {value count : Nat} (small : value < 10 ^ count) {byte : UInt8}
    (digit : Text.isDigit byte) : value * 10 + Text.digitValue byte < 10 ^ (count + 1) := by
  have last := Text.digitValue_lt digit
  rw [pow_succ]
  omega

section Short

variable {read : UInt64} {count : Nat} {rest : Text} (small : read.toNat < 10 ^ count)
  (short : count + rest.length ≤ 18)

include small short

private theorem sums_lt : ∀ sum ∈ sums read rest, sum < 2 ^ 64 := by
  induction rest generalizing read count with
  | nil => exact List.forall_mem_nil _
  | cons byte rest induction =>
      rw [List.length_cons] at short
      rw [sums]
      split
      · rename_i digit
        have next := push_lt small digit
        have fits : read.toNat * 10 + Text.digitValue byte < 2 ^ 64 :=
          next.trans (lt_of_le_of_lt (Nat.pow_le_pow_right (by decide) (by omega))
            (by decide : 10 ^ 18 < 2 ^ 64))
        rw [← toNat_pushDigit digit fits] at next
        exact List.forall_mem_cons.mpr ⟨fits, induction next (by omega)⟩
      · exact List.forall_mem_nil _

/-- What is read is the value of all the digits. -/
theorem readDigits?_eq :
    (readDigits? read rest).map UInt64.toNat =
      if rest.all Text.isDigit then some (read.toNat * 10 ^ rest.length + Text.toNat rest)
      else none := by
  induction rest generalizing read count with
  | nil => simp [readDigits?, Text.toNat]
  | cons byte rest induction =>
      have fits := sums_lt small short
      rw [List.length_cons] at short
      by_cases digit : Text.isDigit byte
      · rw [sums, if_pos digit] at fits
        have pushed := toNat_pushDigit digit (fits _ List.mem_cons_self)
        have next := push_lt small digit
        rw [← pushed] at next
        have value : Text.toNat (byte :: rest) =
            Text.digitValue byte * 10 ^ rest.length + Text.toNat rest := by
          rw [← List.singleton_append, Text.toNat_append]
          simp [Text.toNat]
        rw [readDigits?, if_pos digit, induction next (by omega), pushed, value, List.all_cons,
          digit, Bool.true_and, List.length_cons, pow_succ]
        congr 2
        ring
      · rw [readDigits?, if_neg digit, List.all_cons, Bool.eq_false_iff.mpr digit, Bool.false_and]
        rfl

end Short

/-- Reading into 64 bits finds the index that a key writes. -/
theorem readIndex?_eq (key : Text) : (readIndex? key).map UInt64.toNat = index? key := by
  rw [readIndex?, index?]
  split
  · rfl
  · rename_i sized
    split
    · rfl
    · have short : 0 + key.length ≤ 18 := by
        simp only [Bool.or_eq_true, decide_eq_true_eq, not_or] at sized
        omega
      have nothing : (0 : UInt64).toNat < 10 ^ 0 := Nat.one_pos
      rw [readDigits?_eq nothing short, UInt64.toNat_zero, Nat.zero_mul, Nat.zero_add]

/-- In every array of so many elements the key reads the element at the index. -/
def SelectsElement (key : Text) (size index : Nat) : Prop :=
  ∀ tag elements element, elements.length = size → elements[index]? = some element →
    propertyNamed key (array tag elements) = element

/-- In every text of so many characters the key reads the character at the index. -/
def SelectsCharacter (key : Text) (size index : Nat) : Prop :=
  ∀ bytes character, Text.characterCount bytes = size →
    Text.character? bytes index = some character → propertyNamed key (text bytes) = text character

private theorem selectsElement_of_index {key : Text} {index : Nat}
    (writes : index? key = some index) (size : Nat) : SelectsElement key size index := by
  intro tag elements element _ found
  obtain ⟨-, rfl⟩ := index?_eq_some_iff.mp writes
  rw [propertyNamed, if_neg (ofNat_ne_lengthKey index), writes, Option.bind_some, found,
    Option.getD_some]

private theorem selectsCharacter_of_index {key : Text} {index : Nat}
    (writes : index? key = some index) (size : Nat) : SelectsCharacter key size index := by
  intro bytes character _ found
  obtain ⟨-, rfl⟩ := index?_eq_some_iff.mp writes
  rw [propertyNamed, if_neg (ofNat_ne_lengthKey index), writes, Option.bind_some, found,
    Option.map_some, Option.getD_some]

/-- A list in which one place is marked and no other. -/
def marked {α : Type} (mark plain : α) (size index : Nat) : List α :=
  (List.replicate size plain).set index mark

section Marked

variable {α : Type} {mark plain : α} {size index : Nat}

private theorem getElem?_marked (inside : index < size) :
    (marked mark plain size index)[index]? = some mark :=
  List.getElem?_set_self (by simpa using inside)

private theorem eq_of_getElem?_marked (apart : plain ≠ mark) {place : Nat}
    (found : (marked mark plain size index)[place]? = some mark) : place = index := by
  by_contra elsewhere
  rw [marked, List.getElem?_set_ne (Ne.symm elsewhere)] at found
  exact apart (List.eq_of_mem_replicate (List.mem_of_getElem? found)).symm

end Marked

/-- An element that is neither absent nor a length is read under the index of its place. -/
theorem exists_index_of_element {key : Text} {tag : Nat} {elements : List Value} {element : Value}
    (read : propertyNamed key (array tag elements) = element) (present : element ≠ undefined)
    (no_number : ∀ x, element ≠ number x) :
    ∃ place, index? key = some place ∧ elements[place]? = some element := by
  rw [propertyNamed] at read
  split at read
  · exact absurd read.symm (no_number _)
  · obtain found | ⟨-, absent⟩ := Option.getD_eq_iff.mp read
    · exact Option.bind_eq_some_iff.mp found
    · exact absurd absent.symm present

private theorem exists_index_of_character {key bytes character : Text}
    (read : propertyNamed key (text bytes) = text character) :
    ∃ place, index? key = some place ∧ Text.character? bytes place = some character := by
  rw [propertyNamed] at read
  split at read
  · cases read
  · obtain found | ⟨-, absent⟩ := Option.getD_eq_iff.mp read
    · obtain ⟨_, found, same⟩ := Option.map_eq_some_iff.mp found
      cases same
      exact Option.bind_eq_some_iff.mp found
    · cases absent

private theorem index_of_selectsElement {key : Text} {size index : Nat} (inside : index < size)
    (selects : SelectsElement key size index) : index? key = some index := by
  have read := selects 0 (marked (boolean true) null size index) (boolean true) (by simp [marked])
    (getElem?_marked inside)
  obtain ⟨place, writes, found⟩ := exists_index_of_element read (by simp) (by simp)
  rwa [eq_of_getElem?_marked (by simp) found] at writes

private theorem character?_flatMap (scalars : List Char) (index : Nat) :
    Text.character? (scalars.flatMap String.utf8EncodeChar) index =
      scalars[index]?.map String.utf8EncodeChar := by
  rw [Text.character?, Text.Utf8.characters_flatMap, List.getElem?_map]

private theorem index_of_selectsCharacter {key : Text} {size index : Nat} (inside : index < size)
    (selects : SelectsCharacter key size index) : index? key = some index := by
  have count : Text.characterCount ((marked 'b' 'a' size index).flatMap String.utf8EncodeChar) =
      size := by
    rw [← Text.length_characters, Text.Utf8.characters_flatMap, List.length_map]
    simp [marked]
  have read := selects _ (String.utf8EncodeChar 'b') count
    (by rw [character?_flatMap, getElem?_marked inside, Option.map_some])
  obtain ⟨place, writes, found⟩ := exists_index_of_character read
  rw [character?_flatMap, Option.map_eq_some_iff] at found
  obtain ⟨scalar, found, encoded⟩ := found
  obtain rfl : scalar = 'b' := by
    have listed : scalar = 'a' ∨ scalar = 'b' := by
      have member := List.mem_of_getElem? found
      rw [marked] at member
      exact (List.mem_or_eq_of_mem_set member).imp_left List.eq_of_mem_replicate
    refine listed.resolve_left fun plain => ?_
    rw [plain] at encoded
    exact absurd encoded (by decide)
  rwa [eq_of_getElem?_marked (by decide) found] at writes

/--
A key writes an index exactly if it is the decimal text of a number below `10 ^ 18`, and no sum on
the way to it exceeds 64 bits.  Every element of an array and every character of a text in reach of
a key is therefore read by one key and by no other.
-/
theorem index_keys_canonical :
    (∀ key index, index? key = some index ↔ index < 10 ^ 18 ∧ key = Text.ofNat index) ∧
    (∀ key, (readIndex? key).map UInt64.toNat = index? key) ∧
    (∀ key : Text, key.length ≤ 18 → ∀ sum ∈ sums 0 key, sum < 2 ^ 64) ∧
    (∀ size index, index < size → ∀ key,
      SelectsElement key size index ↔ index < 10 ^ 18 ∧ key = Text.ofNat index) ∧
    (∀ size index, index < size → ∀ key,
      SelectsCharacter key size index ↔ index < 10 ^ 18 ∧ key = Text.ofNat index) := by
  refine ⟨fun _ _ => index?_eq_some_iff, readIndex?_eq, fun key short => ?_,
    fun size index inside key => ?_, fun size index inside key => ?_⟩
  · have nothing : (0 : UInt64).toNat < 10 ^ 0 := Nat.one_pos
    exact sums_lt nothing (by rwa [Nat.zero_add])
  · rw [← index?_eq_some_iff]
    exact ⟨index_of_selectsElement inside, fun writes => selectsElement_of_index writes size⟩
  · rw [← index?_eq_some_iff]
    exact ⟨index_of_selectsCharacter inside, fun writes => selectsCharacter_of_index writes size⟩

end Value
end Formulary
