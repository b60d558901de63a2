import Formulary.Text.Utf8

/-!
# Well-formed UTF-8

A text is well-formed if it is a sequence of characters, each of which is the encoding of a Unicode
scalar value.  It can be cut in front of and behind every ASCII byte, and a code unit is encoded as
a character unless it is a surrogate.
-/

namespace Formulary
namespace Text
namespace Utf8

/-- The bytes are one character. -/
inductive Character : Text → Prop where
  | one {a} (ascii : a < 128) : Character [a]
  | two {a b} (pair : isPair a b) : Character [a, b]
  | three {a b c} (triple : isTriple a b c) : Character [a, b, c]
  | four {a b c d} (quadruple : isQuadruple a b c d) : Character [a, b, c, d]

/-- The byte belongs to a character of several bytes. -/
def isHigh (byte : UInt8) : Prop := 128 ≤ byte.toNat

theorem isHigh_iff {byte : UInt8} : isHigh byte ↔ ¬ byte < 128 := by
  rw [UInt8.lt_iff_toNat_lt]
  exact Nat.not_lt.symm

/-- What holds of all codes below 256 holds of all bytes. -/
theorem forall_of_codes {holds : UInt8 → Prop} (all : ∀ code < 256, holds (UInt8.ofNat code))
    (byte : UInt8) : holds byte := by
  have held := all byte.toNat byte.toNat_lt
  rwa [UInt8.ofNat_toNat] at held

theorem isContinuation_iff {byte : UInt8} :
    isContinuation byte ↔ 128 ≤ byte.toNat ∧ byte.toNat ≤ 191 := by
  simp [isContinuation, UInt8.le_iff_toNat_le]

theorem isPair_iff {a b : UInt8} :
    isPair a b ↔ (194 ≤ a.toNat ∧ a.toNat ≤ 223) ∧ 128 ≤ b.toNat ∧ b.toNat ≤ 191 := by
  simp [isPair, isContinuation_iff, UInt8.le_iff_toNat_le]

theorem isTriple_iff {a b c : UInt8} :
    isTriple a b c ↔ (224 ≤ a.toNat ∧ a.toNat ≤ 239) ∧ (128 ≤ b.toNat ∧ b.toNat ≤ 191) ∧
      (128 ≤ c.toNat ∧ c.toNat ≤ 191) ∧ (a.toNat ≠ 224 ∨ 160 ≤ b.toNat) ∧
      (a.toNat ≠ 237 ∨ b.toNat ≤ 159) := by
  simp [isTriple, isContinuation_iff, UInt8.le_iff_toNat_le, ← UInt8.toNat_inj, and_assoc]

theorem isQuadruple_iff {a b c d : UInt8} :
    isQuadruple a b c d ↔ (240 ≤ a.toNat ∧ a.toNat ≤ 244) ∧ (128 ≤ b.toNat ∧ b.toNat ≤ 191) ∧
      (128 ≤ c.toNat ∧ c.toNat ≤ 191) ∧ (128 ≤ d.toNat ∧ d.toNat ≤ 191) ∧
      (a.toNat ≠ 240 ∨ 144 ≤ b.toNat) ∧ (a.toNat ≠ 244 ∨ b.toNat ≤ 143) := by
  simp [isQuadruple, isContinuation_iff, UInt8.le_iff_toNat_le, ← UInt8.toNat_inj, and_assoc]

theorem isValid_ascii {a : UInt8} (ascii : a < 128) (rest : Text) :
    isValid (a :: rest) = isValid rest := by
  rw [isValid.eq_def]
  simp only [ascii, if_true]

namespace Character

variable {front : Text}

theorem ne_nil (character : Character front) : front ≠ [] := by
  cases character <;> exact List.cons_ne_nil _ _

/-- A character is an ASCII byte, or none of its bytes is ASCII. -/
theorem ascii_or_high (character : Character front) :
    (∃ byte, front = [byte] ∧ byte < 128) ∨ ∀ byte ∈ front, isHigh byte := by
  cases character with
  | one ascii => exact .inl ⟨_, rfl, ascii⟩
  | two pair =>
      rw [isPair_iff] at pair
      exact .inr (by simp [isHigh]; omega)
  | three triple =>
      rw [isTriple_iff] at triple
      exact .inr (by simp [isHigh]; omega)
  | four quadruple =>
      rw [isQuadruple_iff] at quadruple
      exact .inr (by simp [isHigh]; omega)

theorem isValid_append (character : Character front) (rest : Text) :
    isValid (front ++ rest) = isValid rest := by
  cases character with
  | one ascii => exact isValid_ascii ascii rest
  | @two a b pair =>
      have bounds := isPair_iff.mp pair
      have high : ¬ a < 128 := isHigh_iff.mp (by rw [isHigh]; omega)
      rw [List.cons_append, List.cons_append, isValid.eq_def]
      simp only [high, pair, if_true, if_false]
      rfl
  | @three a b c triple =>
      have bounds := isTriple_iff.mp triple
      have high : ¬ a < 128 := isHigh_iff.mp (by rw [isHigh]; omega)
      have no_pair : ¬ isPair a b := fun pair => by
        have := isPair_iff.mp pair
        omega
      rw [List.cons_append, List.cons_append, List.cons_append, isValid.eq_def]
      simp only [high, no_pair, triple, if_true, if_false]
      rfl
  | @four a b c d quadruple =>
      have bounds := isQuadruple_iff.mp quadruple
      have high : ¬ a < 128 := isHigh_iff.mp (by rw [isHigh]; omega)
      have no_pair : ¬ isPair a b := fun pair => by
        have := isPair_iff.mp pair
        omega
      have no_triple : ¬ isTriple a b c := fun triple => by
        have := isTriple_iff.mp triple
        omega
      rw [List.cons_append, List.cons_append, List.cons_append, List.cons_append, isValid.eq_def]
      simp only [high, no_pair, no_triple, quadruple, Bool.true_and, if_false]
      rfl

/-- A character does not reach over an ASCII byte. -/
theorem begins_front {byte : UInt8} {text back : Text} (character : Character front)
    (ascii : byte < 128) (some_byte : text ≠ []) (begins : front <+: text ++ byte :: back) :
    front <+: text := by
  have text_begins := List.prefix_append text (byte :: back)
  refine List.prefix_of_prefix_length_le begins text_begins ?_
  rcases character.ascii_or_high with ⟨only, rfl, -⟩ | high
  · exact List.length_pos_iff.mpr some_byte
  · apply Nat.le_of_not_lt
    intro longer
    have byte_begins : text ++ [byte] <+: text ++ byte :: back :=
      ⟨back, (List.append_cons text byte back).symm⟩
    have reaching : text ++ [byte] <+: front :=
      List.prefix_of_prefix_length_le byte_begins begins (by rwa [List.length_append])
    exact isHigh_iff.mp (high byte (reaching.mem (by simp))) ascii

end Character

/-- A valid text that is not empty begins with a character. -/
theorem exists_character {byte : UInt8} {rest : Text} (valid : isValid (byte :: rest)) :
    ∃ front back, byte :: rest = front ++ back ∧ Character front ∧ isValid back := by
  rw [isValid.eq_def] at valid
  dsimp only at valid
  split at valid
  · exact ⟨[byte], rest, rfl, .one ‹_›, valid⟩
  · cases rest with
    | nil => cases valid
    | cons b rest =>
        dsimp only at valid
        split at valid
        · exact ⟨[byte, b], rest, rfl, .two ‹_›, valid⟩
        · cases rest with
          | nil => cases valid
          | cons c rest =>
              dsimp only at valid
              split at valid
              · exact ⟨[byte, b, c], rest, rfl, .three ‹_›, valid⟩
              · cases rest with
                | nil => cases valid
                | cons d rest =>
                    obtain ⟨quadruple, valid⟩ := (Bool.and_eq_true _ _).mp valid
                    exact ⟨[byte, b, c, d], rest, rfl, .four quadruple, valid⟩

/-- In front of a valid text another one is valid if the whole is. -/
theorem isValid_append {front : Text} (valid : isValid front) (back : Text) :
    isValid (front ++ back) = isValid back := by
  induction size : front.length using Nat.strongRecOn generalizing front with
  | _ size induction =>
      cases front with
      | nil => rfl
      | cons byte front =>
          obtain ⟨character, rest, split, is_character, valid⟩ := exists_character valid
          have positive := List.length_pos_iff.mpr is_character.ne_nil
          have shorter := congrArg List.length split
          rw [List.length_append] at shorter
          rw [split, List.append_assoc, is_character.isValid_append]
          exact induction rest.length (by omega) valid rfl

/-- A valid text can be cut at an ASCII byte. -/
theorem isValid_append_ascii {byte : UInt8} (ascii : byte < 128) {front back : Text} :
    isValid (front ++ byte :: back) ↔ isValid front ∧ isValid back := by
  constructor
  · intro valid
    induction size : front.length using Nat.strongRecOn generalizing front with
    | _ size induction =>
        cases front with
        | nil => exact ⟨rfl, (isValid_ascii ascii back).symm.trans valid⟩
        | cons first front =>
            obtain ⟨character, rest, split, is_character, rest_valid⟩ := exists_character valid
            have split : first :: front ++ byte :: back = character ++ rest := split
            obtain ⟨front_rest, own⟩ := is_character.begins_front ascii (List.cons_ne_nil _ _)
              ⟨rest, split.symm⟩
            have positive := List.length_pos_iff.mpr is_character.ne_nil
            have shorter := congrArg List.length own
            rw [List.length_append] at shorter
            rw [← own, List.append_assoc] at split
            rw [← List.append_cancel_left split] at rest_valid
            obtain ⟨front_valid, back_valid⟩ :=
              induction front_rest.length (by omega) rest_valid rfl
            rw [← own, is_character.isValid_append]
            exact ⟨front_valid, back_valid⟩
  · rintro ⟨front_valid, back_valid⟩
    rwa [isValid_append front_valid, isValid_ascii ascii]

private theorem exists_char (code : Nat) (scalar : code.isValidChar) :
    ∃ character : Char, character.val.toNat = code :=
  ⟨Char.ofNatAux code scalar, rfl⟩

private theorem toNat_ofNat {code : Nat} (small : code < 256) : (UInt8.ofNat code).toNat = code :=
  UInt8.toNat_ofNat_of_lt' small

private theorem ofNat_eq (byte : UInt8) {code : Nat} (same : code = byte.toNat) :
    UInt8.ofNat code = byte := by
  rw [same, UInt8.ofNat_toNat]

/-- A scalar value is encoded as one character. -/
theorem character_utf8EncodeChar (character : Char) :
    Character (String.utf8EncodeChar character) := by
  have scalar : character.val.toNat.isValidChar := character.valid
  rw [String.utf8EncodeChar]
  generalize character.val.toNat = code at scalar
  rw [Nat.isValidChar] at scalar
  split
  · refine .one ?_
    rw [UInt8.lt_iff_toNat_lt, toNat_ofNat (by omega)]
    simp
    omega
  · split
    · refine .two ?_
      rw [isPair_iff, toNat_ofNat (by omega), toNat_ofNat (by omega)]
      omega
    · split
      · refine .three ?_
        rw [isTriple_iff, toNat_ofNat (by omega), toNat_ofNat (by omega),
          toNat_ofNat (by omega)]
        omega
      · refine .four ?_
        rw [isQuadruple_iff, toNat_ofNat (by omega), toNat_ofNat (by omega),
          toNat_ofNat (by omega), toNat_ofNat (by omega)]
        omega

/-- Every character is the encoding of a scalar value. -/
theorem Character.exists_eq {bytes : Text} (character : Character bytes) :
    ∃ scalar : Char, bytes = String.utf8EncodeChar scalar := by
  cases character with
  | @one a ascii =>
      have small : a.toNat < 128 := UInt8.lt_iff_toNat_lt.mp ascii
      obtain ⟨scalar, code⟩ := exists_char a.toNat (.inl (by omega))
      refine ⟨scalar, ?_⟩
      rw [String.utf8EncodeChar, code]
      rw [if_pos (by omega), UInt8.ofNat_toNat]
  | @two a b pair =>
      have bounds := isPair_iff.mp pair
      obtain ⟨scalar, code⟩ := exists_char ((a.toNat - 192) * 64 + (b.toNat - 128))
        (.inl (by omega))
      refine ⟨scalar, ?_⟩
      rw [String.utf8EncodeChar, code]
      rw [if_neg (by omega), if_pos (by omega), ofNat_eq a (by omega),
        ofNat_eq b (by omega)]
  | @three a b c triple =>
      have bounds := isTriple_iff.mp triple
      obtain ⟨scalar, code⟩ := exists_char
        ((a.toNat - 224) * 4096 + (b.toNat - 128) * 64 + (c.toNat - 128))
        (by rw [Nat.isValidChar]; omega)
      refine ⟨scalar, ?_⟩
      rw [String.utf8EncodeChar, code]
      rw [if_neg (by omega), if_neg (by omega), if_pos (by omega), ofNat_eq a (by omega),
        ofNat_eq b (by omega), ofNat_eq c (by omega)]
  | @four a b c d quadruple =>
      have bounds := isQuadruple_iff.mp quadruple
      obtain ⟨scalar, code⟩ := exists_char
        ((a.toNat - 240) * 262144 + (b.toNat - 128) * 4096 + (c.toNat - 128) * 64 +
          (d.toNat - 128))
        (by rw [Nat.isValidChar]; omega)
      refine ⟨scalar, ?_⟩
      rw [String.utf8EncodeChar, code]
      rw [if_neg (by omega), if_neg (by omega), if_neg (by omega), ofNat_eq a (by omega),
        ofNat_eq b (by omega), ofNat_eq c (by omega),
        ofNat_eq d (by omega)]

/-- A text is valid if it is the encoding of scalar values in order. -/
theorem isValid_iff (text : Text) :
    isValid text ↔ ∃ scalars : List Char, text = scalars.flatMap String.utf8EncodeChar := by
  constructor
  · intro valid
    induction size : text.length using Nat.strongRecOn generalizing text with
    | _ size induction =>
        cases text with
        | nil => exact ⟨[], rfl⟩
        | cons byte rest =>
            obtain ⟨character, rest, split, is_character, rest_valid⟩ := exists_character valid
            obtain ⟨scalar, rfl⟩ := is_character.exists_eq
            have positive := List.length_pos_iff.mpr is_character.ne_nil
            have shorter := congrArg List.length split
            rw [List.length_append] at shorter
            obtain ⟨scalars, rfl⟩ := induction rest.length (by omega) rest rest_valid rfl
            exact ⟨scalar :: scalars, by rw [split, List.flatMap_cons]⟩
  · rintro ⟨scalars, rfl⟩
    induction scalars with
    | nil => rfl
    | cons scalar scalars induction =>
        rwa [List.flatMap_cons, (character_utf8EncodeChar scalar).isValid_append]

/-- The surrogates, which are no scalar values. -/
def isSurrogate (unit : Nat) : Bool :=
  0xD800 ≤ unit && unit ≤ 0xDFFF

/-- Other code units are encoded as characters. -/
theorem character_encodeUnit {unit : Nat} (small : unit < 0x10000)
    (not_surrogate : ¬ isSurrogate unit) : Character (encodeUnit unit) := by
  have scalar : unit.isValidChar := by
    rw [Nat.isValidChar]
    simp only [isSurrogate, Bool.and_eq_true, decide_eq_true_eq] at not_surrogate
    omega
  obtain ⟨character, code⟩ := exists_char unit scalar
  have encoded : encodeUnit unit = String.utf8EncodeChar character := by
    rw [encodeUnit, String.utf8EncodeChar, code]
    split
    · rw [if_pos (by omega)]
    · split
      · rw [if_neg (by omega), if_pos (by omega),
          show unit / 64 % 32 + 192 = 192 + unit / 64 by omega, Nat.add_comm (unit % 64)]
      · rw [if_neg (by omega), if_neg (by omega), if_pos (by omega),
          show unit / 4096 % 16 + 224 = 224 + unit / 4096 by omega, Nat.add_comm (unit / 64 % 64),
          Nat.add_comm (unit % 64)]
  rw [encoded]
  exact character_utf8EncodeChar character

private theorem not_isValid_of_surrogate {unit : Nat} (surrogate : isSurrogate unit) (rest : Text) :
    ¬ isValid (encodeUnit unit ++ rest) := by
  intro valid
  simp only [isSurrogate, Bool.and_eq_true, decide_eq_true_eq] at surrogate
  have first := toNat_ofNat (show 0xE0 + unit / 4096 < 256 by omega)
  have second := toNat_ofNat (show 0x80 + unit / 64 % 64 < 256 by omega)
  rw [encodeUnit, if_neg (by omega), if_neg (by omega)] at valid
  generalize UInt8.ofNat (0xE0 + unit / 4096) = a at first valid
  generalize UInt8.ofNat (0x80 + unit / 64 % 64) = b at second valid
  obtain ⟨front, back, split, character, -⟩ := exists_character valid
  -- Behind `0xED` the second byte of a character is less than `0xA0`.
  cases character with
  | one ascii =>
      cases split
      have := UInt8.lt_iff_toNat_lt.mp ascii
      simp at this
      omega
  | two pair =>
      cases split
      have := isPair_iff.mp pair
      omega
  | three triple =>
      cases split
      have := isTriple_iff.mp triple
      omega
  | four quadruple =>
      cases split
      have := isQuadruple_iff.mp quadruple
      omega

/-- In front of a text the encoding of a code unit is valid unless the unit is a surrogate. -/
theorem isValid_encodeUnit_append {unit : Nat} (small : unit < 0x10000) (rest : Text) :
    isValid (encodeUnit unit ++ rest) ↔ ¬ isSurrogate unit ∧ isValid rest := by
  by_cases surrogate : isSurrogate unit
  · simp [surrogate, not_isValid_of_surrogate surrogate rest]
  · rw [(character_encodeUnit small surrogate).isValid_append]
    simp [surrogate]

end Utf8
end Text
end Formulary
