import Formulary.Value.Coercion
import Formulary.Proofs.CorrectRounding
import Formulary.Proofs.NumberText

/-!
# Numeral texts

A numeral is digits, which may have a point behind them, among them or in front of them, and may end
in an exponent.  What is read whole is a numeral, and every numeral is read whole, with the digits
and the exponent that it is spelled with.  Coercion takes exactly the numerals, with a sign or
without, and the words for the infinities, as long as no NUL byte ends the text early.
-/

namespace Formulary

open Lexicon (Digits)

namespace Numeral

/-- Digits with at most one point, and those on the two sides of the point. -/
inductive Pointed : Text → Text → Text → Prop where
  | whole {whole} (digits : Digits whole) : Pointed whole whole []
  | ended {whole} (digits : Digits whole) : Pointed (whole ++ [Text.dot]) whole []
  | parted {whole fraction} (digits : Digits whole) (part : Digits fraction) :
      Pointed (whole ++ Text.dot :: fraction) whole fraction
  | led {fraction} (part : Digits fraction) : Pointed (Text.dot :: fraction) [] fraction

/-- Nothing, or the mark of an exponent with digits behind it and perhaps a sign between them. -/
inductive Scaled : Text → Int → Prop where
  | none : Scaled [] 0
  | unsigned {mark digits} (marks : Text.isExponentMark mark) (power : Digits digits) :
      Scaled (mark :: digits) (Text.toNat digits)
  | signed {mark sign digits} (marks : Text.isExponentMark mark) (signs : Text.isSign sign)
      (power : Digits digits) :
      Scaled (mark :: sign :: digits)
        (if sign = Text.minusSign then -(Text.toNat digits : Int) else Text.toNat digits)

/-- The text spells a numeral without a sign. -/
inductive Spelled : Text → Numeral → Prop where
  | intro {front back whole fraction exponent} (pointed : Pointed front whole fraction)
      (scaled : Scaled back exponent) : Spelled (front ++ back) ⟨whole, fraction, exponent⟩

/-- The text spells a numeral that may have a sign, and whether this is a minus. -/
inductive Signed : Text → Bool → Numeral → Prop where
  | plain {text numeral} (spelled : Spelled text numeral) : Signed text false numeral
  | plus {text numeral} (spelled : Spelled text numeral) : Signed (43 :: text) false numeral
  | minus {text numeral} (spelled : Spelled text numeral) :
      Signed (Text.minusSign :: text) true numeral

theorem Scaled.head_apart {text : Text} {exponent : Int} (scaled : Scaled text exponent) :
    ∀ byte ∈ text.head?, ¬ Text.isDigit byte ∧ byte ≠ Text.dot := by
  intro byte member
  cases scaled with
  | none => cases member
  | unsigned marks | signed marks =>
      obtain rfl := Option.some.inj member
      exact ⟨Lexicon.not_digit_of_mark marks, Lexicon.ne_dot_of_mark marks⟩

private theorem readSign_of_digits {digits : Text} (power : Digits digits) :
    readSign digits = (false, digits) := by
  cases digits with
  | nil => rfl
  | cons byte rest =>
      have digit := power.2 byte List.mem_cons_self
      rw [readSign, if_neg fun signs => Lexicon.not_digit_of_sign signs digit]

theorem Scaled.readExponent_eq {text : Text} {exponent : Int} (scaled : Scaled text exponent) :
    readExponent Text.isExponentMark text = (exponent, []) := by
  have nothing : ∀ byte ∈ ([] : Text).head?, ¬ Text.isDigit byte := by simp
  have run {digits : Text} (power : Digits digits) : digits.takeWhile Text.isDigit = digits := by
    simpa using Lexicon.takeWhile_append_eq power.2 nothing
  have behind {digits : Text} (power : Digits digits) : digits.dropWhile Text.isDigit = [] := by
    simpa using dropWhile_append_eq power.2 nothing
  cases scaled with
  | none => rfl
  | unsigned marks power =>
      have some_digit := List.isEmpty_eq_false_iff.mpr power.1
      rw [readExponent, if_pos marks, readSign_of_digits power]
      simp only [run power, behind power, some_digit, Bool.false_eq_true, if_false]
  | signed marks signs power =>
      have some_digit := List.isEmpty_eq_false_iff.mpr power.1
      rw [readExponent, if_pos marks, readSign, if_pos signs]
      simp only [run power, behind power, some_digit, Bool.false_eq_true, if_false, beq_iff_eq]

private theorem Pointed.read?_eq {text whole fraction tail : Text}
    (pointed : Pointed text whole fraction)
    (apart : ∀ byte ∈ tail.head?, ¬ Text.isDigit byte ∧ byte ≠ Text.dot) :
    read? (text ++ tail) =
      some (⟨whole, fraction, (readExponent Text.isExponentMark tail).1⟩,
        (readExponent Text.isExponentMark tail).2) := by
  have no_digit : ∀ byte ∈ tail.head?, ¬ Text.isDigit byte := fun byte head => (apart byte head).1
  have no_point : ∀ byte ∈ tail.head?, byte ≠ Text.dot := fun byte head => (apart byte head).2
  have none_digit : ∀ byte ∈ ([] : Text), Text.isDigit byte := by simp
  cases pointed with
  | whole digits => exact (Unscaled.whole digits).read?_eq no_digit no_point
  | ended digits =>
      have read := read?_pointed digits.2 none_digit (.inl digits.1) no_digit
      rwa [List.append_cons, List.nil_append] at read
  | parted digits part =>
      rw [List.append_assoc, List.cons_append]
      exact read?_pointed digits.2 part.2 (.inl digits.1) no_digit
  | led part => exact read?_pointed none_digit part.2 (.inr part.1) no_digit

private theorem Spelled.read?_eq {text : Text} {numeral : Numeral}
    (spelled : Spelled text numeral) : read? text = some (numeral, []) := by
  obtain ⟨pointed, scaled⟩ := spelled
  rw [pointed.read?_eq scaled.head_apart, scaled.readExponent_eq]

/-- What is read up to the end behind a mark and perhaps a sign is digits. -/
theorem power_of_read {text behind : Text} {exponent : Int} (value : Text → Int)
    (some_byte : behind ≠ [])
    (read : (if (text.takeWhile Text.isDigit).isEmpty then (0, behind)
      else (value (text.takeWhile Text.isDigit), text.dropWhile Text.isDigit)) = (exponent, [])) :
    Digits text ∧ exponent = value text := by
  split at read
  · exact absurd (Prod.mk.inj read).2 some_byte
  · rename_i some_digit
    obtain ⟨rfl, nothing_left⟩ := Prod.mk.inj read
    have all := List.takeWhile_append_dropWhile (p := Text.isDigit) (l := text)
    rw [nothing_left, List.append_nil] at all
    have inside : ∀ byte ∈ text.takeWhile Text.isDigit, Text.isDigit byte :=
      fun _ => List.mem_takeWhile_imp
    rw [all] at some_digit inside ⊢
    exact ⟨⟨by simpa using some_digit, inside⟩, rfl⟩

private theorem scaled_of_readExponent {text : Text} {exponent : Int}
    (read : readExponent Text.isExponentMark text = (exponent, [])) : Scaled text exponent := by
  cases text with
  | nil =>
      cases read
      exact .none
  | cons mark rest =>
      rw [readExponent] at read
      split at read
      · rename_i marks
        have some_byte := List.cons_ne_nil mark rest
        cases rest with
        | nil => cases read
        | cons byte digits =>
            rw [readSign] at read
            by_cases signs : Text.isSign byte
            · rw [if_pos signs] at read
              obtain ⟨power, rfl⟩ := power_of_read
                (fun digits => if byte == Text.minusSign then -(Text.toNat digits : Int)
                  else Text.toNat digits) some_byte read
              simp only [beq_iff_eq]
              exact .signed marks signs power
            · rw [if_neg signs] at read
              obtain ⟨power, rfl⟩ :=
                power_of_read (fun digits => (Text.toNat digits : Int)) some_byte read
              exact .unsigned marks power
      · cases read

private theorem readFraction_cases (text : Text) :
    readFraction Text.isDigit text = ([], text) ∨
      ∃ rest, text = Text.dot :: rest ∧ readFraction Text.isDigit text =
        (rest.takeWhile Text.isDigit, rest.dropWhile Text.isDigit) := by
  cases text with
  | nil => exact .inl rfl
  | cons byte rest =>
      rw [readFraction]
      split
      · rename_i point
        exact .inr ⟨rest, by rw [point], rfl⟩
      · exact .inl rfl

private theorem pointed_of_digits {whole fraction : Text}
    (digits : ∀ byte ∈ whole, Text.isDigit byte)
    (part : ∀ byte ∈ fraction, Text.isDigit byte) (some_digit : whole ≠ [] ∨ fraction ≠ []) :
    Pointed (whole ++ Text.dot :: fraction) whole fraction := by
  by_cases no_whole : whole = []
  · subst no_whole
    exact .led ⟨some_digit.resolve_left (not_not_intro rfl), part⟩
  · by_cases no_fraction : fraction = []
    · subst no_fraction
      exact .ended ⟨no_whole, digits⟩
    · exact .parted ⟨no_whole, digits⟩ ⟨no_fraction, part⟩

theorem spelled_of_read? {text : Text} {numeral : Numeral}
    (read : read? text = some (numeral, [])) : Spelled text numeral := by
  have split := List.takeWhile_append_dropWhile (p := Text.isDigit) (l := text)
  have digits : ∀ byte ∈ text.takeWhile Text.isDigit, Text.isDigit byte :=
    fun _ => List.mem_takeWhile_imp
  rw [read?] at read
  generalize text.takeWhile Text.isDigit = whole at split digits read
  generalize text.dropWhile Text.isDigit = behind at split read
  subst split
  obtain no_point | ⟨rest, rfl, pointed⟩ := readFraction_cases behind
  · cases scaling : readExponent Text.isExponentMark behind with
    | mk exponent after =>
        simp only [no_point, scaling, List.isEmpty_nil, Bool.and_true] at read
        split at read
        · cases read
        · rename_i some_digit
          cases read
          exact .intro (.whole ⟨by simpa using some_digit, digits⟩) (scaled_of_readExponent scaling)
  · have split := List.takeWhile_append_dropWhile (p := Text.isDigit) (l := rest)
    have part : ∀ byte ∈ rest.takeWhile Text.isDigit, Text.isDigit byte :=
      fun _ => List.mem_takeWhile_imp
    rw [pointed] at read
    generalize rest.takeWhile Text.isDigit = fraction at split part read
    generalize rest.dropWhile Text.isDigit = behind at split read
    subst split
    cases scaling : readExponent Text.isExponentMark behind with
    | mk exponent after =>
        simp only [scaling] at read
        split at read
        · cases read
        · rename_i some_digit
          cases read
          rw [Bool.and_eq_true, List.isEmpty_iff, List.isEmpty_iff, not_and_or] at some_digit
          have front := pointed_of_digits digits part some_digit
          have spelled := Spelled.intro front (scaled_of_readExponent scaling)
          rwa [List.append_assoc, List.cons_append] at spelled

private theorem read?_of_sign {sign : UInt8} (signs : Text.isSign sign) (rest : Text) :
    read? (sign :: rest) = none := by
  have not_digit := Lexicon.not_digit_of_sign signs
  have not_point : sign ≠ Text.dot := fun point => by
    rw [point] at signs
    cases signs
  simp only [read?, List.takeWhile_cons_of_neg not_digit, List.dropWhile_cons_of_neg not_digit,
    readFraction, if_neg not_point, List.isEmpty_nil, Bool.and_self, if_true]

private theorem Spelled.readSign_eq {text : Text} {numeral : Numeral}
    (spelled : Spelled text numeral) : readSign text = (false, text) := by
  cases text with
  | nil => rfl
  | cons byte rest =>
      have not_sign : ¬ Text.isSign byte := fun signs => by
        have read := spelled.read?_eq
        rw [read?_of_sign signs] at read
        cases read
      rw [readSign, if_neg not_sign]

/-- Exactly the numerals with or without a sign are read behind their sign up to the end. -/
theorem signed_iff {text : Text} {negative : Bool} {numeral : Numeral} :
    Signed text negative numeral ↔
      (readSign text).1 = negative ∧ read? (readSign text).2 = some (numeral, []) := by
  constructor
  · intro signed
    cases signed with
    | plain spelled =>
        rw [spelled.readSign_eq]
        exact ⟨rfl, spelled.read?_eq⟩
    | plus spelled => exact ⟨rfl, spelled.read?_eq⟩
    | minus spelled => exact ⟨rfl, spelled.read?_eq⟩
  · rintro ⟨rfl, read⟩
    cases text with
    | nil => exact .plain (spelled_of_read? read)
    | cons byte rest =>
        by_cases signs : Text.isSign byte
        · have plus_or_minus : byte = 43 ∨ byte = Text.minusSign := by
            simpa [Text.isSign, Text.minusSign] using signs
          obtain rfl | rfl := plus_or_minus
          · exact .plus (spelled_of_read? read)
          · exact .minus (spelled_of_read? read)
        · rw [readSign, if_neg signs] at read ⊢
          exact .plain (spelled_of_read? read)

private theorem Pointed.bytes {text whole fraction : Text} (pointed : Pointed text whole fraction) :
    ∀ byte ∈ text, Text.isDigit byte ∨ byte = Text.dot := by
  cases pointed with
  | whole digits => exact (Lexicon.Mantissa.whole digits).bytes
  | ended digits =>
      intro byte member
      exact (List.mem_append.mp member).imp (digits.2 byte) List.mem_singleton.mp
  | parted digits part => exact (Lexicon.Mantissa.fractional digits part).bytes
  | led part => exact (Lexicon.Mantissa.pointed part).bytes

private theorem Scaled.spells {text : Text} {exponent : Int} (scaled : Scaled text exponent) :
    Lexicon.Exponent text := by
  cases scaled with
  | none => exact .none
  | unsigned marks power => exact .unsigned marks power
  | signed marks signs power => exact .signed marks signs power

private theorem Spelled.bytes {text : Text} {numeral : Numeral} (spelled : Spelled text numeral) :
    ∀ byte ∈ text,
      Text.isDigit byte ∨ byte = Text.dot ∨ Text.isExponentMark byte ∨ Text.isSign byte := by
  obtain ⟨pointed, scaled⟩ := spelled
  intro byte member
  rcases List.mem_append.mp member with front | back
  · exact (pointed.bytes byte front).imp_right .inl
  · exact scaled.spells.bytes byte back

private theorem Spelled.ne_nil {text : Text} {numeral : Numeral} (spelled : Spelled text numeral) :
    text ≠ [] := by
  rintro rfl
  cases spelled.read?_eq

private theorem Signed.ne_nil {text : Text} {negative : Bool} {numeral : Numeral}
    (signed : Signed text negative numeral) : text ≠ [] := by
  cases signed with
  | plain spelled => exact spelled.ne_nil
  | plus | minus => exact List.cons_ne_nil _ _

/-- The bytes of a numeral are no spaces and no NUL, and of the letters only exponent marks. -/
theorem Signed.apart {text : Text} {negative : Bool} {numeral : Numeral}
    (signed : Signed text negative numeral) {byte : UInt8} (member : byte ∈ text) :
    ¬ Text.isSpace byte ∧ byte ≠ Text.nul ∧
      ¬ (Text.isLetter byte && !Text.isExponentMark byte) ∧ byte ≠ 110 := by
  apply Lexicon.apart_of_numeralByte
  cases signed with
  | plain spelled => exact spelled.bytes byte member
  | plus spelled =>
      obtain rfl | inside := List.mem_cons.mp member
      · exact .inr (.inr (.inr rfl))
      · exact spelled.bytes byte inside
  | minus spelled =>
      obtain rfl | inside := List.mem_cons.mp member
      · exact .inr (.inr (.inr rfl))
      · exact spelled.bytes byte inside

end Numeral

namespace Text

/-- The word is what is left of the text without the spaces at both ends. -/
structure Trimmed (text word : Text) : Prop where
  split : ∃ front back, text = front ++ word ++ back ∧
    (∀ byte ∈ front, isSpace byte) ∧ ∀ byte ∈ back, isSpace byte
  starts : ∀ byte ∈ word.head?, ¬ isSpace byte
  ends : ∀ byte ∈ word.getLast?, ¬ isSpace byte

private theorem not_of_mem_head?_dropWhile {holds : UInt8 → Bool} {text : Text} {byte : UInt8}
    (head : byte ∈ (text.dropWhile holds).head?) : ¬ holds byte := by
  have first := List.head?_dropWhile_not holds text
  rw [Option.mem_def.mp head] at first
  exact Bool.eq_false_iff.mp first

private theorem trimmed_trim (text : Text) : Trimmed text text.trim := by
  have front := List.takeWhile_append_dropWhile (p := isSpace) (l := text)
  have back := List.takeWhile_append_dropWhile (p := isSpace) (l := text.trimStart.reverse)
  have kept : text.trimStart = text.trim ++ (text.trimStart.reverse.takeWhile isSpace).reverse := by
    rw [trim, trimEnd, ← List.reverse_append, back, List.reverse_reverse]
  constructor
  case split =>
    refine ⟨text.takeWhile isSpace, (text.trimStart.reverse.takeWhile isSpace).reverse, ?_,
      fun _ => List.mem_takeWhile_imp, fun byte member => ?_⟩
    · rw [List.append_assoc, ← kept]
      exact front.symm
    · exact List.mem_takeWhile_imp (List.mem_reverse.mp member)
  case starts =>
    intro byte head
    have first : byte ∈ text.trimStart.head? := by
      rw [kept, List.head?_append, Option.mem_def.mp head]
      rfl
    exact not_of_mem_head?_dropWhile first
  case ends =>
    intro byte last
    rw [trim, trimEnd, List.getLast?_reverse] at last
    exact not_of_mem_head?_dropWhile last

theorem trim_eq_self {text : Text} (no_space : ∀ byte ∈ text, ¬ isSpace byte) :
    trim text = text := by
  have back := trimStart_eq_self fun byte member => no_space byte (List.mem_reverse.mp member)
  rw [trim, trimStart_eq_self no_space, trimEnd]
  rw [trimStart] at back
  rw [back, List.reverse_reverse]

end Text

namespace Number

/-- The words for the two infinities. -/
def infinityWords : List Text :=
  [Text.ascii "Infinity", Text.ascii "+Infinity", Text.ascii "-Infinity"]

/-- The text has a letter that no decimal numeral has. -/
def hasForeignLetter (text : Text) : Bool :=
  text.any fun byte => Text.isLetter byte && !Text.isExponentMark byte

section Words

variable {text : Text} (no_infinity : text.trim ∉ infinityWords)

include no_infinity

private theorem ofText_eq_of_not_infinity (some_byte : text.trim ≠ []) :
    ofText text =
      if hasForeignLetter text.trim then .nan
      else
        match Numeral.read? (Numeral.readSign text.trim.beforeNul).2 with
        | some (numeral, []) =>
            numeral.toDecimal.toNumber (Numeral.readSign text.trim.beforeNul).1
        | _ => .nan := by
  simp only [infinityWords, List.mem_cons, List.not_mem_nil, or_false, not_or] at no_infinity
  obtain ⟨not_plain, not_plus, not_minus⟩ := no_infinity
  have nonempty : ¬ text.trim.isEmpty := by simpa using some_byte
  have not_infinity : ¬ (text.trim = Text.ascii "Infinity" ||
      text.trim = Text.ascii "+Infinity") := by
    simp [not_plain, not_plus]
  rw [ofText]
  simp only [if_neg nonempty, if_neg not_infinity, if_neg not_minus]
  rfl

private theorem ofText_of_numeral {negative : Bool} {numeral : Numeral}
    (no_letter : ¬ hasForeignLetter text.trim)
    (signed : Numeral.Signed text.trim.beforeNul negative numeral) :
    ofText text = numeral.toDecimal.toNumber negative := by
  have some_byte : text.trim ≠ [] := fun nil => signed.ne_nil (by rw [nil]; rfl)
  obtain ⟨sign, read⟩ := Numeral.signed_iff.mp signed
  rw [ofText_eq_of_not_infinity no_infinity some_byte, if_neg no_letter, read, sign]

private theorem ofText_eq_nan (some_byte : text.trim ≠ [])
    (unread : hasForeignLetter text.trim ∨
      ∀ negative numeral, ¬ Numeral.Signed text.trim.beforeNul negative numeral) :
    ofText text = .nan := by
  rw [ofText_eq_of_not_infinity no_infinity some_byte]
  split
  · rfl
  · rename_i no_letter
    have no_numeral := unread.resolve_left no_letter
    split
    · rename_i numeral read
      exact absurd (Numeral.signed_iff.mpr ⟨rfl, read⟩) (no_numeral _ numeral)
    · rfl

end Words

/-- A numeral is coerced to the number of its decimal, with its sign. -/
theorem ofText_of_signed {text : Text} {negative : Bool} {numeral : Numeral}
    (signed : Numeral.Signed text.trim negative numeral) :
    ofText text = numeral.toDecimal.toNumber negative := by
  have no_letter : ¬ hasForeignLetter text.trim := by
    rw [hasForeignLetter, List.any_eq_true]
    exact fun ⟨byte, member, letter⟩ => (signed.apart member).2.2.1 letter
  have no_infinity : text.trim ∉ infinityWords := by
    have letter_n : ∀ word ∈ infinityWords, 110 ∈ word := by decide
    exact fun listed => (signed.apart (letter_n _ listed)).2.2.2 rfl
  have whole := Text.beforeNul_eq_self fun byte member => (signed.apart member).2.1
  exact ofText_of_numeral no_infinity no_letter (whole.symm ▸ signed)

end Number

namespace Value

/--
The number of a text is zero if the text has nothing but spaces, an infinity if it is one of the
words for them between spaces, the correctly rounded value of a numeral with or without a sign if it
is one between spaces, and a NaN otherwise.  A text with a NUL byte counts up to this byte, apart
from the letters behind it.
-/
theorem toNumber_text (bytes : Text) :
    Text.Trimmed bytes bytes.trim ∧
    (bytes.trim = [] → (text bytes).toNumber = Number.zero) ∧
    (bytes.trim = Text.ascii "Infinity" ∨ bytes.trim = Text.ascii "+Infinity" →
      (text bytes).toNumber = .infinite false) ∧
    (bytes.trim = Text.ascii "-Infinity" → (text bytes).toNumber = .infinite true) ∧
    (∀ negative numeral, Numeral.Signed bytes.trim negative numeral →
      Number.Rounded negative numeral.toDecimal.value (text bytes).toNumber) ∧
    (Text.nul ∉ bytes.trim → bytes.trim ≠ [] → bytes.trim ∉ Number.infinityWords →
      (∀ negative numeral, ¬ Numeral.Signed bytes.trim negative numeral) →
      (text bytes).toNumber = .nan) ∧
    (Text.nul ∈ bytes.trim →
      (∀ negative numeral, Numeral.Signed bytes.trim.beforeNul negative numeral →
        ¬ Number.hasForeignLetter bytes.trim →
        Number.Rounded negative numeral.toDecimal.value (text bytes).toNumber) ∧
      (Number.hasForeignLetter bytes.trim ∨
        (∀ negative numeral, ¬ Numeral.Signed bytes.trim.beforeNul negative numeral) →
        (text bytes).toNumber = .nan)) := by
  have is_coerced : (text bytes).toNumber = Number.ofText bytes := rfl
  rw [is_coerced]
  refine ⟨Text.trimmed_trim bytes, ?blank, ?infinite, ?below, ?numeral, ?other, ?ended⟩
  case blank =>
    intro nothing
    rw [Number.ofText, nothing]
    rfl
  case infinite =>
    rintro (plain | plus)
    · rw [Number.ofText, plain]
      rfl
    · rw [Number.ofText, plus]
      rfl
  case below =>
    intro minus
    rw [Number.ofText, minus]
    rfl
  case numeral =>
    intro negative numeral signed
    rw [Number.ofText_of_signed signed]
    exact Decimal.toNumber_rounded negative _
  case other =>
    intro no_nul some_byte no_infinity no_numeral
    have whole := Text.beforeNul_eq_self fun byte member same => no_nul (same ▸ member)
    exact Number.ofText_eq_nan no_infinity some_byte (.inr (whole.symm ▸ no_numeral))
  case ended =>
    intro has_nul
    have no_infinity : bytes.trim ∉ Number.infinityWords := by
      have plain : ∀ word ∈ Number.infinityWords, Text.nul ∉ word := by decide
      exact fun listed => plain _ listed has_nul
    refine ⟨fun negative numeral signed no_letter => ?_, fun unread => ?_⟩
    · rw [Number.ofText_of_numeral no_infinity no_letter signed]
      exact Decimal.toNumber_rounded negative _
    · exact Number.ofText_eq_nan no_infinity (List.ne_nil_of_mem has_nul) unread

theorem toNumber_text_of_padded :
    Numeral.Signed (Text.ascii " -.5e1 ").trim true ⟨[], Text.ascii "5", 1⟩ ∧
      Number.Rounded true (Numeral.toDecimal ⟨[], Text.ascii "5", 1⟩).value
        (text (Text.ascii " -.5e1 ")).toNumber := by
  have signed : Numeral.Signed (Text.ascii " -.5e1 ").trim true ⟨[], Text.ascii "5", 1⟩ :=
    Numeral.signed_iff.mpr ⟨by decide, rfl⟩
  exact ⟨signed, (toNumber_text (Text.ascii " -.5e1 ")).2.2.2.2.1 _ _ signed⟩

/-- A digit with a NUL byte behind it is no numeral, and its number is not a NaN. -/
theorem toNumber_behind_nul :
    Text.trim [53, Text.nul] = [53, Text.nul] ∧ [53, Text.nul] ∉ Number.infinityWords ∧
      (∀ negative numeral, ¬ Numeral.Signed [53, Text.nul] negative numeral) ∧
      (text [53, Text.nul]).toNumber ≠ .nan :=
  ⟨by decide, by decide,
    fun _ _ signed => (signed.apart (show Text.nul ∈ [53, Text.nul] by decide)).2.1 rfl,
    by decide +kernel⟩

end Value
end Formulary
