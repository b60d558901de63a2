import Formulary.Proofs.Scanning

/-!
# Boundaries between lexemes

A lexeme is the longest one at the front of a text if nothing comes next that could belong to it.
Strings end with their quote; words, numbers and operators need a boundary behind them.
-/

namespace Formulary
namespace Lexicon

/-- The bytes that operators have behind their first one. -/
def joinsOperator (byte : UInt8) : Bool :=
  byte == 38 || byte == 61 || byte == 124

/-- Neither a word nor a number goes on in the text. -/
structure Separates (rest : Text) : Prop where
  no_word : ∀ byte ∈ rest.head?, ¬ Lexeme.isWordPart byte
  no_fraction : Lexeme.fractionWidth rest = 0

theorem wordPart_of_digit {byte : UInt8} (digit : Text.isDigit byte) :
    Lexeme.isWordPart byte := by
  simp [Lexeme.isWordPart, digit]

theorem wordStart_of_mark {byte : UInt8} (marks : Text.isExponentMark byte) :
    Lexeme.isWordStart byte := by
  simp only [Text.isExponentMark, Bool.or_eq_true, beq_iff_eq] at marks
  rcases marks with rfl | rfl
  · rfl
  · rfl

theorem not_joins_of_wordPart {byte : UInt8} (part : Lexeme.isWordPart byte) :
    ¬ joinsOperator byte := by
  simp only [joinsOperator, Lexeme.isWordPart, Lexeme.isWordStart, Text.isLetter, Text.isUpper,
    Text.isLower, Text.isDigit] at *
  grind

theorem ascii_of_wordPart {byte : UInt8} (part : Lexeme.isWordPart byte) : byte < 128 := by
  simp only [Lexeme.isWordPart, Lexeme.isWordStart, Text.isLetter, Text.isUpper, Text.isLower,
    Text.isDigit] at part
  grind

namespace Separates

variable {rest : Text}

theorem nil : Separates [] where
  no_word := by simp
  no_fraction := rfl

/-- The bytes other than a point that follow an expression. -/
theorem of_byte {byte : UInt8} (follows : byte ∈ Text.ascii " (),[]") (rest : Text) :
    Separates (byte :: rest) := by
  have apart : ∀ byte ∈ Text.ascii " (),[]", ¬ Lexeme.isWordPart byte ∧ byte ≠ Text.dot := by
    decide +kernel
  obtain ⟨not_word, not_point⟩ := apart byte follows
  exact ⟨by simpa using not_word, fractionWidth_eq_zero (by simpa using not_point)⟩

theorem of_point {first : UInt8} (starts : Lexeme.isWordStart first) (rest : Text) :
    Separates (Text.dot :: first :: rest) where
  no_word := by
    simp only [List.head?_cons, Option.mem_some_iff, forall_eq']
    decide
  no_fraction := by
    simp [Lexeme.fractionWidth, Lexeme.startsWithDigit, not_digit_of_wordStart starts]

private theorem no_digit (separates : Separates rest) : ∀ byte ∈ rest.head?, ¬ Text.isDigit byte :=
  fun byte first digit => separates.no_word byte first (wordPart_of_digit digit)

private theorem no_exponent (separates : Separates rest) : Lexeme.exponentWidth rest = 0 := by
  cases rest with
  | nil => rfl
  | cons byte rest =>
      have not_mark : ¬ Text.isExponentMark byte := fun marks =>
        separates.no_word byte rfl (wordPart_of_wordStart (wordStart_of_mark marks))
      simp [Lexeme.exponentWidth, not_mark]

end Separates

private theorem Exponent.width_eq {exponent rest : Text} (spelled : Exponent exponent)
    (separates : Separates rest) : Lexeme.exponentWidth (exponent ++ rest) = exponent.length := by
  cases spelled with
  | none => exact separates.no_exponent
  | unsigned marks power =>
      rw [List.cons_append, exponentWidth_unsigned marks (power.startsWithDigit rest),
        takeWhile_append_eq power.2 separates.no_digit, List.length_cons, Nat.add_comm]
  | signed marks signs power =>
      rw [List.cons_append, List.cons_append,
        exponentWidth_signed marks signs (power.startsWithDigit rest),
        takeWhile_append_eq power.2 separates.no_digit, List.length_cons, List.length_cons]
      omega

private theorem Numeral.width_eq {spelling rest : Text} (numeral : Numeral spelling)
    (separates : Separates rest) : Lexeme.numberWidth (spelling ++ rest) = spelling.length := by
  obtain ⟨mantissa, exponent, rfl, spelled, power⟩ := numeral
  have mantissa_width : mantissaWidth (mantissa ++ (exponent ++ rest)) = mantissa.length := by
    cases power with
    | none => exact spelled.width_eq separates.no_digit separates.no_fraction
    | unsigned marks _ | signed marks _ _ =>
        exact spelled.width_eq (by simpa using not_digit_of_mark marks)
          (fractionWidth_of_mark marks _)
  rw [numberWidth_eq, List.append_assoc, mantissa_width, List.drop_left,
    power.width_eq separates, List.length_append]

namespace Longest

theorem number {spelling rest : Text} (numeral : Numeral spelling) (separates : Separates rest) :
    Longest (spelling ++ rest) .number spelling spelling := by
  refine ⟨.number numeral, List.prefix_append _ _, ?_⟩
  intro kind other value also begins
  have width := numeral.width_eq separates
  cases spelling with
  | nil => exact absurd rfl numeral.ne_nil
  | cons first tail =>
      have starts := numeral.begins (List.prefix_append (first :: tail) rest)
      rw [← width]
      exact number_longest starts (also.front begins) begins

theorem word {first : UInt8} {tail rest : Text} (starts : Lexeme.isWordStart first)
    (parts : ∀ byte ∈ tail, Lexeme.isWordPart byte) (separates : Separates rest) :
    Longest (first :: tail ++ rest) (Lexeme.wordKind (first :: tail)) (first :: tail)
      (first :: tail) := by
  refine ⟨.word starts parts, List.prefix_append _ _, ?_⟩
  intro kind other value also begins
  have inside : ∀ byte ∈ first :: tail, Lexeme.isWordPart byte := by
    intro byte member
    rcases List.mem_cons.mp member with rfl | member
    · exact wordPart_of_wordStart starts
    · exact parts byte member
  have run := takeWhile_append_eq inside separates.no_word
  have bound : other.length ≤ ((first :: tail ++ rest).takeWhile Lexeme.isWordPart).length :=
    word_longest starts (also.front begins) begins
  rwa [run] at bound

theorem doubleQuoted {body value : Text} (inside : Body Text.doubleQuote body value)
    (rest : Text) :
    Longest (Text.doubleQuote :: (body ++ [Text.doubleQuote]) ++ rest) .doubleQuoted
      (Text.doubleQuote :: (body ++ [Text.doubleQuote])) value := by
  have spells : Spells .doubleQuoted _ value := .doubleQuoted inside
  refine ⟨spells, List.prefix_append _ _, ?_⟩
  intro kind other another also begins
  have own_begins := List.prefix_append (Text.doubleQuote :: (body ++ [Text.doubleQuote])) rest
  obtain ⟨-, scanned⟩ := quoted_unique (.inl rfl) (spells.front own_begins) own_begins
  obtain ⟨-, again⟩ := quoted_unique (.inl rfl) (also.front begins) begins
  rw [scanned, Except.ok.injEq, Prod.mk.injEq] at again
  exact Nat.le_of_eq again.2.symm

/-- Of the operators only a point may be taken for something else, the beginning of a number. -/
theorem operator {kind : TokenKind} {spelling rest : Text}
    (listed : (spelling, kind) ∈ Lexeme.operators)
    (no_longer : ∀ entry ∈ Lexeme.operators, entry.1 <+: spelling ++ rest →
      entry.1.length ≤ spelling.length)
    (no_number : spelling = [Text.dot] → ¬ Lexeme.startsWithDigit rest) :
    Longest (spelling ++ rest) kind spelling spelling := by
  refine ⟨.operator listed, List.prefix_append _ _, ?_⟩
  intro other_kind other value also begins
  cases spelling with
  | nil => exact absurd rfl (operators_ne_nil _ listed)
  | cons first tail =>
      obtain ⟨not_digit, not_word, not_double, not_single, -, short⟩ :=
        operator_begins listed (List.prefix_append (first :: tail) rest)
      have not_number : ¬ beginsNumber first (tail ++ rest) := by
        intro starts
        simp only [beginsNumber, not_digit, Bool.false_or, Bool.and_eq_true,
          decide_eq_true_eq] at starts
        obtain ⟨rfl, digit⟩ := starts
        obtain rfl : tail = [] := by simpa using short rfl
        exact no_number rfl digit
      obtain ⟨other_listed, -⟩ := operator_only not_number not_word
        (not_or.mpr ⟨not_double, not_single⟩) (also.front begins)
      exact no_longer _ other_listed begins

theorem operators_tail :
    ∀ entry ∈ Lexeme.operators, ∀ byte ∈ entry.1.tail, joinsOperator byte := by
  decide +kernel

/-- An operator ends in front of a byte that no operator goes on with. -/
theorem operator_of_head {kind : TokenKind} {spelling tail : Text} {byte : UInt8}
    (listed : (spelling, kind) ∈ Lexeme.operators) (ends : ¬ joinsOperator byte)
    (no_number : spelling = [Text.dot] → ¬ Text.isDigit byte) :
    Longest (spelling ++ byte :: tail) kind spelling spelling := by
  refine operator listed ?_ no_number
  intro entry entry_listed begins
  apply Nat.le_of_not_lt
  intro longer
  obtain ⟨more, split⟩ := List.prefix_of_prefix_length_le (List.prefix_append spelling _) begins
    (Nat.le_of_lt longer)
  rw [← split] at longer begins
  cases more with
  | nil => simp at longer
  | cons next more =>
      have more_begins := (List.prefix_append_right_inj spelling).mp begins
      obtain ⟨rfl, -⟩ := List.cons_prefix_cons.mp more_begins
      have inside : next ∈ entry.1.tail := by
        rw [← split, List.tail_append_of_ne_nil (operators_ne_nil _ listed)]
        exact List.mem_append_right _ List.mem_cons_self
      exact ends (operators_tail _ entry_listed next inside)

end Longest

/-- The operators that are the beginning of nothing else. -/
def marks : List (Text × TokenKind) :=
  [(Text.ascii "(", .openParenthesis), (Text.ascii ")", .closeParenthesis),
    (Text.ascii "[", .openBracket), (Text.ascii "]", .closeBracket), (Text.ascii ",", .comma),
    (Text.ascii "@", .atSign)]

private theorem marks_alone : ∀ mark ∈ marks, mark ∈ Lexeme.operators ∧ mark.1 ≠ [Text.dot] ∧
    ∀ entry ∈ Lexeme.operators, mark.1 <+: entry.1 → entry.1.length ≤ mark.1.length := by
  decide

theorem Longest.mark {kind : TokenKind} {spelling : Text} (listed : (spelling, kind) ∈ marks)
    (rest : Text) : Longest (spelling ++ rest) kind spelling spelling := by
  obtain ⟨is_operator, not_point, alone⟩ := marks_alone _ listed
  refine operator is_operator ?_ (fun point => absurd point not_point)
  intro entry entry_listed begins
  apply Nat.le_of_not_lt
  intro longer
  have longer_begins := List.prefix_of_prefix_length_le (List.prefix_append spelling _) begins
    (Nat.le_of_lt longer)
  exact Nat.not_lt.mpr (alone entry entry_listed longer_begins) longer

end Lexicon
end Formulary
