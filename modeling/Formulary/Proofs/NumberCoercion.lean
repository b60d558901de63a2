import Formulary.Value.Coercion
import Formulary.Proofs.NumeralTexts
import Formulary.Proofs.RoundTrip

/-!
# Numbers survive their text

Every number is found again when its text is coerced, up to the sign of zero.  The text of a number
that is not negative is also one lexeme, which a formula reads as a literal of that number.
-/

namespace Formulary

/-- A numeral is one lexeme. -/
theorem Lexicon.tilesText_numeral {spelling : Text} (numeral : Numeral spelling) (file : Text)
    (firstLine : Int) :
    ∃ token last, TilesText file firstLine spelling [token] last [] ∧
      token.kind = .number ∧ token.value = spelling := by
  let start : Position := ⟨firstLine, 1⟩
  let token : Token := ⟨.number, spelling, start.locate (Token.fileName file) spelling.length⟩
  have longest : Longest (spelling ++ []) .number spelling spelling := .number numeral .nil
  have lexeme : Tiles (Token.fileName file) start (spelling ++ []) [token]
      (start.afterText spelling) [] := .lexeme longest .stop
  rw [List.append_nil] at lexeme
  exact ⟨token, _, lexeme.tilesText, rfl, rfl⟩

namespace Number

/-- The minus sign of a negative number. -/
def minus (negative : Bool) : Text :=
  if negative then Text.ascii "-" else []

theorem toText_of_pos (negative : Bool) {magnitude : Magnitude} (positive : 0 < magnitude.units) :
    toText (.finite negative magnitude) = minus negative ++ toText (.finite false magnitude) := by
  rw [toText, toText, if_neg (Nat.ne_of_gt positive), if_neg (Nat.ne_of_gt positive),
    if_neg Bool.false_ne_true, List.nil_append, minus]

theorem readSign_minus (negative : Bool) {spelling : Text} (numeral : Lexicon.Numeral spelling) :
    Numeral.readSign (minus negative ++ spelling) = (negative, spelling) := by
  cases negative
  · exact numeral.readSign_eq
  · rfl

/-- Coercion takes a numeral with or without a minus sign as a decimal. -/
theorem ofText_numeral (negative : Bool) {spelling : Text} {numeral : Numeral}
    (written : Numeral.Written spelling numeral) :
    ofText (minus negative ++ spelling) = numeral.toDecimal.toNumber negative := by
  have spelled := Numeral.spelled_of_read? written.read?_eq
  have signed : Numeral.Signed (minus negative ++ spelling) negative numeral := by
    cases negative
    · exact .plain spelled
    · exact .minus spelled
  have trimmed := Text.trim_eq_self fun byte member => (signed.apart member).1
  exact ofText_of_signed (trimmed.symm ▸ signed)

theorem toText_of_zero (negative : Bool) {magnitude : Magnitude} (zero : magnitude.units = 0) :
    toText (.finite negative magnitude) = toText (.finite false magnitude) := by
  rw [toText, toText, if_pos zero, if_pos zero]

/-- Coercion undoes writing a number, apart from the sign of zero. -/
theorem ofText_toText (negative : Bool) (magnitude : Magnitude) :
    ofText (toText (.finite negative magnitude)) =
      .finite (negative && decide (0 < magnitude.units)) magnitude := by
  obtain ⟨numeral, written, same⟩ := toText_written magnitude
  rcases Nat.eq_zero_or_pos magnitude.units with zero | positive
  · have unsigned := ofText_numeral false written
    rw [minus, if_neg Bool.false_ne_true, List.nil_append] at unsigned
    rw [toText_of_zero negative zero, unsigned, same, zero]
    simp
  · rw [toText_of_pos negative positive, ofText_numeral negative written,
      Decimal.toNumber_eq_finite_iff.mpr ⟨rfl, same⟩]
    simp [positive]

private theorem equals_unsigned (negative : Bool) (magnitude : Magnitude) :
    equals (.finite (negative && decide (0 < magnitude.units)) magnitude)
      (.finite negative magnitude) := by
  rcases Nat.eq_zero_or_pos magnitude.units with zero | positive
  · simp [equals, comparePlaces, place?, signedUnits, zero]
  · simp [equals, comparePlaces, place?, positive]

private theorem sign_of_zero_atMost {negative : Bool} {magnitude : Magnitude}
    (not_below : Number.zero.atMost (.finite negative magnitude)) :
    negative = false ∨ magnitude.units = 0 := by
  cases negative with
  | false => exact .inl rfl
  | true =>
      simp only [atMost, comparePlaces, place?, signedUnits, zero, Magnitude.zero, if_true,
        decide_eq_true_eq] at not_below
      right
      simpa using not_below

/-- The text of a number without a sign is one lexeme, which is a formula of its own. -/
theorem sequence_toText (magnitude : Magnitude) (file : Text) (firstLine : Int) :
    ∃ token ending, Token.sequence file firstLine (toText (.finite false magnitude)) =
        .ok [token, ending] ∧
      token.kind = .number ∧ token.value = toText (.finite false magnitude) ∧
      ending.kind = .endOfInput ∧
      Program.ofText file firstLine (toText (.finite false magnitude)) =
        .ok ⟨.literal (.number (.finite false magnitude)) token, token⟩ := by
  obtain ⟨numeral, written, -⟩ := toText_written magnitude
  have reads_back := ofLeading_toText magnitude
  obtain ⟨token, last, tiles, kind, value⟩ :=
    Lexicon.tilesText_numeral written.numeral file firstLine
  have denotes : Grammar.Denotes token (.number (.finite false magnitude)) := by
    rw [← reads_back, ← value]
    exact .number kind
  have phrase : Grammar.Derives .accessed [token]
      (.literal (.number (.finite false magnitude)) token) := .bare (.literal denotes)
  exact ⟨token, _, Lexicon.sequence_eq_ok_iff.mpr ⟨[token], last, tiles, rfl⟩, kind, value, rfl,
    Grammar.ofText_eq_ok_iff.mpr ⟨[token], last, tiles, phrase.conditional_of_accessed, rfl⟩⟩

end Number

namespace Value

/--
Coercing the text of a number gives an equal number, the same infinity or a NaN again.  The text of
a finite number that is not below zero is also a single number token, and the formula of this text
is a literal of an equal number.
-/
theorem toNumber_toText (x : Number) :
    (x.isFinite → (text (number x).toText).toNumber.equals x) ∧
    (∀ negative, x = .infinite negative →
      (text (number x).toText).toNumber = .infinite negative) ∧
    (x = .nan → (text (number x).toText).toNumber = .nan) ∧
    (x.isFinite → Number.zero.atMost x → ∀ file firstLine,
      ∃ token ending read,
        Token.sequence file firstLine (number x).toText = .ok [token, ending] ∧
        token.kind = .number ∧ token.value = (number x).toText ∧ ending.kind = .endOfInput ∧
        Program.ofText file firstLine (number x).toText =
          .ok ⟨.literal (.number read) token, token⟩ ∧
        read.equals x) := by
  refine ⟨?finite, ?infinite, ?nan, ?literal⟩
  case finite =>
    intro finite
    cases x with
    | nan | infinite => cases finite
    | finite negative magnitude =>
        simp only [toText, toNumber, Number.ofText_toText]
        exact Number.equals_unsigned negative magnitude
  case infinite =>
    rintro negative rfl
    cases negative <;> decide
  case nan =>
    rintro rfl
    decide
  case literal =>
    intro finite not_below file firstLine
    cases x with
    | nan | infinite => cases finite
    | finite negative magnitude =>
        obtain ⟨token, ending, sequenced, kind, value, ends, read⟩ :=
          Number.sequence_toText magnitude file firstLine
        obtain rfl | zero := Number.sign_of_zero_atMost not_below
        · refine ⟨token, ending, _, sequenced, kind, value, ends, read, ?_⟩
          simp [Number.equals, Number.comparePlaces, Number.place?]
        · rw [toText, Number.toText_of_zero negative zero]
          refine ⟨token, ending, _, sequenced, kind, value, ends, read, ?_⟩
          simp [Number.equals, Number.comparePlaces, Number.place?, Number.signedUnits, zero]

end Value
end Formulary
