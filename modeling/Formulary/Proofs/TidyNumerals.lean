import Formulary.Proofs.JsonWriting
import Formulary.Proofs.ScientificText

/-!
# Numerals without superfluous zeros

A tidy numeral is a JSON number that no zero can be left out of: there is none in front of other
digits, none at the end of a fraction and none in front of an exponent, and in front of an exponent
stands a single digit that is no zero.  Every layout of a number is tidy and keeps the value of the
scientific text that it is made of.
-/

namespace Formulary

open Lexicon (Digits)

namespace Json

/-- Nothing, or a point and digits that do not end in a zero. -/
inductive TidyFraction : Text → Prop where
  | none : TidyFraction []
  | some {digits} (part : Digits digits) (ends : digits.getLast? ≠ some Text.zeroDigit) :
      TidyFraction (Text.dot :: digits)

/-- A numeral without a sign and without superfluous zeros. -/
inductive TidyNumeral : Text → Prop where
  | plain {whole fraction} (digits : Digits whole)
      (begins : whole.head? = some Text.zeroDigit → whole = [Text.zeroDigit])
      (part : TidyFraction fraction) : TidyNumeral (whole ++ fraction)
  | scaled {first fraction sign power} (digit : Text.isDigit first)
      (nonzero : first ≠ Text.zeroDigit) (part : TidyFraction fraction) (signs : Text.isSign sign)
      (digits : Digits power) (begins : power.head? ≠ some Text.zeroDigit) :
      TidyNumeral (first :: fraction ++ 101 :: sign :: power)

private theorem TidyFraction.mantissa {whole fraction : Text} (part : TidyFraction fraction)
    (digits : Digits whole) : Lexicon.Mantissa (whole ++ fraction) := by
  cases part with
  | none => rw [List.append_nil]; exact .whole digits
  | some part => exact .fractional digits part

private theorem TidyFraction.startsWithDigit {fraction : Text} (part : TidyFraction fraction) :
    Lexeme.startsWithDigit fraction = false := by
  cases part <;> rfl

private theorem TidyNumeral.numeral {spelling : Text} (tidy : TidyNumeral spelling) :
    Lexicon.Numeral spelling := by
  cases tidy with
  | plain digits _ part => exact ⟨_, [], (List.append_nil _).symm, part.mantissa digits, .none⟩
  | scaled digit _ part signs digits =>
      have whole : Digits [_] := ⟨List.cons_ne_nil _ _, List.forall_mem_singleton.mpr digit⟩
      exact ⟨_, _, rfl, part.mantissa whole, .signed (by decide) signs digits⟩

private theorem TidyNumeral.leads {spelling : Text} (tidy : TidyNumeral spelling) :
    leads spelling := by
  cases tidy with
  | @plain whole fraction digits begins part =>
      obtain ⟨first, rest, rfl⟩ := List.exists_cons_of_ne_nil digits.1
      by_cases zero : first = Text.zeroDigit
      · subst zero
        obtain ⟨-, rfl⟩ := List.cons.inj (begins rfl)
        exact congrArg (fun starts => !starts) part.startsWithDigit
      · exact leads_of_nonzero (digits.2 first List.mem_cons_self) zero _
  | scaled digit nonzero => exact leads_of_nonzero digit nonzero _

/-- A tidy numeral with or without a minus sign is a JSON number. -/
theorem TidyNumeral.signed {spelling : Text} (tidy : TidyNumeral spelling) (negative : Bool) :
    Numeral (Number.minus negative ++ spelling) := by
  refine ⟨spelling, ?_, tidy.numeral, tidy.leads⟩
  cases negative
  · exact .inl rfl
  · exact .inr rfl

end Json

private theorem Text.getLast?_stripZeros {digits : Text} (nonzero : toNat digits ≠ 0) :
    (stripZeros digits).getLast? ≠ some zeroDigit := by
  intro last
  have kept := List.head?_dropWhile_not (· == zeroDigit) digits.reverse
  rw [stripZeros] at last
  split at last
  · rename_i empty
    exact dropZeros_ne_nil nonzero empty
  · rw [List.getLast?_reverse] at last
    rw [last] at kept
    cases kept

namespace Significand

/-- Digits that neither begin nor end with a zero are laid out tidily. -/
theorem tidy_layout {digits : Text} (all : Digits digits)
    (begins : digits.head? ≠ some Text.zeroDigit) (ends : digits.getLast? ≠ some Text.zeroDigit)
    (point : Int) : Json.TidyNumeral (layout ⟨digits, point⟩) := by
  obtain ⟨first, rest, rfl⟩ := List.exists_cons_of_ne_nil all.1
  simp only [layout]
  split
  · rw [← List.append_nil (_ ++ zeros _)]
    exact .plain (digits_append_zeros all _) (fun zero => absurd zero begins) .none
  split
  · rename_i inside
    have front : 0 < point.toNat := by omega
    rw [List.append_assoc, point_append]
    refine .plain (digits_take all front) (fun zero => absurd ?_ begins)
      (.some (digits_drop all (by omega)) ?_)
    · rwa [List.head?_take, if_neg (Nat.ne_of_gt front)] at zero
    · rwa [List.getLast?_drop, if_neg (by omega)]
  split
  · rw [List.append_assoc, zero_point_append]
    refine .plain Text.digits_zero (fun _ => rfl) (.some (digits_zeros_append all _) ?_)
    rwa [List.getLast?_append_of_ne_nil _ all.1]
  · obtain ⟨sign, signs, -, spelled⟩ := Numeral.exponentText_eq (point - 1)
    obtain ⟨leading, others, power, -, nonzero⟩ :=
      Text.ofNat_begins (show 0 < (point - 1).natAbs by omega)
    have no_zero : (Text.ofNat (point - 1).natAbs).head? ≠ some Text.zeroDigit := by
      rw [power]
      exact fun zero => nonzero (Option.some.inj zero)
    rw [spelled]
    refine .scaled (all.2 first List.mem_cons_self) (fun zero => begins (congrArg some zero)) ?_
      signs (Text.digits_ofNat _) no_zero
    split
    · rename_i several
      rw [point_append]
      refine .some (digits_drop all several) ?_
      rwa [List.getLast?_drop, if_neg (Nat.not_le.mpr several)]
    · exact .none

/-- The digits of a decimal begin and end with no zero, and are laid out tidily. -/
theorem tidy_layout_ofDecimal {decimal : Decimal} (nonzero : decimal.coefficient ≠ 0) :
    Json.TidyNumeral (ofDecimal decimal).layout := by
  obtain ⟨count, split, nonempty⟩ := ofDecimal_split nonzero
  obtain ⟨first, rest, spelled, -, first_nonzero⟩ :=
    Text.ofNat_begins (Nat.pos_of_ne_zero nonzero)
  refine tidy_layout (ofDecimal_digits nonzero) (fun zero => ?_) ?_ _
  · rw [spelled] at split
    have head := congrArg List.head? split
    rw [List.head?_append_of_ne_nil _ nonempty, zero] at head
    exact first_nonzero (Option.some.inj head)
  · refine Text.getLast?_stripZeros ?_
    rwa [Text.toNat_ofNat]

end Significand

/-- The value of a decimal numeral, which may have a sign. -/
def Text.worth? (text : Text) : Option ℚ :=
  let (negative, unsigned) := Numeral.readSign text
  match Numeral.read? unsigned with
  | some (numeral, []) =>
      some (if negative then -numeral.toDecimal.value else numeral.toDecimal.value)
  | _ => none

private theorem Text.worth?_minus {spelling : Text} {numeral : Numeral}
    (spelled : Lexicon.Numeral spelling) (read : Numeral.read? spelling = some (numeral, []))
    (negative : Bool) :
    worth? (Number.minus negative ++ spelling) =
      some (if negative then -numeral.toDecimal.value else numeral.toDecimal.value) := by
  simp only [worth?, Number.readSign_minus negative spelled, read]

private theorem Decimal.worth?_scientific {decimal : Decimal} (nonzero : decimal.coefficient ≠ 0) :
    decimal.scientific.worth? = some decimal.value := by
  have worth := Text.worth?_minus (numeral_scientific decimal) (read?_scientific decimal) false
  rwa [toDecimal_scientificNumeral nonzero] at worth

/--
The text without its sign is a single number token and a JSON number without superfluous zeros, with
its sign it is a JSON number and denotes the value.
-/
structure Shows (negative : Bool) (spelling : Text) (value : ℚ) : Prop where
  worth : (Number.minus negative ++ spelling).worth? = some (if negative then -value else value)
  json : Json.Numeral (Number.minus negative ++ spelling)
  tidy : Json.TidyNumeral spelling
  token (file : Text) (firstLine : Int) : ∃ token ending,
    Token.sequence file firstLine spelling = .ok [token, ending] ∧ token.kind = .number ∧
      token.value = spelling ∧ ending.kind = .endOfInput

/-- The layout of a decimal shows the decimal. -/
theorem Significand.layout_shows {decimal : Decimal} (nonzero : decimal.coefficient ≠ 0)
    (negative : Bool) : Shows negative (ofDecimal decimal).layout decimal.value := by
  have tidy := tidy_layout_ofDecimal nonzero
  obtain ⟨numeral, written, same, -⟩ := layout_worth (ofDecimal_digits nonzero)
  rw [ofDecimal_value nonzero] at same
  refine ⟨?worth, tidy.signed negative, tidy, fun file firstLine => ?token⟩
  case worth => rw [Text.worth?_minus tidy.numeral written.read?_eq, same]
  case token =>
    obtain ⟨token, last, tiles, kind, value⟩ :=
      Lexicon.tilesText_numeral tidy.numeral file firstLine
    exact ⟨token, _, Lexicon.sequence_eq_ok_iff.mpr ⟨[token], last, tiles, rfl⟩, kind, value, rfl⟩

namespace Number

/--
The text of a number, behind its sign, is made of the first scientific text that reads back, with
nothing cut out of it that is not there; it denotes the value of this text with the sign in front,
is a JSON number without superfluous zeros and a single number token.  The same holds of whatever
is made of the scientific text of a decimal with any digits and the exponents that numbers have.
-/
theorem toText_of_scientific :
    (∀ (negative : Bool) (decimal : Decimal), decimal.coefficient ≠ 0 →
      -324 < decimal.topExponent → decimal.topExponent ≤ 309 →
      ∃ spelling value, Text.ofScientific? decimal.scientific = some spelling ∧
        decimal.scientific.worth? = some value ∧ Shows negative spelling value) ∧
    (∀ (negative : Bool) (magnitude : Magnitude), 0 < magnitude.units →
      ∃ precision spelling value, 1 ≤ precision ∧ precision ≤ 17 ∧
        Text.digitCount (Decimal.approximate magnitude precision).coefficient = precision ∧
        Decimal.shortestScientific magnitude =
          (Decimal.approximate magnitude precision).scientific ∧
        Text.ofScientific? (Decimal.shortestScientific magnitude) = some spelling ∧
        toText (.finite negative magnitude) = minus negative ++ spelling ∧
        (Decimal.shortestScientific magnitude).worth? = some value ∧
        Shows negative spelling value) := by
  constructor
  · intro negative decimal nonzero low high
    exact ⟨_, _, Decimal.ofScientific?_scientific nonzero low high,
      Decimal.worth?_scientific nonzero, Significand.layout_shows nonzero negative⟩
  · intro negative magnitude positive
    have nonzero := Decimal.shortest_coefficient positive
    have ⟨low, high⟩ := Decimal.topExponent_shortest positive
    obtain ⟨precision, some_digit, at_most, same, count, text⟩ :=
      Decimal.shortestScientific_first positive
    refine ⟨precision, (Significand.ofDecimal (Decimal.shortest magnitude)).layout,
      (Decimal.shortest magnitude).value, some_digit, at_most, count, text, ?_⟩
    rw [text, ← same]
    refine ⟨Decimal.ofScientific?_scientific nonzero low high, ?_,
      Decimal.worth?_scientific nonzero, Significand.layout_shows nonzero negative⟩
    rw [toText, if_neg (Nat.ne_of_gt positive), minus]

end Number
end Formulary
