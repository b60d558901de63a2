import Mathlib.Data.List.TakeWhile
import Formulary.Proofs.Lexicon

/-!
# Scanning finds the longest lexeme

The scanner looks at one or two bytes to choose between numbers, words, strings and operators, and
then takes as much as it can.  No lexeme of another sort is longer, so what it takes is the longest
lexeme there is, and where it fails there is none.
-/

namespace Formulary
namespace Lexicon

section Runs

variable {holds : UInt8 → Bool} {front rest : Text}

private theorem length_le_takeWhile (inside : ∀ byte ∈ front, holds byte) (rest : Text) :
    front.length ≤ ((front ++ rest).takeWhile holds).length := by
  rw [List.takeWhile_append_of_pos inside, List.length_append]
  exact Nat.le_add_right _ _

theorem takeWhile_append_eq (inside : ∀ byte ∈ front, holds byte)
    (outside : ∀ byte ∈ rest.head?, ¬ holds byte) : (front ++ rest).takeWhile holds = front := by
  rw [List.takeWhile_append_of_pos inside]
  cases rest with
  | nil => rw [List.takeWhile_nil, List.append_nil]
  | cons byte rest =>
      rw [List.takeWhile_cons_of_neg (outside byte rfl), List.append_nil]

private theorem take_takeWhile_length (text : Text) :
    text.take (text.takeWhile holds).length = text.takeWhile holds :=
  List.prefix_iff_eq_take.mp (List.takeWhile_prefix holds) |>.symm

end Runs

theorem not_digit_dot : ¬ Text.isDigit Text.dot := by decide

theorem not_digit_of_mark {byte : UInt8} (marks : Text.isExponentMark byte) :
    ¬ Text.isDigit byte := by
  simp only [Text.isExponentMark, Text.isDigit] at *
  grind

theorem ne_dot_of_mark {byte : UInt8} (marks : Text.isExponentMark byte) : byte ≠ Text.dot := by
  rintro rfl
  cases marks

theorem not_digit_of_sign {byte : UInt8} (signs : Text.isSign byte) : ¬ Text.isDigit byte := by
  simp only [Text.isSign, Text.isDigit] at *
  grind

theorem Digits.startsWithDigit {digits : Text} (all : Digits digits) (rest : Text) :
    Lexeme.startsWithDigit (digits ++ rest) := by
  obtain ⟨nonempty, all⟩ := all
  cases digits with
  | nil => exact absurd rfl nonempty
  | cons byte digits => exact all byte List.mem_cons_self

private theorem digits_takeWhile {text : Text} (starts : Lexeme.startsWithDigit text) :
    Digits (text.takeWhile Text.isDigit) := by
  refine ⟨?_, fun _ => List.mem_takeWhile_imp⟩
  cases text with
  | nil => cases starts
  | cons byte rest =>
      rw [List.takeWhile_cons_of_pos (show Text.isDigit byte from starts)]
      exact List.cons_ne_nil _ _

private theorem fractionWidth_point {fraction : Text} (part : Lexeme.startsWithDigit fraction) :
    Lexeme.fractionWidth (Text.dot :: fraction) =
      1 + (fraction.takeWhile Text.isDigit).length := by
  simp [Lexeme.fractionWidth, part]

theorem fractionWidth_eq_zero {rest : Text} (no_point : ∀ byte ∈ rest.head?, byte ≠ Text.dot) :
    Lexeme.fractionWidth rest = 0 := by
  cases rest with
  | nil => rfl
  | cons byte rest => simp [Lexeme.fractionWidth, no_point byte rfl]

theorem fractionWidth_of_mark {mark : UInt8} (marks : Text.isExponentMark mark) (rest : Text) :
    Lexeme.fractionWidth (mark :: rest) = 0 :=
  fractionWidth_eq_zero (by simpa using ne_dot_of_mark marks)

/-- The width of a number without its exponent. -/
def mantissaWidth (text : Text) : Nat :=
  let whole := (text.takeWhile Text.isDigit).length
  whole + Lexeme.fractionWidth (text.drop whole)

theorem numberWidth_eq (text : Text) :
    Lexeme.numberWidth text =
      mantissaWidth text + Lexeme.exponentWidth (text.drop (mantissaWidth text)) := rfl

private theorem mantissaWidth_pointed {fraction : Text} (whole : Text)
    (inside : ∀ byte ∈ whole, Text.isDigit byte) (part : Lexeme.startsWithDigit fraction) :
    mantissaWidth (whole ++ Text.dot :: fraction) =
      whole.length + (1 + (fraction.takeWhile Text.isDigit).length) := by
  have run : (whole ++ Text.dot :: fraction).takeWhile Text.isDigit = whole :=
    takeWhile_append_eq inside (by simpa using not_digit_dot)
  rw [mantissaWidth, run, List.drop_left, fractionWidth_point part]

private theorem Mantissa.length_le {mantissa : Text} (spelled : Mantissa mantissa) (rest : Text) :
    mantissa.length ≤ mantissaWidth (mantissa ++ rest) := by
  cases spelled with
  | whole whole =>
      have run := length_le_takeWhile whole.2 rest
      exact Nat.le_trans run (Nat.le_add_right _ _)
  | @fractional digits fraction whole part =>
      have run := length_le_takeWhile part.2 rest
      rw [List.append_assoc, List.cons_append,
        mantissaWidth_pointed digits whole.2 (part.startsWithDigit rest)]
      simp only [List.length_append, List.length_cons]
      omega
  | @pointed fraction part =>
      have run := length_le_takeWhile part.2 rest
      have width := mantissaWidth_pointed [] (by simp) (part.startsWithDigit rest)
      rw [List.nil_append] at width
      rw [List.cons_append, width]
      simp only [List.length_cons, List.length_nil]
      omega

/-- A mantissa ends where neither a digit nor a fraction comes next. -/
theorem Mantissa.width_eq {mantissa rest : Text} (spelled : Mantissa mantissa)
    (no_digit : ∀ byte ∈ rest.head?, ¬ Text.isDigit byte)
    (no_fraction : Lexeme.fractionWidth rest = 0) :
    mantissaWidth (mantissa ++ rest) = mantissa.length := by
  cases spelled with
  | whole whole =>
      rw [mantissaWidth, takeWhile_append_eq whole.2 no_digit, List.drop_left, no_fraction]
      rfl
  | @fractional digits fraction whole part =>
      rw [List.append_assoc, List.cons_append,
        mantissaWidth_pointed digits whole.2 (part.startsWithDigit rest),
        takeWhile_append_eq part.2 no_digit]
      simp only [List.length_append, List.length_cons]
      omega
  | @pointed fraction part =>
      have width := mantissaWidth_pointed [] (by simp) (part.startsWithDigit rest)
      rw [List.nil_append, takeWhile_append_eq part.2 no_digit] at width
      rw [List.cons_append, width]
      simp only [List.length_cons, List.length_nil]
      omega

theorem exponentWidth_unsigned {mark : UInt8} (marks : Text.isExponentMark mark) {digits : Text}
    (starts : Lexeme.startsWithDigit digits) :
    Lexeme.exponentWidth (mark :: digits) = 1 + (digits.takeWhile Text.isDigit).length := by
  cases digits with
  | nil => cases starts
  | cons byte rest =>
      have digit : Text.isDigit byte := starts
      have no_sign : ¬ Text.isSign byte := fun sign => not_digit_of_sign sign digit
      simp [Lexeme.exponentWidth, marks, no_sign, digit]

theorem exponentWidth_signed {mark sign : UInt8} (marks : Text.isExponentMark mark)
    (signs : Text.isSign sign) {digits : Text} (starts : Lexeme.startsWithDigit digits) :
    Lexeme.exponentWidth (mark :: sign :: digits) =
      2 + (digits.takeWhile Text.isDigit).length := by
  have nonempty := (digits_takeWhile starts).1
  simp [Lexeme.exponentWidth, marks, signs, nonempty]

private theorem Exponent.length_le {exponent : Text} (spelled : Exponent exponent) (rest : Text) :
    exponent.length ≤ Lexeme.exponentWidth (exponent ++ rest) := by
  cases spelled with
  | none => exact Nat.zero_le _
  | unsigned marks power =>
      have run := length_le_takeWhile power.2 rest
      rw [List.cons_append, exponentWidth_unsigned marks (power.startsWithDigit rest),
        List.length_cons]
      omega
  | signed marks signs power =>
      have run := length_le_takeWhile power.2 rest
      rw [List.cons_append, List.cons_append,
        exponentWidth_signed marks signs (power.startsWithDigit rest)]
      simp only [List.length_cons]
      omega

theorem Numeral.length_le {spelling text : Text} (numeral : Numeral spelling)
    (begins : spelling <+: text) : spelling.length ≤ Lexeme.numberWidth text := by
  obtain ⟨rest, rfl⟩ := begins
  obtain ⟨mantissa, exponent, rfl, spelled, power⟩ := numeral
  have power_width := power.length_le rest
  rw [numberWidth_eq, List.append_assoc, List.length_append]
  -- An exponent begins with a letter, so that the mantissa ends exactly in front of it.
  cases power with
  | none =>
      have mantissa_width := spelled.length_le ([] ++ rest)
      rw [List.length_nil]
      omega
  | unsigned marks _ | signed marks _ _ =>
      rw [spelled.width_eq (by simpa using not_digit_of_mark marks)
        (by exact fractionWidth_of_mark marks _), List.drop_left]
      omega

private theorem fraction_cases (text : Text) :
    Lexeme.fractionWidth text = 0 ∨
      ∃ fraction, text.take (Lexeme.fractionWidth text) = Text.dot :: fraction ∧
        Digits fraction := by
  cases text with
  | nil => exact .inl rfl
  | cons byte rest =>
      by_cases starts : byte = Text.dot ∧ Lexeme.startsWithDigit rest
      · obtain ⟨rfl, starts⟩ := starts
        refine .inr ⟨rest.takeWhile Text.isDigit, ?_, digits_takeWhile starts⟩
        rw [fractionWidth_point starts, Nat.add_comm, List.take_succ_cons, take_takeWhile_length]
      · left
        simpa [Lexeme.fractionWidth] using starts

private theorem exponent_take (text : Text) : Exponent (text.take (Lexeme.exponentWidth text)) := by
  have missing (empty : Lexeme.exponentWidth text = 0) :
      Exponent (text.take (Lexeme.exponentWidth text)) := by
    rw [empty]
    exact .none
  cases text with
  | nil => exact .none
  | cons mark rest =>
      by_cases marks : Text.isExponentMark mark
      · by_cases starts : Lexeme.startsWithDigit rest
        · rw [exponentWidth_unsigned marks starts, Nat.add_comm, List.take_succ_cons,
            take_takeWhile_length]
          exact .unsigned marks (digits_takeWhile starts)
        · cases rest with
          | nil => exact missing (by simp [Lexeme.exponentWidth])
          | cons sign digits =>
              have no_digit : ¬ Text.isDigit sign := starts
              by_cases signs : Text.isSign sign
              · by_cases after : Lexeme.startsWithDigit digits
                · rw [exponentWidth_signed marks signs after, Nat.add_comm, List.take_succ_cons,
                    List.take_succ_cons, take_takeWhile_length]
                  exact .signed marks signs (digits_takeWhile after)
                · cases digits with
                  | nil => exact missing (by simp [Lexeme.exponentWidth, signs])
                  | cons digit digits =>
                      have no_digit : ¬ Text.isDigit digit := after
                      exact missing (by simp [Lexeme.exponentWidth, signs, no_digit])
              · exact missing (by simp [Lexeme.exponentWidth, signs, no_digit])
      · exact missing (by simp [Lexeme.exponentWidth, marks])

/-- A number begins with these bytes. -/
def beginsNumber (first : UInt8) (rest : Text) : Bool :=
  Text.isDigit first || (first = Text.dot && Lexeme.startsWithDigit rest)

private theorem mantissa_take {first : UInt8} {rest : Text} (starts : beginsNumber first rest) :
    Mantissa ((first :: rest).take (mantissaWidth (first :: rest))) := by
  rw [mantissaWidth, List.take_add, take_takeWhile_length]
  by_cases digit : Text.isDigit first
  · have whole : Digits ((first :: rest).takeWhile Text.isDigit) := digits_takeWhile digit
    rcases fraction_cases ((first :: rest).drop
      ((first :: rest).takeWhile Text.isDigit).length) with none | ⟨fraction, point, part⟩
    · rw [none, List.take_zero, List.append_nil]
      exact .whole whole
    · rw [point]
      exact .fractional whole part
  · simp only [beginsNumber, digit, Bool.false_or, Bool.and_eq_true, decide_eq_true_eq] at starts
    obtain ⟨rfl, starts⟩ := starts
    rw [List.takeWhile_cons_of_neg digit, List.length_nil, List.drop_zero, List.nil_append,
      fractionWidth_point starts, Nat.add_comm, List.take_succ_cons, take_takeWhile_length]
    exact .pointed (digits_takeWhile starts)

theorem numeral_take {first : UInt8} {rest : Text} (starts : beginsNumber first rest) :
    Numeral ((first :: rest).take (Lexeme.numberWidth (first :: rest))) := by
  rw [numberWidth_eq, List.take_add]
  exact ⟨_, _, rfl, mantissa_take starts, exponent_take _⟩

private theorem Digits.begins {digits rest : Text} {first : UInt8} (all : Digits digits)
    (begins : digits <+: first :: rest) : Text.isDigit first := by
  obtain ⟨nonempty, all⟩ := all
  cases digits with
  | nil => exact absurd rfl nonempty
  | cons byte digits =>
      obtain ⟨rfl, -⟩ := List.cons_prefix_cons.mp begins
      exact all _ List.mem_cons_self

private theorem Mantissa.begins {mantissa rest : Text} {first : UInt8} (spelled : Mantissa mantissa)
    (begins : mantissa <+: first :: rest) : beginsNumber first rest := by
  cases spelled with
  | whole whole => simp [beginsNumber, whole.begins begins]
  | fractional whole part =>
      simp [beginsNumber, whole.begins ((List.prefix_append _ _).trans begins)]
  | pointed part =>
      obtain ⟨rfl, inner⟩ := List.cons_prefix_cons.mp begins
      obtain ⟨after, rfl⟩ := inner
      simp [beginsNumber, part.startsWithDigit after]

theorem Numeral.begins {spelling rest : Text} {first : UInt8} (numeral : Numeral spelling)
    (begins : spelling <+: first :: rest) : beginsNumber first rest := by
  obtain ⟨mantissa, exponent, rfl, spelled, -⟩ := numeral
  exact spelled.begins ((List.prefix_append _ _).trans begins)

section Strings

variable {quote : UInt8} (quote_ne : quote ≠ Text.backslash)

theorem quotedBody_quote (quote : UInt8) (offset : Nat) (rest : Text) :
    Lexeme.quotedBody quote offset (quote :: rest) = .ok ([], offset + 1) := by
  rw [Lexeme.quotedBody.eq_def]
  simp only [if_true]

theorem quotedBody_plain {byte : UInt8} (not_quote : byte ≠ quote)
    (not_backslash : byte ≠ Text.backslash) (offset : Nat) (rest : Text) :
    Lexeme.quotedBody quote offset (byte :: rest) =
      Lexeme.prepend [byte] <$> Lexeme.quotedBody quote (offset + 1) rest := by
  rw [Lexeme.quotedBody.eq_def]
  simp only [not_quote, not_backslash, if_false]

private theorem prepend_prepend (front back : Text) (body : Except Lexeme.Failure (Text × Nat)) :
    Lexeme.prepend front <$> Lexeme.prepend back <$> body =
      Lexeme.prepend (front ++ back) <$> body := by
  cases body with
  | error failure => rfl
  | ok result => exact congrArg (fun read => Except.ok (read, _)) (List.append_assoc ..).symm

private theorem prepend_eq_ok {bytes value : Text} {width : Nat}
    {body : Except Lexeme.Failure (Text × Nat)}
    (scanned : Lexeme.prepend bytes <$> body = .ok (value, width)) :
    ∃ inner, body = .ok (inner, width) ∧ value = bytes ++ inner := by
  cases body with
  | error failure => cases scanned
  | ok result =>
      cases scanned
      exact ⟨result.1, rfl, rfl⟩

theorem map_eq_error {α β ε : Type} {f : α → β} {outcome : Except ε α} {failure : ε}
    (failed : f <$> outcome = .error failure) : outcome = .error failure := by
  cases outcome with
  | error other =>
      cases failed
      rfl
  | ok value => cases failed

include quote_ne

theorem quotedBody_escaped {byte : UInt8} (not_unicode : byte ≠ Lexeme.unicodeMark)
    (offset : Nat) (rest : Text) :
    Lexeme.quotedBody quote offset (Text.backslash :: byte :: rest) =
      Lexeme.prepend [Lexeme.unescape byte] <$> Lexeme.quotedBody quote (offset + 2) rest := by
  rw [Lexeme.quotedBody.eq_def]
  simp only [quote_ne.symm, not_unicode, if_false, if_true]

theorem quotedBody_unicode {a b c d : UInt8} {unit : Nat}
    (digits : Lexeme.codeUnit? a b c d = some unit) (offset : Nat) (rest : Text) :
    Lexeme.quotedBody quote offset
        (Text.backslash :: Lexeme.unicodeMark :: a :: b :: c :: d :: rest) =
      Lexeme.prepend (Text.Utf8.encodeUnit unit) <$>
        Lexeme.quotedBody quote (offset + 6) rest := by
  rw [Lexeme.quotedBody.eq_def]
  simp only [quote_ne.symm, digits, if_false, if_true]

/-- Behind a body the rest is read from the offset that the body has been read to. -/
theorem Body.quotedBody_append {body value : Text} (inside : Body quote body value) (offset : Nat)
    (rest : Text) :
    Lexeme.quotedBody quote offset (body ++ rest) =
      Lexeme.prepend value <$> Lexeme.quotedBody quote (offset + body.length) rest := by
  induction inside generalizing offset with
  | empty =>
      rw [List.nil_append, List.length_nil, Nat.add_zero]
      exact (id_map _).symm
  | plain not_quote not_backslash more induction =>
      rw [List.cons_append, quotedBody_plain not_quote not_backslash, induction, List.length_cons,
        Nat.add_right_comm offset, Nat.add_assoc offset, prepend_prepend, List.singleton_append]
  | escaped not_unicode more induction =>
      rw [List.cons_append, List.cons_append, quotedBody_escaped quote_ne not_unicode, induction,
        List.length_cons, List.length_cons, Nat.add_right_comm offset, Nat.add_assoc offset,
        prepend_prepend, List.singleton_append]
  | unicode digits more induction =>
      simp only [List.cons_append, List.length_cons]
      rw [quotedBody_unicode quote_ne digits, induction, Nat.add_right_comm offset,
        Nat.add_assoc offset, prepend_prepend]

private theorem Body.quotedBody_eq {body value : Text} (inside : Body quote body value)
    (offset : Nat) (rest : Text) :
    Lexeme.quotedBody quote offset (body ++ quote :: rest) =
      .ok (value, offset + body.length + 1) := by
  rw [inside.quotedBody_append quote_ne, quotedBody_quote]
  exact congrArg (fun read => Except.ok (read, _)) (List.append_nil value)

private theorem quotedBody_sound {offset width : Nat} {text value : Text}
    (scanned : Lexeme.quotedBody quote offset text = .ok (value, width)) :
    ∃ body rest, text = body ++ quote :: rest ∧ Body quote body value ∧
      width = offset + body.length + 1 := by
  induction offset, text using Lexeme.quotedBody.induct quote generalizing value with
  | case1 offset => cases scanned
  | case2 offset rest =>
      rw [quotedBody_quote] at scanned
      cases scanned
      exact ⟨[], rest, rfl, .empty, rfl⟩
  | case3 offset not_quote =>
      rw [Lexeme.quotedBody.eq_def] at scanned
      simp [not_quote] at scanned
  | case4 offset a b c d rest unit digits not_quote induction =>
      rw [quotedBody_unicode quote_ne digits] at scanned
      obtain ⟨inner, inner_scanned, rfl⟩ := prepend_eq_ok scanned
      obtain ⟨body, after, rfl, inside, rfl⟩ := induction inner_scanned
      refine ⟨_, after, rfl, .unicode digits inside, ?_⟩
      simp only [List.length_cons]
      omega
  | case5 offset a b c d rest digits not_quote =>
      rw [Lexeme.quotedBody.eq_def] at scanned
      simp [not_quote, digits] at scanned
  | case6 offset rest short not_quote =>
      rw [Lexeme.quotedBody.eq_def] at scanned
      simp only [not_quote, if_false, if_true] at scanned
      cases scanned
  | case7 offset escaped rest not_unicode not_quote induction =>
      rw [quotedBody_escaped quote_ne not_unicode] at scanned
      obtain ⟨inner, inner_scanned, rfl⟩ := prepend_eq_ok scanned
      obtain ⟨body, after, rfl, inside, rfl⟩ := induction inner_scanned
      refine ⟨_, after, rfl, .escaped not_unicode inside, ?_⟩
      simp only [List.length_cons]
      omega
  | case8 offset byte rest not_quote not_backslash induction =>
      rw [quotedBody_plain not_quote not_backslash] at scanned
      obtain ⟨inner, inner_scanned, rfl⟩ := prepend_eq_ok scanned
      obtain ⟨body, after, rfl, inside, rfl⟩ := induction inner_scanned
      refine ⟨_, after, rfl, .plain not_quote not_backslash inside, ?_⟩
      simp only [List.length_cons]
      omega

end Strings

theorem not_digit_of_wordStart {byte : UInt8} (starts : Lexeme.isWordStart byte) :
    ¬ Text.isDigit byte := by
  simp only [Text.isDigit, Lexeme.isWordStart, Text.isLetter, Text.isUpper, Text.isLower] at *
  grind

theorem wordPart_of_wordStart {byte : UInt8} (starts : Lexeme.isWordStart byte) :
    Lexeme.isWordPart byte := by
  simp [Lexeme.isWordPart, starts]

/-- Words, numbers and strings do not begin like operators, except that a number may begin with a
point. -/
theorem operators_apart : ∀ entry ∈ Lexeme.operators, ∀ first ∈ entry.1.head?,
    ¬ Text.isDigit first ∧ ¬ Lexeme.isWordStart first ∧ first ≠ Text.doubleQuote ∧
      first ≠ Text.singleQuote ∧ ¬ Text.isSpace first ∧
      (first = Text.dot → entry.1.length = 1) := by
  decide +kernel

theorem operators_ne_nil : ∀ entry ∈ Lexeme.operators, entry.1 ≠ [] := by decide

private theorem operators_sorted :
    Lexeme.operators.Pairwise fun longer shorter => shorter.1.length ≤ longer.1.length := by
  decide

theorem operator_begins {spelling : Text} {kind : TokenKind} {first : UInt8} {rest : Text}
    (listed : (spelling, kind) ∈ Lexeme.operators) (begins : spelling <+: first :: rest) :
    ¬ Text.isDigit first ∧ ¬ Lexeme.isWordStart first ∧ first ≠ Text.doubleQuote ∧
      first ≠ Text.singleQuote ∧ ¬ Text.isSpace first ∧
      (first = Text.dot → spelling.length = 1) := by
  have apart := operators_apart _ listed
  cases spelling with
  | nil => exact absurd rfl (operators_ne_nil _ listed)
  | cons byte tail =>
      obtain ⟨rfl, -⟩ := List.cons_prefix_cons.mp begins
      exact apart _ rfl

private theorem operator?_longest {text : Text} {lexeme : Lexeme}
    (found : Lexeme.operator? text = some lexeme) :
    (lexeme.value, lexeme.kind) ∈ Lexeme.operators ∧ lexeme.value <+: text ∧
      lexeme.width = lexeme.value.length ∧
      ∀ entry ∈ Lexeme.operators, entry.1 <+: text → entry.1.length ≤ lexeme.value.length := by
  simp only [Lexeme.operator?, Option.map_eq_some_iff] at found
  obtain ⟨⟨spelling, kind⟩, found, rfl⟩ := found
  obtain ⟨begins, before, after, split, earlier⟩ := List.find?_eq_some_iff_append.mp found
  have sorted := operators_sorted
  rw [split] at sorted
  refine ⟨List.mem_of_find?_eq_some found, List.isPrefixOf_iff_prefix.mp begins, rfl, ?_⟩
  intro entry listed entry_begins
  rw [split] at listed
  rcases List.mem_append.mp listed with listed | listed
  · have missed := earlier entry listed
    rw [List.isPrefixOf_iff_prefix.mpr entry_begins] at missed
    cases missed
  · rcases List.mem_cons.mp listed with rfl | listed
    · exact Nat.le_refl _
    · exact List.rel_of_pairwise_cons (List.pairwise_append.mp sorted).2.1 listed

private theorem operator?_none {text : Text} (missing : Lexeme.operator? text = none) :
    ∀ entry ∈ Lexeme.operators, ¬ entry.1 <+: text := by
  intro entry listed begins
  simp only [Lexeme.operator?, Option.map_eq_none_iff] at missing
  have missed := List.find?_eq_none.mp missing entry listed
  exact missed (List.isPrefixOf_iff_prefix.mpr begins)

/-! ## Lexemes -/

/-- The quote with which a text begins, as a lexeme kind. -/
theorem quoted_spells {quote : UInt8}
    (is_quote : quote = Text.doubleQuote ∨ quote = Text.singleQuote) {body value : Text}
    (inside : Body quote body value) :
    Spells (if quote = Text.doubleQuote then .doubleQuoted else .singleQuoted)
      (quote :: (body ++ [quote])) value := by
  rcases is_quote with rfl | rfl
  · exact .doubleQuoted inside
  · exact .singleQuoted inside

theorem quote_ne {quote : UInt8} (is_quote : quote = Text.doubleQuote ∨ quote = Text.singleQuote) :
    quote ≠ Text.backslash := by
  rcases is_quote with rfl | rfl <;> decide

/-- What the first bytes of a text say about the lexemes at its front. -/
inductive Front (first : UInt8) (rest : Text) : TokenKind → Text → Text → Prop where
  | number {spelling} (starts : beginsNumber first rest) (numeral : Numeral spelling) :
      Front first rest .number spelling spelling
  | word {tail} (starts : Lexeme.isWordStart first)
      (parts : ∀ byte ∈ tail, Lexeme.isWordPart byte) :
      Front first rest (Lexeme.wordKind (first :: tail)) (first :: tail) (first :: tail)
  | quoted {body value} (is_quote : first = Text.doubleQuote ∨ first = Text.singleQuote)
      (inside : Body first body value) :
      Front first rest (if first = Text.doubleQuote then .doubleQuoted else .singleQuoted)
        (first :: (body ++ [first])) value
  | operator {kind spelling} (listed : (spelling, kind) ∈ Lexeme.operators) :
      Front first rest kind spelling spelling

theorem Spells.front {kind : TokenKind} {spelling value : Text} {first : UInt8} {rest : Text}
    (spells : Spells kind spelling value) (begins : spelling <+: first :: rest) :
    Front first rest kind spelling value := by
  cases spells with
  | number numeral => exact .number (numeral.begins begins) numeral
  | word starts parts =>
      obtain ⟨rfl, -⟩ := List.cons_prefix_cons.mp begins
      exact .word starts parts
  | doubleQuoted inside =>
      obtain ⟨rfl, -⟩ := List.cons_prefix_cons.mp begins
      exact .quoted (.inl rfl) inside
  | singleQuoted inside =>
      obtain ⟨rfl, -⟩ := List.cons_prefix_cons.mp begins
      exact .quoted (.inr rfl) inside
  | operator listed => exact .operator listed

theorem Numeral.ne_nil {spelling : Text} (numeral : Numeral spelling) : spelling ≠ [] := by
  obtain ⟨mantissa, exponent, rfl, spelled, -⟩ := numeral
  cases spelled with
  | whole whole => exact fun empty => whole.1 (List.append_eq_nil_iff.mp empty).1
  | fractional | pointed => simp

private theorem fractionWidth_le (text : Text) : Lexeme.fractionWidth text ≤ text.length := by
  cases text with
  | nil => exact Nat.zero_le _
  | cons byte rest =>
      have run := (List.takeWhile_prefix (l := rest) Text.isDigit).length_le
      rw [Lexeme.fractionWidth, List.length_cons]
      split <;> omega

private theorem exponentWidth_le (text : Text) : Lexeme.exponentWidth text ≤ text.length := by
  cases text with
  | nil => exact Nat.zero_le _
  | cons mark rest =>
      have sign_run := (List.takeWhile_prefix (l := rest.take 1) Text.isSign).length_le
      have digit_run := (List.takeWhile_prefix
        (l := rest.drop ((rest.take 1).takeWhile Text.isSign).length) Text.isDigit).length_le
      rw [List.length_take] at sign_run
      rw [List.length_drop] at digit_run
      rw [Lexeme.exponentWidth, List.length_cons]
      split <;> omega

theorem numberWidth_le (text : Text) : Lexeme.numberWidth text ≤ text.length := by
  have whole := (List.takeWhile_prefix (l := text) Text.isDigit).length_le
  have fraction := fractionWidth_le (text.drop (text.takeWhile Text.isDigit).length)
  have exponent := exponentWidth_le (text.drop (mantissaWidth text))
  rw [List.length_drop] at fraction exponent
  have mantissa : mantissaWidth text ≤ text.length := by
    rw [mantissaWidth]
    omega
  rw [numberWidth_eq]
  omega

section Scanning

variable {first : UInt8} {rest : Text}

private theorem not_number_of_wordStart (starts : Lexeme.isWordStart first) :
    ¬ beginsNumber first rest := by
  intro number
  simp only [beginsNumber, not_digit_of_wordStart starts, Bool.false_or, Bool.and_eq_true,
    decide_eq_true_eq] at number
  obtain ⟨rfl, -⟩ := number
  cases starts

theorem not_number_of_quote (is_quote : first = Text.doubleQuote ∨ first = Text.singleQuote) :
    ¬ beginsNumber first rest := by
  rcases is_quote with rfl | rfl <;> exact Bool.false_ne_true

theorem not_wordStart_of_quote (is_quote : first = Text.doubleQuote ∨ first = Text.singleQuote) :
    ¬ Lexeme.isWordStart first := by
  rcases is_quote with rfl | rfl <;> decide

theorem number_longest (starts : beginsNumber first rest) {kind : TokenKind}
    {spelling value : Text} (front : Front first rest kind spelling value)
    (begins : spelling <+: first :: rest) :
    spelling.length ≤ Lexeme.numberWidth (first :: rest) := by
  cases front with
  | number _ numeral => exact numeral.length_le begins
  | word word_starts _ => exact absurd starts (not_number_of_wordStart word_starts)
  | quoted is_quote _ => exact absurd starts (not_number_of_quote is_quote)
  | operator listed =>
      obtain ⟨not_digit, -, -, -, -, short⟩ := operator_begins listed begins
      have point : first = Text.dot := by
        simp only [beginsNumber, not_digit, Bool.false_or, Bool.and_eq_true,
          decide_eq_true_eq] at starts
        exact starts.1
      have positive := List.length_pos_iff.mpr (numeral_take starts).ne_nil
      rw [List.length_take] at positive
      rw [short point]
      omega

theorem word_longest (starts : Lexeme.isWordStart first) {kind : TokenKind}
    {spelling value : Text} (front : Front first rest kind spelling value)
    (begins : spelling <+: first :: rest) :
    spelling.length ≤ ((first :: rest).takeWhile Lexeme.isWordPart).length := by
  cases front with
  | number number_starts _ => exact absurd number_starts (not_number_of_wordStart starts)
  | word _ parts =>
      obtain ⟨after, same⟩ := begins
      rw [← same]
      refine length_le_takeWhile (fun byte member => ?_) after
      rcases List.mem_cons.mp member with rfl | member
      · exact wordPart_of_wordStart starts
      · exact parts byte member
  | quoted is_quote _ => exact absurd starts (not_wordStart_of_quote is_quote)
  | operator listed => exact absurd starts (operator_begins listed begins).2.1

/-- A string has one end only, so no other lexeme begins with its quote. -/
theorem quoted_unique (is_quote : first = Text.doubleQuote ∨ first = Text.singleQuote)
    {kind : TokenKind} {spelling value : Text} (front : Front first rest kind spelling value)
    (begins : spelling <+: first :: rest) :
    kind = (if first = Text.doubleQuote then .doubleQuoted else .singleQuoted) ∧
      Lexeme.quotedBody first 1 rest = .ok (value, spelling.length) := by
  cases front with
  | number number_starts _ => exact absurd number_starts (not_number_of_quote is_quote)
  | word starts _ => exact absurd starts (not_wordStart_of_quote is_quote)
  | @quoted body value _ inside =>
      obtain ⟨-, after, rfl⟩ := List.cons_prefix_cons.mp begins
      refine ⟨rfl, ?_⟩
      rw [List.append_assoc, List.singleton_append, inside.quotedBody_eq (quote_ne is_quote)]
      simp only [List.length_cons, List.length_append, List.length_nil]
      congr 2
      omega
  | operator listed =>
      obtain ⟨-, -, not_double, not_single, -⟩ := operator_begins listed begins
      exact absurd is_quote (not_or.mpr ⟨not_double, not_single⟩)

theorem operator_only (no_number : ¬ beginsNumber first rest)
    (no_word : ¬ Lexeme.isWordStart first)
    (no_quote : ¬ (first = Text.doubleQuote ∨ first = Text.singleQuote)) {kind : TokenKind}
    {spelling value : Text} (front : Front first rest kind spelling value) :
    (spelling, kind) ∈ Lexeme.operators ∧ value = spelling := by
  cases front with
  | number starts _ => exact absurd starts no_number
  | word starts _ => exact absurd starts no_word
  | quoted is_quote _ => exact absurd is_quote no_quote
  | operator listed => exact ⟨listed, rfl⟩

private theorem length_take_numberWidth (text : Text) :
    (text.take (Lexeme.numberWidth text)).length = Lexeme.numberWidth text := by
  rw [List.length_take, Nat.min_eq_left (numberWidth_le _)]

private theorem number_scanned (starts : beginsNumber first rest) :
    Longest (first :: rest) .number ((first :: rest).take (Lexeme.numberWidth (first :: rest)))
      ((first :: rest).take (Lexeme.numberWidth (first :: rest))) := by
  refine ⟨.number (numeral_take starts), List.take_prefix _ _, ?_⟩
  intro kind other value also begins
  rw [length_take_numberWidth]
  exact number_longest starts (also.front begins) begins

private theorem word_scanned (starts : Lexeme.isWordStart first) :
    Longest (first :: rest) (Lexeme.word (first :: rest)).kind
      ((first :: rest).takeWhile Lexeme.isWordPart) (Lexeme.word (first :: rest)).value := by
  have run : (first :: rest).takeWhile Lexeme.isWordPart =
      first :: rest.takeWhile Lexeme.isWordPart :=
    List.takeWhile_cons_of_pos (wordPart_of_wordStart starts)
  refine ⟨?_, List.takeWhile_prefix _, ?_⟩
  · simp only [Lexeme.word, run]
    exact .word starts fun _ => List.mem_takeWhile_imp
  · intro kind other value also begins
    exact word_longest starts (also.front begins) begins

private theorem quoted_scanned (is_quote : first = Text.doubleQuote ∨ first = Text.singleQuote)
    {lexeme : Lexeme} (scanned : Lexeme.quoted first rest = .ok lexeme) :
    ∃ spelling, Longest (first :: rest) lexeme.kind spelling lexeme.value ∧
      lexeme.width = spelling.length := by
  cases outcome : Lexeme.quotedBody first 1 rest with
  | error failure => simp [Lexeme.quoted, outcome, Except.map] at scanned
  | ok result =>
      obtain ⟨value, width⟩ := result
      simp only [Lexeme.quoted, outcome, Except.map] at scanned
      cases scanned
      obtain ⟨body, after, rfl, inside, rfl⟩ := quotedBody_sound (quote_ne is_quote) outcome
      have same_width : 1 + body.length + 1 = (first :: (body ++ [first])).length := by
        simp only [List.length_cons, List.length_append, List.length_nil]
        omega
      refine ⟨first :: (body ++ [first]), ⟨quoted_spells is_quote inside, ?_, ?_⟩, same_width⟩
      · exact ⟨after, by simp⟩
      · intro kind other value also begins
        obtain ⟨-, again⟩ := quoted_unique is_quote (also.front begins) begins
        rw [outcome, Except.ok.injEq, Prod.mk.injEq] at again
        exact Nat.le_of_eq (again.2.symm.trans same_width)

private theorem operator_scanned (no_number : ¬ beginsNumber first rest)
    (no_word : ¬ Lexeme.isWordStart first)
    (no_quote : ¬ (first = Text.doubleQuote ∨ first = Text.singleQuote)) {lexeme : Lexeme}
    (found : Lexeme.operator? (first :: rest) = some lexeme) :
    Longest (first :: rest) lexeme.kind lexeme.value lexeme.value ∧
      lexeme.width = lexeme.value.length := by
  obtain ⟨listed, begins, width, longest⟩ := operator?_longest found
  refine ⟨⟨.operator listed, begins, ?_⟩, width⟩
  intro kind other value also also_begins
  obtain ⟨also_listed, -⟩ := operator_only no_number no_word no_quote (also.front also_begins)
  exact longest _ also_listed also_begins

theorem scan_eq :
    Lexeme.scan first rest =
      if beginsNumber first rest then .ok (Lexeme.number (first :: rest))
      else if Lexeme.isWordStart first then .ok (Lexeme.word (first :: rest))
      else if first = Text.doubleQuote || first = Text.singleQuote then Lexeme.quoted first rest
      else
        match Lexeme.operator? (first :: rest) with
        | some lexeme => .ok lexeme
        | none => .error ⟨.unexpectedByte first, 0⟩ := rfl

/-- What is scanned is the longest lexeme at the front of the text. -/
theorem scan_longest {lexeme : Lexeme} (scanned : Lexeme.scan first rest = .ok lexeme) :
    ∃ spelling, Longest (first :: rest) lexeme.kind spelling lexeme.value ∧
      lexeme.width = spelling.length := by
  rw [scan_eq] at scanned
  split at scanned
  · rename_i starts
    cases scanned
    exact ⟨_, number_scanned starts, (length_take_numberWidth _).symm⟩
  · rename_i no_number
    split at scanned
    · rename_i starts
      cases scanned
      exact ⟨_, word_scanned starts, rfl⟩
    · rename_i no_word
      split at scanned
      · rename_i quotes
        exact quoted_scanned (by simpa using quotes) scanned
      · rename_i no_quote
        split at scanned
        · rename_i found
          cases scanned
          exact ⟨_, operator_scanned no_number no_word (by simpa using no_quote) found⟩
        · cases scanned

/-- Where nothing is scanned, the text begins with no lexeme. -/
theorem scan_none {failure : Lexeme.Failure} (failed : Lexeme.scan first rest = .error failure)
    {kind : TokenKind} {spelling value : Text} (spells : Spells kind spelling value) :
    ¬ spelling <+: first :: rest := by
  intro begins
  have front := spells.front begins
  rw [scan_eq] at failed
  split at failed
  · cases failed
  · rename_i no_number
    split at failed
    · cases failed
    · rename_i no_word
      split at failed
      · rename_i quotes
        obtain ⟨-, scanned⟩ := quoted_unique (by simpa using quotes) front begins
        simp [Lexeme.quoted, scanned, Except.map] at failed
      · rename_i no_quote
        split at failed
        · cases failed
        · rename_i missing
          obtain ⟨listed, -⟩ := operator_only no_number no_word (by simpa using no_quote) front
          exact operator?_none missing _ listed begins

private theorem number_only (starts : beginsNumber first rest) {kind : TokenKind} {value : Text}
    (front : Front first rest kind (first :: rest) value) :
    kind = .number ∧ value = first :: rest := by
  generalize same : first :: rest = spelling at front
  cases front with
  | number _ _ => exact ⟨rfl, rfl⟩
  | word word_starts _ => exact absurd starts (not_number_of_wordStart word_starts)
  | quoted is_quote _ => exact absurd starts (not_number_of_quote is_quote)
  | operator listed =>
      subst same
      obtain ⟨not_digit, -, -, -, -, short⟩ := operator_begins listed (List.prefix_refl _)
      simp only [beginsNumber, not_digit, Bool.false_or, Bool.and_eq_true,
        decide_eq_true_eq] at starts
      obtain ⟨point, starts⟩ := starts
      have empty : rest = [] := by simpa using short point
      rw [empty] at starts
      cases starts

private theorem word_only (starts : Lexeme.isWordStart first) {kind : TokenKind}
    {spelling value : Text}
    (front : Front first rest kind spelling value) (begins : spelling <+: first :: rest) :
    kind = Lexeme.wordKind spelling ∧ value = spelling := by
  cases front with
  | number number_starts _ => exact absurd number_starts (not_number_of_wordStart starts)
  | word _ _ => exact ⟨rfl, rfl⟩
  | quoted is_quote _ => rcases is_quote with rfl | rfl <;> cases starts
  | operator listed => exact absurd starts (operator_begins listed begins).2.1

private theorem operators_injective : ∀ entry ∈ Lexeme.operators, ∀ other ∈ Lexeme.operators,
    entry.1 = other.1 → entry.2 = other.2 := by
  decide

end Scanning

theorem not_space_of_wordStart {byte : UInt8} (starts : Lexeme.isWordStart byte) :
    ¬ Text.isSpace byte := by
  simp only [Text.isSpace, Lexeme.isWordStart, Text.isLetter, Text.isUpper, Text.isLower] at *
  grind

theorem not_space_of_digit {byte : UInt8} (digit : Text.isDigit byte) : ¬ Text.isSpace byte := by
  simp only [Text.isSpace, Text.isDigit] at *
  grind

private theorem not_space_of_number {first : UInt8} {rest : Text}
    (starts : beginsNumber first rest) : ¬ Text.isSpace first := by
  by_cases digit : Text.isDigit first
  · exact not_space_of_digit digit
  · simp only [beginsNumber, digit, Bool.false_or, Bool.and_eq_true, decide_eq_true_eq] at starts
    obtain ⟨rfl, -⟩ := starts
    decide

theorem Spells.ne_nil {kind : TokenKind} {spelling value : Text}
    (spells : Spells kind spelling value) : spelling ≠ [] := by
  cases spells with
  | number numeral => exact numeral.ne_nil
  | word | doubleQuoted | singleQuoted => exact List.cons_ne_nil _ _
  | operator listed => exact operators_ne_nil _ listed

/-- The same bytes spell one lexeme only. -/
theorem Spells.unique {kind other : TokenKind} {spelling value another : Text}
    (spells : Spells kind spelling value) (also : Spells other spelling another) :
    kind = other ∧ value = another := by
  cases spelling with
  | nil => exact absurd rfl spells.ne_nil
  | cons first rest =>
      have begins := List.prefix_refl (first :: rest)
      have front := spells.front begins
      have also_front := also.front begins
      by_cases number : beginsNumber first rest
      · obtain ⟨rfl, rfl⟩ := number_only number front
        obtain ⟨rfl, rfl⟩ := number_only number also_front
        exact ⟨rfl, rfl⟩
      by_cases word : Lexeme.isWordStart first
      · obtain ⟨rfl, rfl⟩ := word_only word front begins
        obtain ⟨rfl, rfl⟩ := word_only word also_front begins
        exact ⟨rfl, rfl⟩
      by_cases is_quote : first = Text.doubleQuote ∨ first = Text.singleQuote
      · obtain ⟨rfl, scanned⟩ := quoted_unique is_quote front begins
        obtain ⟨rfl, again⟩ := quoted_unique is_quote also_front begins
        rw [scanned] at again
        cases again
        exact ⟨rfl, rfl⟩
      · obtain ⟨listed, rfl⟩ := operator_only number word is_quote front
        obtain ⟨also_listed, rfl⟩ := operator_only number word is_quote also_front
        exact ⟨operators_injective _ listed _ also_listed rfl, rfl⟩

theorem Spells.not_space {kind : TokenKind} {spelling value : Text} {first : UInt8} {rest : Text}
    (spells : Spells kind spelling value) (begins : spelling <+: first :: rest) :
    ¬ Text.isSpace first := by
  cases spells.front begins with
  | number starts _ => exact not_space_of_number starts
  | word starts _ => exact not_space_of_wordStart starts
  | quoted is_quote _ => rcases is_quote with rfl | rfl <;> decide
  | operator listed => exact (operator_begins listed begins).2.2.2.2.1

end Lexicon
end Formulary
