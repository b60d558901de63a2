import Formulary.Proofs.Scanning

/-!
# Faults of lexemes

A text that begins neither with a space nor with a lexeme begins with a byte that begins none, or
with a quote that does not begin a string.  A string that has no end is a fault of its quote, and
an escape with too few digits is a fault of the first byte behind them.
-/

namespace Formulary
namespace Lexicon

/-- How the rest of a text fails to be a string body up to its quote, read from an offset on. -/
inductive Breaks (quote : UInt8) : Nat → Text → Lexeme.Failure → Prop where
  | unterminated {offset body value tail} (inside : Body quote body value)
      (ends : tail = [] ∨ tail = [Text.backslash]) :
      Breaks quote offset (body ++ tail) ⟨.unterminatedString, 0⟩
  | escape {offset body value digits behind} (inside : Body quote body value)
      (hexadecimal : ∀ byte ∈ digits, Text.isHexDigit byte) (few : digits.length < 4)
      (ends : ∀ byte ∈ behind.head?, ¬ Text.isHexDigit byte) :
      Breaks quote offset
        (body ++ Text.backslash :: Lexeme.unicodeMark :: (digits ++ behind))
        ⟨.invalidUnicodeEscape, offset + body.length + 2 + digits.length⟩

/-- How a text fails that begins neither with a space nor with a lexeme. -/
inductive Fails : Text → Lexeme.Failure → Prop where
  | unexpected {byte rest} (no_quote : byte ≠ Text.doubleQuote ∧ byte ≠ Text.singleQuote) :
      Fails (byte :: rest) ⟨.unexpectedByte byte, 0⟩
  | broken {quote rest failure} (quotes : quote = Text.doubleQuote ∨ quote = Text.singleQuote)
      (breaks : Breaks quote 1 rest failure) : Fails (quote :: rest) failure

private theorem Breaks.append {quote : UInt8} (front : Text)
    (prepends : ∀ {body value}, Body quote body value → ∃ longer, Body quote (front ++ body) longer)
    {offset : Nat} {text : Text} {failure : Lexeme.Failure}
    (breaks : Breaks quote (offset + front.length) text failure) :
    Breaks quote offset (front ++ text) failure := by
  cases breaks with
  | unterminated inside ends =>
      obtain ⟨longer, inside⟩ := prepends inside
      rw [← List.append_assoc]
      exact .unterminated inside ends
  | escape inside hexadecimal few ends =>
      obtain ⟨longer, inside⟩ := prepends inside
      rw [← List.append_assoc, Nat.add_assoc offset, ← List.length_append]
      exact .escape inside hexadecimal few ends

private theorem Breaks.le {quote : UInt8} {offset : Nat} {text : Text} {failure : Lexeme.Failure}
    (breaks : Breaks quote offset text failure) : failure.offset ≤ offset + text.length := by
  cases breaks with
  | unterminated => exact Nat.zero_le _
  | escape =>
      simp only [List.length_append, List.length_cons]
      omega

/-- An escape whose digits are too few breaks at the first byte that is none of them. -/
theorem breaks_escape {quote : UInt8} (offset : Nat) {rest : Text}
    (few : (rest.takeWhile Text.isHexDigit).length < 4) :
    Breaks quote offset (Text.backslash :: Lexeme.unicodeMark :: rest)
      ⟨.invalidUnicodeEscape, offset + 2 + (rest.takeWhile Text.isHexDigit).length⟩ := by
  have ends : ∀ byte ∈ (rest.dropWhile Text.isHexDigit).head?, ¬ Text.isHexDigit byte :=
    fun byte first => by
      have apart := List.head?_dropWhile_not Text.isHexDigit rest
      rw [Option.mem_def.mp first] at apart
      simpa using apart
  have breaks : Breaks quote offset _ _ := .escape .empty (fun _ => List.mem_takeWhile_imp) few ends
  rwa [List.takeWhile_append_dropWhile] at breaks

private theorem hexDigits_lt_four {a b c d : UInt8} (rest : Text)
    (no_unit : Lexeme.codeUnit? a b c d = none) :
    ((a :: b :: c :: d :: rest).takeWhile Text.isHexDigit).length < 4 := by
  -- If all four were digits, they would be a code unit.
  refine Nat.lt_of_not_le fun many => ?_
  have digit : ∀ byte ∈ [a, b, c, d], Text.isHexDigit byte := by
    simp only [List.takeWhile_cons] at many
    grind
  simp only [List.forall_mem_cons, Text.isHexDigit, Option.isSome_iff_exists] at digit
  obtain ⟨⟨_, first⟩, ⟨_, second⟩, ⟨_, third⟩, ⟨_, fourth⟩, -⟩ := digit
  simp only [Lexeme.codeUnit?, first, second, third, fourth] at no_unit
  cases no_unit

private theorem four_le_hexDigits {a b c d : UInt8} {unit : Nat} (rest : Text)
    (digits : Lexeme.codeUnit? a b c d = some unit) :
    4 ≤ ((a :: b :: c :: d :: rest).takeWhile Text.isHexDigit).length := by
  simp only [Lexeme.codeUnit?, Option.bind_eq_bind, Option.bind_eq_some_iff] at digits
  obtain ⟨_, first, _, second, _, third, _, fourth, -⟩ := digits
  simp [Text.isHexDigit, first, second, third, fourth]

private theorem length_lt_four {rest : Text}
    (short : ∀ a b c d rest', rest = a :: b :: c :: d :: rest' → False) : rest.length < 4 := by
  match rest, short with
  | [], _ => simp
  | [_], _ => simp
  | [_, _], _ => simp
  | [_, _, _], _ => simp
  | a :: b :: c :: d :: rest', short => exact (short a b c d rest' rfl).elim

private theorem breaks_of_quotedBody {quote : UInt8} (quote_ne : quote ≠ Text.backslash)
    {offset : Nat} {text : Text} {failure : Lexeme.Failure}
    (failed : Lexeme.quotedBody quote offset text = .error failure) :
    Breaks quote offset text failure := by
  induction offset, text using Lexeme.quotedBody.induct quote with
  | case1 offset =>
      cases failed
      exact .unterminated .empty (.inl rfl)
  | case2 offset rest =>
      rw [quotedBody_quote] at failed
      cases failed
  | case3 offset not_quote =>
      rw [Lexeme.quotedBody.eq_def] at failed
      simp only [not_quote, if_false, if_true] at failed
      cases failed
      exact .unterminated .empty (.inr rfl)
  | case4 offset a b c d rest unit digits not_quote induction =>
      rw [quotedBody_unicode quote_ne digits] at failed
      exact .append [Text.backslash, Lexeme.unicodeMark, a, b, c, d]
        (fun inside => ⟨_, .unicode digits inside⟩) (induction (map_eq_error failed))
  | case5 offset a b c d rest digits not_quote =>
      rw [Lexeme.quotedBody.eq_def] at failed
      simp only [not_quote, digits, if_false, if_true] at failed
      cases failed
      exact breaks_escape offset (hexDigits_lt_four rest digits)
  | case6 offset rest short not_quote =>
      rw [Lexeme.quotedBody.eq_def] at failed
      simp only [not_quote, if_false, if_true] at failed
      cases failed
      have few := Nat.lt_of_le_of_lt (List.takeWhile_prefix Text.isHexDigit).length_le
        (length_lt_four short)
      exact breaks_escape offset few
  | case7 offset escaped rest not_unicode not_quote induction =>
      rw [quotedBody_escaped quote_ne not_unicode] at failed
      exact .append [Text.backslash, escaped]
        (fun inside => ⟨_, .escaped not_unicode inside⟩) (induction (map_eq_error failed))
  | case8 offset byte rest not_quote not_backslash induction =>
      rw [quotedBody_plain not_quote not_backslash] at failed
      exact .append [byte]
        (fun inside => ⟨_, .plain not_quote not_backslash inside⟩) (induction (map_eq_error failed))

private theorem quotedBody_of_few {quote : UInt8} (quote_ne : quote ≠ Text.backslash) (offset : Nat)
    {rest : Text} (few : (rest.takeWhile Text.isHexDigit).length < 4) :
    Lexeme.quotedBody quote offset (Text.backslash :: Lexeme.unicodeMark :: rest) =
      .error ⟨.invalidUnicodeEscape, offset + 2 + (rest.takeWhile Text.isHexDigit).length⟩ := by
  rw [Lexeme.quotedBody.eq_def]
  simp only [quote_ne.symm, if_false, if_true]
  split
  · split
    · rename_i digits
      exact absurd few (Nat.not_lt.mpr (four_le_hexDigits _ digits))
    · rfl
  · rfl

/-- A body that breaks is read up to its fault. -/
theorem Breaks.quotedBody_eq {quote : UInt8} (quote_ne : quote ≠ Text.backslash) {offset : Nat}
    {text : Text} {failure : Lexeme.Failure} (breaks : Breaks quote offset text failure) :
    Lexeme.quotedBody quote offset text = .error failure := by
  cases breaks with
  | unterminated inside ends =>
      rw [inside.quotedBody_append quote_ne]
      rcases ends with rfl | rfl
      · rfl
      · rw [Lexeme.quotedBody.eq_def]
        simp only [quote_ne.symm, if_false, if_true]
        rfl
  | @escape body _ digits behind inside hexadecimal few ends =>
      have run : (digits ++ behind).takeWhile Text.isHexDigit = digits :=
        takeWhile_append_eq hexadecimal ends
      rw [inside.quotedBody_append quote_ne, quotedBody_of_few quote_ne _ (run.symm ▸ few), run]
      rfl

theorem fails_of_scan {first : UInt8} {rest : Text} {failure : Lexeme.Failure}
    (failed : Lexeme.scan first rest = .error failure) : Fails (first :: rest) failure := by
  rw [scan_eq] at failed
  split at failed
  · cases failed
  · split at failed
    · cases failed
    · split at failed
      · rename_i quotes
        have is_quote : first = Text.doubleQuote ∨ first = Text.singleQuote := by simpa using quotes
        exact .broken is_quote (breaks_of_quotedBody (quote_ne is_quote) (map_eq_error failed))
      · rename_i no_quote
        split at failed
        · cases failed
        · cases failed
          exact .unexpected (by simpa using no_quote)

/-- Only a broken escape is noticed inside its string. -/
theorem Fails.at_front {text : Text} {failure : Lexeme.Failure} (fails : Fails text failure) :
    failure.fault = .invalidUnicodeEscape ∨ failure.offset = 0 := by
  cases fails with
  | unexpected => exact .inr rfl
  | broken quotes breaks =>
      cases breaks with
      | unterminated => exact .inr rfl
      | escape => exact .inl rfl

theorem Fails.le {text : Text} {failure : Lexeme.Failure} (fails : Fails text failure) :
    failure.offset ≤ text.length := by
  cases fails with
  | unexpected => exact Nat.zero_le _
  | broken quotes breaks =>
      have bound := breaks.le
      rwa [List.length_cons, Nat.add_comm]

end Lexicon
end Formulary
