import Formulary.Proofs.Seams
import Formulary.Proofs.ViablePrefix

/-!
# Spaces behind a text

A space behind a text is not seen in it: a text that is a formula is the same formula with the space
behind it, and a text that is none has the same fault.  The space cannot be the byte that a string,
an escape or an operator misses, and where no lexeme begins none begins in front of the space.
-/

namespace Formulary
namespace Lexicon

/-- Two bodies are a body together. -/
theorem Body.append {quote : UInt8} {body value more other : Text} (inside : Body quote body value)
    (behind : Body quote more other) : Body quote (body ++ more) (value ++ other) := by
  induction inside with
  | empty => exact behind
  | plain not_quote not_backslash _ induction => exact .plain not_quote not_backslash induction
  | escaped not_unicode _ induction => exact .escaped not_unicode induction
  | unicode digits _ induction =>
      rw [List.append_assoc]
      exact .unicode digits induction

section Space

variable {space : UInt8} (blank : Text.isSpace space)

include blank

private theorem not_hexDigit_of_space : ¬ Text.isHexDigit space := by
  simp only [Text.isSpace] at blank
  simp only [Text.isHexDigit, Text.hexValue?, Text.isDigit]
  grind

private theorem space_ne_quote {quote : UInt8}
    (is_quote : quote = Text.doubleQuote ∨ quote = Text.singleQuote) : space ≠ quote := by
  rintro rfl
  rcases is_quote with rfl | rfl <;> cases blank

private theorem space_ne_backslash : space ≠ Text.backslash := by
  rintro rfl
  cases blank

private theorem space_ne_unicodeMark : space ≠ Lexeme.unicodeMark := by
  rintro rfl
  cases blank

/-- A string that has no end has none behind the space, and an escape no further digit. -/
theorem Breaks.append_space {quote : UInt8}
    (is_quote : quote = Text.doubleQuote ∨ quote = Text.singleQuote) {offset : Nat} {text : Text}
    {failure : Lexeme.Failure} (breaks : Breaks quote offset text failure) :
    Breaks quote offset (text ++ [space]) failure := by
  cases breaks with
  | @unterminated body value tail inside ends =>
      -- The space is a byte of the string, or the byte that an open escape stands for.
      obtain ⟨other, behind⟩ : ∃ other, Body quote (tail ++ [space]) other := by
        rcases ends with rfl | rfl
        · exact ⟨_, .plain (space_ne_quote blank is_quote) (space_ne_backslash blank) .empty⟩
        · exact ⟨_, .escaped (space_ne_unicodeMark blank) .empty⟩
      have longer : Breaks quote offset _ _ := .unterminated (inside.append behind) (.inl rfl)
      rwa [List.append_nil, ← List.append_assoc] at longer
  | @escape body _ digits behind inside hexadecimal few ends =>
      have still_ends : ∀ byte ∈ (behind ++ [space]).head?, ¬ Text.isHexDigit byte := by
        cases behind with
        | nil => simpa using not_hexDigit_of_space blank
        | cons byte behind => exact ends
      simp only [List.append_assoc, List.cons_append]
      exact .escape inside hexadecimal few still_ends

/-- Where no lexeme begins, none begins in front of a space. -/
theorem scan_append_space {first : UInt8} {rest : Text} {failure : Lexeme.Failure}
    (failed : Lexeme.scan first rest = .error failure) :
    Lexeme.scan first (rest ++ [space]) = .error failure := by
  cases fails_of_scan failed with
  | unexpected no_quote =>
      cases outcome : Lexeme.scan first (rest ++ [space]) with
      | error other =>
          cases fails_of_scan outcome with
          | unexpected => rfl
          | broken quotes => exact absurd quotes (not_or.mpr no_quote)
      | ok lexeme =>
          -- A lexeme that ends in the space would have the space behind its first byte.
          obtain ⟨spelling, longest, -⟩ := scan_longest outcome
          have begins : spelling <+: (first :: rest) ++ [space] := longest.begins
          rcases List.prefix_concat_iff.mp begins with whole | begins
          · have spells := longest.spells
            rw [whole] at spells
            rcases spells.continues_or_quoted with continuing | quotes
            · exact absurd (continuing space (by simp)) (not_continues_of_space blank)
            · exact absurd quotes (not_or.mpr no_quote)
          · exact absurd begins (scan_none failed longest.spells)
  | broken quotes breaks =>
      have no_number : ¬ beginsNumber first (rest ++ [space]) := not_number_of_quote quotes
      have no_word := not_wordStart_of_quote quotes
      have broken := (breaks.append_space blank quotes).quotedBody_eq (quote_ne quotes)
      rw [scan_eq, if_neg no_number, if_neg no_word, if_pos (by simpa using quotes), Lexeme.quoted,
        broken]
      rfl

private theorem mark_append_space (text : Text) : mark (text ++ [space]) = mark text := by
  have same : Token.byteOrderMark.isPrefixOf (text ++ [space]) =
      Token.byteOrderMark.isPrefixOf text := by
    rw [Bool.eq_iff_iff, List.isPrefixOf_iff_prefix, List.isPrefixOf_iff_prefix,
      List.prefix_concat_iff]
    refine or_iff_right fun whole => ?_
    -- The last byte of the mark is no space.
    have last := congrArg List.getLast? whole
    rw [List.getLast?_concat] at last
    obtain rfl : 0xBF = space := Option.some.inj last
    cases blank
  rw [mark, mark, same]

private theorem TilesText.append_space {file text remaining : Text} {firstLine : Int}
    {tokens : List Token}
    {last : Position} (tiles : TilesText file firstLine text tokens last remaining) :
    TilesText file firstLine (text ++ [space]) tokens last (remaining ++ [space]) := by
  obtain ⟨body, split, tiles⟩ := tiles
  refine ⟨body ++ [space], ?_, ?_⟩
  · rw [mark_append_space blank, ← List.append_assoc, ← split]
  · rw [mark_append_space blank]
    exact tiles.before (seam_cons (not_continues_of_space blank) [])

end Space
end Lexicon

namespace Program

/-- Two texts are the same formula, or they have faults with the same message. -/
inductive SameReading : Except SyntaxError Program → Except SyntaxError Program → Prop where
  | formula {program} : SameReading (.ok program) (.ok program)
  | faults {error other} (message : other.fault.message = error.fault.message) :
      SameReading (.error error) (.error other)

theorem kind_endToken (tokens : List Token) : (endToken tokens).kind = .endOfInput := by
  rw [endToken]
  cases ends : tokens.find? fun token => token.kind == .endOfInput with
  | none => rfl
  | some token => simpa using List.find?_some ends

/-- What ends the tokens is named alike, wherever it stands. -/
theorem message_errorAt (tokens others : List Token) (stop : Expr.Stop) :
    (errorAt others stop).fault.message = (errorAt tokens stop).fault.message := by
  obtain ⟨fault, rest⟩ := stop
  cases rest with
  | nil =>
      simp only [errorAt, SyntaxFault.message, List.headD_nil, Token.found, kind_endToken, if_true]
  | cons token rest => rfl

/-- Tokens are read alike in front of every end of input. -/
theorem sameReading_ofTokens {tokens : List Token}
    (endless : ∀ token ∈ tokens, token.kind ≠ .endOfInput) {last other : Token}
    (ends : last.kind = .endOfInput) (also_ends : other.kind = .endOfInput) :
    SameReading (ofTokens (tokens ++ [last])) (ofTokens (tokens ++ [other])) := by
  have body : bodyTokens (tokens ++ [last]) = tokens := by
    rw [Grammar.bodyTokens_append endless]
    simp [bodyTokens, ends]
  have also_body : bodyTokens (tokens ++ [other]) = tokens := by
    rw [Grammar.bodyTokens_append endless]
    simp [bodyTokens, also_ends]
  rw [ofTokens, ofTokens, body, also_body]
  cases parsed : Expr.expression tokens.length tokens with
  | error stop => exact .faults (message_errorAt _ _ stop)
  | ok read =>
      obtain ⟨expr, rest⟩ := read
      cases rest with
      | cons token rest => exact .faults (message_errorAt _ _ _)
      | nil =>
          cases tokens with
          | nil => cases parsed
          | cons first tokens => exact .formula

/-- A space behind a text changes neither the formula that it is nor the fault that it has. -/
theorem ofText_append_space (file : Text) (firstLine : Int) (text : Text) {space : UInt8}
    (blank : Text.isSpace space) :
    SameReading (ofText file firstLine text) (ofText file firstLine (text ++ [space])) := by
  obtain ⟨tokens, last, remaining, tiles, empty | stuck⟩ :=
    Lexicon.exists_tilesText file firstLine text
  · subst empty
    obtain ⟨body, -, inside⟩ := id tiles
    rw [ofText, ofText, Lexicon.sequence_of_tilesText tiles,
      Lexicon.sequence_of_tilesText (tiles.append_space blank), List.nil_append,
      Lexicon.sequenceFrom_space _ _ blank]
    exact sameReading_ofTokens inside.not_endOfInput rfl rfl
  · obtain ⟨byte, rest, failure, rfl, not_space, failed⟩ := stuck
    rw [ofText, ofText, Lexicon.sequence_of_tilesText tiles,
      Lexicon.sequence_of_tilesText (tiles.append_space blank), List.cons_append,
      Token.sequenceFrom, Token.sequenceFrom, if_neg not_space, if_neg not_space, failed,
      Lexicon.scan_append_space blank failed]
    exact .faults rfl

end Program
end Formulary
