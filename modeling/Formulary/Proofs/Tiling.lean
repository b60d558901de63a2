import Formulary.Token.Sequence
import Formulary.Proofs.LexicalFaults

/-!
# Tokens tile their text

A text is read as spaces and longest lexemes, one after the other, until it ends or no lexeme comes
next.  Each token stands on the bytes of its lexeme, so that tokens do not overlap and leave out
nothing but spaces.
-/

namespace Formulary
namespace Lexicon

/--
Reading the text from the first position on gives the tokens, up to the second position and the
bytes that remain there.
-/
inductive Tiles (file : Text) : Position → Text → List Token → Position → Text → Prop where
  | stop {position text} : Tiles file position text [] position text
  | space {position byte rest tokens last remaining} (blank : Text.isSpace byte)
      (more : Tiles file (position.after byte) rest tokens last remaining) :
      Tiles file position (byte :: rest) tokens last remaining
  | lexeme {position kind spelling value rest tokens last remaining}
      (longest : Longest (spelling ++ rest) kind spelling value)
      (more : Tiles file (position.afterText spelling) rest tokens last remaining) :
      Tiles file position (spelling ++ rest)
        (⟨kind, value, position.locate file spelling.length⟩ :: tokens) last remaining

theorem Spells.not_endOfInput {kind : TokenKind} {spelling value : Text}
    (spells : Spells kind spelling value) : kind ≠ .endOfInput := by
  cases spells with
  | number | doubleQuoted | singleQuoted => simp
  | word =>
      rw [Lexeme.wordKind]
      split
      · simp
      · split <;> simp
  | operator listed =>
      have none_ends : ∀ entry ∈ Lexeme.operators, entry.2 ≠ .endOfInput := by decide
      exact none_ends _ listed

theorem Tiles.not_endOfInput {file : Text} {position last : Position} {text remaining : Text}
    {tokens : List Token} (tiles : Tiles file position text tokens last remaining) :
    ∀ token ∈ tokens, token.kind ≠ .endOfInput := by
  induction tiles with
  | stop => simp
  | space _ _ induction => exact induction
  | lexeme longest _ induction =>
      intro token member
      rcases List.mem_cons.mp member with rfl | member
      · exact longest.spells.not_endOfInput
      · exact induction token member

theorem Tiles.spells {file : Text} {position last : Position} {text remaining : Text}
    {tokens : List Token} (tiles : Tiles file position text tokens last remaining) :
    ∀ token ∈ tokens, ∃ spelling, Spells token.kind spelling token.value := by
  induction tiles with
  | stop => simp
  | space _ _ induction => exact induction
  | lexeme longest _ induction =>
      intro token member
      rcases List.mem_cons.mp member with rfl | member
      · exact ⟨_, longest.spells⟩
      · exact induction token member

theorem Tiles.append {file : Text} {position middle last : Position} {text rest remaining : Text}
    {tokens more : List Token} (tiles : Tiles file position text tokens middle rest)
    (others : Tiles file middle rest more last remaining) :
    Tiles file position text (tokens ++ more) last remaining := by
  induction tiles with
  | stop => exact others
  | space blank _ induction => exact .space blank (induction others)
  | lexeme longest _ induction => exact .lexeme longest (induction others)

private theorem Longest.unique {text spelling other value another : Text} {kind also : TokenKind}
    (longest : Longest text kind spelling value) (again : Longest text also other another) :
    kind = also ∧ spelling = other ∧ value = another := by
  have no_longer := longest.longest again.spells again.begins
  have no_shorter := again.longest longest.spells longest.begins
  have same := (List.prefix_of_prefix_length_le longest.begins again.begins no_shorter).eq_of_length
    (Nat.le_antisymm no_shorter no_longer)
  subst same
  obtain ⟨rfl, rfl⟩ := longest.spells.unique again.spells
  exact ⟨rfl, rfl, rfl⟩

/-- A longest lexeme is what the scanner finds. -/
theorem Longest.scan_eq {first : UInt8} {rest spelling value : Text} {kind : TokenKind}
    (longest : Longest (first :: rest) kind spelling value) :
    Lexeme.scan first rest = .ok ⟨kind, value, spelling.length⟩ := by
  cases outcome : Lexeme.scan first rest with
  | error failure => exact absurd longest.begins (scan_none outcome longest.spells)
  | ok lexeme =>
      obtain ⟨other, again, width⟩ := scan_longest outcome
      obtain ⟨found_kind, found_value, found_width⟩ := lexeme
      obtain ⟨rfl, rfl, rfl⟩ := longest.unique again
      rw [show found_width = spelling.length from width]

private theorem sequenceFrom_skip (file : Text) (position : Position) (skipped rest : Text) :
    Token.sequenceFrom file skipped.length position (skipped ++ rest) =
      Token.sequenceFrom file 0 (position.afterText skipped) rest := by
  induction skipped generalizing position with
  | nil => rfl
  | cons byte skipped induction => exact induction (position.after byte)

theorem sequenceFrom_space (file : Text) (position : Position) {byte : UInt8}
    (blank : Text.isSpace byte) (rest : Text) :
    Token.sequenceFrom file 0 position (byte :: rest) =
      Token.sequenceFrom file 0 (position.after byte) rest := by
  rw [Token.sequenceFrom, if_pos blank]

private theorem sequenceFrom_lexeme (file : Text) (position : Position) {kind : TokenKind}
    {spelling value rest : Text} (longest : Longest (spelling ++ rest) kind spelling value) :
    Token.sequenceFrom file 0 position (spelling ++ rest) =
      (⟨kind, value, position.locate file spelling.length⟩ :: ·) <$>
        Token.sequenceFrom file 0 (position.afterText spelling) rest := by
  cases spelling with
  | nil => exact absurd rfl longest.spells.ne_nil
  | cons byte tail =>
      have not_space := longest.spells.not_space longest.begins
      rw [List.cons_append] at longest ⊢
      rw [Token.sequenceFrom, if_neg not_space, longest.scan_eq]
      simp only [List.length_cons, Nat.add_sub_cancel, sequenceFrom_skip]
      rfl

/-- Reading goes on behind the tiles as if it had begun there. -/
theorem Tiles.sequenceFrom_eq {file : Text} {position last : Position} {text remaining : Text}
    {tokens : List Token} (tiles : Tiles file position text tokens last remaining) :
    Token.sequenceFrom file 0 position text =
      (tokens ++ ·) <$> Token.sequenceFrom file 0 last remaining := by
  induction tiles with
  | @stop position text =>
      cases Token.sequenceFrom file 0 position text <;> rfl
  | @space position byte rest tokens last remaining blank more induction =>
      rw [sequenceFrom_space file position blank, induction]
  | @lexeme position kind spelling value rest tokens last remaining longest more induction =>
      rw [sequenceFrom_lexeme file position longest, induction]
      cases Token.sequenceFrom file 0 last remaining <;> rfl

/-- A text with no lexeme at its front, although it does not begin with a space. -/
def Stuck (text : Text) : Prop :=
  ∃ byte rest failure, text = byte :: rest ∧ ¬ Text.isSpace byte ∧
    Lexeme.scan byte rest = .error failure

/-- Every text is tiled up to its end or up to a place where no lexeme comes next. -/
theorem exists_tiles (file : Text) (position : Position) (text : Text) :
    ∃ tokens last remaining, Tiles file position text tokens last remaining ∧
      (remaining = [] ∨ Stuck remaining) := by
  induction size : text.length using Nat.strongRecOn generalizing position text with
  | _ size induction =>
      cases text with
      | nil => exact ⟨[], position, [], .stop, .inl rfl⟩
      | cons byte rest =>
          rw [List.length_cons] at size
          by_cases blank : Text.isSpace byte
          · obtain ⟨tokens, last, remaining, tiles, ends⟩ :=
              induction rest.length (by omega) (position.after byte) rest rfl
            exact ⟨tokens, last, remaining, .space blank tiles, ends⟩
          · cases outcome : Lexeme.scan byte rest with
            | error failure =>
                have stuck : Stuck (byte :: rest) := ⟨byte, rest, failure, rfl, blank, outcome⟩
                exact ⟨[], position, byte :: rest, .stop, .inr stuck⟩
            | ok lexeme =>
                obtain ⟨spelling, longest, -⟩ := scan_longest outcome
                obtain ⟨after, split⟩ := longest.begins
                have shorter := congrArg List.length split
                have positive := List.length_pos_iff.mpr longest.spells.ne_nil
                rw [List.length_append, List.length_cons] at shorter
                -- A lexeme has at least one byte, so that less of the text remains behind it.
                obtain ⟨tokens, last, remaining, tiles, ends⟩ :=
                  induction after.length (by omega) (position.afterText spelling) after rfl
                rw [← split] at longest ⊢
                exact ⟨_, last, remaining, .lexeme longest tiles, ends⟩

theorem Stuck.no_lexeme {text : Text} (stuck : Stuck text) {kind : TokenKind}
    {spelling value : Text} (spells : Spells kind spelling value) : ¬ spelling <+: text := by
  obtain ⟨byte, rest, failure, rfl, -, failed⟩ := stuck
  exact scan_none failed spells

private theorem sequenceFrom_stuck {file : Text} {position : Position} {text : Text}
    (stuck : Stuck text) : ∃ fault offset, (fault = .invalidUnicodeEscape ∨ offset = 0) ∧
      Token.sequenceFrom file 0 position text = .error
        { fault := .lexical fault
          location := (position.afterText (text.take offset)).locate file 1 } := by
  obtain ⟨byte, rest, failure, rfl, not_space, failed⟩ := stuck
  refine ⟨failure.fault, failure.offset, (fails_of_scan failed).at_front, ?_⟩
  rw [Token.sequenceFrom, if_neg not_space, failed]

/-- The byte order mark in front of a text, if there is one. -/
def mark (text : Text) : Text :=
  if Token.byteOrderMark.isPrefixOf text then Token.byteOrderMark else []

theorem mark_eq_nil {text : Text} (ascii : ∀ byte ∈ text.head?, byte < 128) : mark text = [] := by
  rw [mark, if_neg]
  intro marked
  obtain ⟨rest, rfl⟩ := List.isPrefixOf_iff_prefix.mp marked
  exact absurd (ascii 0xEF rfl) (by decide)

/-- The tokens of a text behind its byte order mark, as far as it is read. -/
def TilesText (file : Text) (firstLine : Int) (text : Text) (tokens : List Token)
    (last : Position) (remaining : Text) : Prop :=
  ∃ body, text = mark text ++ body ∧
    Tiles (Token.fileName file) (Position.afterText ⟨firstLine, 1⟩ (mark text)) body tokens last
      remaining

private theorem sequence_eq (file : Text) (firstLine : Int) (text : Text) :
    ∃ body, text = mark text ++ body ∧
      Token.sequence file firstLine text =
        Token.sequenceFrom (Token.fileName file) 0
          (Position.afterText ⟨firstLine, 1⟩ (mark text)) body := by
  by_cases marked : Token.byteOrderMark.isPrefixOf text
  · obtain ⟨body, rfl⟩ := List.isPrefixOf_iff_prefix.mp marked
    refine ⟨body, by rw [mark, if_pos marked], ?_⟩
    rw [Token.sequence, mark, if_pos marked, if_pos marked, List.drop_left]
  · refine ⟨text, by rw [mark, if_neg marked]; rfl, ?_⟩
    rw [Token.sequence, mark, if_neg marked, if_neg marked]
    rfl

theorem sequence_of_tilesText {file text remaining : Text} {firstLine : Int} {last : Position}
    {tokens : List Token} (tiles : TilesText file firstLine text tokens last remaining) :
    Token.sequence file firstLine text =
      (tokens ++ ·) <$> Token.sequenceFrom (Token.fileName file) 0 last remaining := by
  obtain ⟨body, split, tiles⟩ := tiles
  obtain ⟨same, also_split, sequenced⟩ := sequence_eq file firstLine text
  obtain rfl := List.append_cancel_left (split.symm.trans also_split)
  rw [sequenced, tiles.sequenceFrom_eq]

theorem exists_tilesText (file : Text) (firstLine : Int) (text : Text) :
    ∃ tokens last remaining, TilesText file firstLine text tokens last remaining ∧
      (remaining = [] ∨ Stuck remaining) := by
  obtain ⟨body, split, -⟩ := sequence_eq file firstLine text
  obtain ⟨tokens, last, remaining, tiles, ends⟩ := exists_tiles (Token.fileName file)
    (Position.afterText ⟨firstLine, 1⟩ (mark text)) body
  exact ⟨tokens, last, remaining, ⟨body, split, tiles⟩, ends⟩

theorem sequence_eq_ok_iff {file text : Text} {firstLine : Int} {tokens : List Token} :
    Token.sequence file firstLine text = .ok tokens ↔
      ∃ lexemes last, TilesText file firstLine text lexemes last [] ∧
        tokens = lexemes ++ [Token.endOfInput (Token.fileName file) last] := by
  constructor
  · intro sequenced
    obtain ⟨lexemes, last, remaining, tiles, empty | stuck⟩ :=
      exists_tilesText file firstLine text
    · rw [sequence_of_tilesText tiles, empty] at sequenced
      cases sequenced
      exact ⟨lexemes, last, empty ▸ tiles, rfl⟩
    · obtain ⟨fault, offset, -, failed⟩ := sequenceFrom_stuck stuck
      rw [sequence_of_tilesText tiles, failed] at sequenced
      cases sequenced
  · rintro ⟨lexemes, last, tiles, rfl⟩
    rw [sequence_of_tilesText tiles]
    rfl

end Lexicon
end Formulary
