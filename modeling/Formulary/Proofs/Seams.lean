import Formulary.Proofs.Elsewhere
import Formulary.Proofs.NumberText
import Formulary.Proofs.Separation
import Formulary.Proofs.Tiling

/-!
# Seams of texts

No lexeme but a string has a space, a bracket or a comma behind its first byte, and a string ends
with its quote.  So in front of such a byte a text is read as the lexemes that it is alone, wherever
it stands.
-/

namespace Formulary

/-- The location without its place, of which the length is left. -/
def Location.unplaced (location : Location) : Location :=
  { Token.none.location with length := location.length }

namespace Lexicon

/-- The bytes that numbers, words and operators have behind their first one. -/
def continues (byte : UInt8) : Bool :=
  Lexeme.isWordPart byte || byte == Text.dot || Text.isSign byte || joinsOperator byte

/-- No lexeme reaches from the front into the rest, unless it is a string. -/
def Seam (rest : Text) : Prop :=
  ∀ byte ∈ rest.head?, ¬ continues byte

theorem seam_nil : Seam [] := by
  simp [Seam]

theorem seam_cons {byte : UInt8} (ends : ¬ continues byte) (rest : Text) : Seam (byte :: rest) := by
  simpa [Seam] using ends

theorem not_continues_of_space {byte : UInt8} (blank : Text.isSpace byte) : ¬ continues byte := by
  intro continuing
  simp only [continues, Lexeme.isWordPart, Text.isSign, joinsOperator, Bool.or_eq_true,
    beq_iff_eq] at continuing
  rcases continuing with (((starts | digit) | rfl) | rfl | rfl) | (rfl | rfl) | rfl
  · exact not_space_of_wordStart starts blank
  · exact not_space_of_digit digit blank
  all_goals cases blank

theorem continues_of_numeralByte {byte : UInt8}
    (kind : Text.isDigit byte ∨ byte = Text.dot ∨ Text.isExponentMark byte ∨ Text.isSign byte) :
    continues byte := by
  rcases kind with digit | rfl | marks | signs
  · simp [continues, wordPart_of_digit digit]
  · rfl
  · simp [continues, wordPart_of_wordStart (wordStart_of_mark marks)]
  · simp [continues, signs]

theorem ascii_of_space {byte : UInt8} (blank : Text.isSpace byte) : byte < 128 := by
  simp only [Text.isSpace] at blank
  grind

theorem ascii_of_continues {byte : UInt8} (continuing : continues byte) : byte < 128 := by
  simp only [continues, Text.isSign, joinsOperator, Bool.or_eq_true, beq_iff_eq] at continuing
  rcases continuing with ((part | rfl) | rfl | rfl) | (rfl | rfl) | rfl
  · exact ascii_of_wordPart part
  all_goals decide

theorem operators_ascii : ∀ entry ∈ Lexeme.operators, ∀ byte ∈ entry.1, byte < 128 := by
  decide +kernel

private theorem Spells.head_ascii {kind : TokenKind} {spelling value : Text}
    (spells : Spells kind spelling value) : ∀ byte ∈ spelling.head?, byte < 128 := by
  intro byte first
  cases spells with
  | number numeral =>
      exact ascii_of_continues
        (continues_of_numeralByte (numeral.bytes byte (List.mem_of_mem_head? first)))
  | word starts parts =>
      cases first
      exact ascii_of_wordPart (wordPart_of_wordStart starts)
  | doubleQuoted | singleQuoted =>
      cases first
      decide
  | operator listed => exact operators_ascii _ listed byte (List.mem_of_mem_head? first)

/-- Behind the first byte of a lexeme stand such bytes, unless the lexeme is a string. -/
theorem Spells.continues_or_quoted {kind : TokenKind} {first : UInt8} {rest value : Text}
    (spells : Spells kind (first :: rest) value) :
    (∀ byte ∈ rest, continues byte) ∨ first = Text.doubleQuote ∨ first = Text.singleQuote := by
  cases spells with
  | number numeral =>
      exact .inl fun byte member =>
        continues_of_numeralByte (numeral.bytes byte (List.mem_cons_of_mem first member))
  | word starts parts => exact .inl fun byte member => by simp [continues, parts byte member]
  | doubleQuoted => exact .inr (.inl rfl)
  | singleQuoted => exact .inr (.inr rfl)
  | operator listed =>
      exact .inl fun byte member => by simp [continues, Longest.operators_tail _ listed byte member]

/-- A lexeme is the longest one of its own bytes. -/
theorem Spells.longest {kind : TokenKind} {spelling value : Text}
    (spells : Spells kind spelling value) : Longest spelling kind spelling value :=
  ⟨spells, List.prefix_refl spelling, fun _ begins => begins.length_le⟩

/-- The longest lexeme of a text is that of the text with more behind a seam. -/
theorem Longest.before {text spelling value rest : Text} {kind : TokenKind}
    (longest : Longest text kind spelling value) (seam : Seam rest) :
    Longest (text ++ rest) kind spelling value := by
  have own_begins := longest.begins.trans (List.prefix_append text rest)
  refine ⟨longest.spells, own_begins, ?_⟩
  intro other_kind other other_value also begins
  by_cases inside : other.length ≤ text.length
  · exact longest.longest also
      (List.prefix_of_prefix_length_le begins (List.prefix_append text rest) inside)
  · -- The other lexeme reaches over the seam, so that it is a string, and has no other end.
    obtain ⟨beyond, rfl⟩ := List.prefix_of_prefix_length_le (List.prefix_append text rest) begins
      (Nat.le_of_not_le inside)
    obtain ⟨first, tail, rfl⟩ := List.exists_cons_of_ne_nil fun empty =>
      longest.spells.ne_nil (List.prefix_nil.mp (empty ▸ longest.begins))
    cases beyond with
    | nil => simp at inside
    | cons byte beyond =>
        have at_seam : byte ∈ rest.head? := by
          obtain ⟨behind, split⟩ := (List.prefix_append_right_inj _).mp begins
          simp [← split]
        rcases also.continues_or_quoted with continuing | is_quote
        · exact absurd (continuing byte (by simp)) (seam byte at_seam)
        · obtain ⟨-, scanned⟩ :=
            quoted_unique is_quote (longest.spells.front own_begins) own_begins
          obtain ⟨-, again⟩ := quoted_unique is_quote (also.front begins) begins
          rw [scanned, Except.ok.injEq, Prod.mk.injEq] at again
          exact Nat.le_of_eq again.2.symm

variable {file : Text} {position last : Position} {text remaining : Text} {tokens : List Token}

/-- A text that is tiled is tiled in front of a seam as well. -/
theorem Tiles.before (tiles : Tiles file position text tokens last remaining) {rest : Text}
    (seam : Seam rest) : Tiles file position (text ++ rest) tokens last (remaining ++ rest) := by
  induction tiles with
  | stop => exact .stop
  | space blank _ induction => exact .space blank induction
  | lexeme longest _ induction =>
      have longest := longest.before seam
      rw [List.append_assoc] at longest ⊢
      exact .lexeme longest induction

/-- Spaces in front of a text belong to no token. -/
theorem Tiles.spaces {blanks : Text} (blank : ∀ byte ∈ blanks, Text.isSpace byte)
    (tiles : Tiles file (position.afterText blanks) text tokens last remaining) :
    Tiles file position (blanks ++ text) tokens last remaining := by
  induction blanks generalizing position with
  | nil => exact tiles
  | cons byte blanks induction =>
      obtain ⟨first, others⟩ := List.forall_mem_cons.mp blank
      exact .space first (induction others tiles)

/-- A text that is tiled up to its end has no mark in front. -/
theorem Tiles.tilesText {firstLine : Int}
    (tiles : Tiles (Token.fileName file) ⟨firstLine, 1⟩ text tokens last []) :
    TilesText file firstLine text tokens last [] := by
  have unmarked : mark text = [] := by
    refine mark_eq_nil fun byte first => ?_
    cases tiles with
    | stop => cases first
    | space blank _ =>
        cases first
        exact ascii_of_space blank
    | @lexeme _ kind spelling _ _ _ _ _ longest _ =>
        rw [List.head?_append_of_ne_nil _ longest.spells.ne_nil] at first
        exact longest.spells.head_ascii byte first
  refine ⟨text, ?_, ?_⟩
  · rw [unmarked, List.nil_append]
  · rw [unmarked]
    exact tiles

/-- From another position of another file a text has the same tokens in other places. -/
theorem Tiles.elsewhere (tiles : Tiles file position text tokens last remaining) (other : Text)
    (from_there : Position) :
    ∃ others last, Tiles other from_there text others last remaining ∧
      others.map (Token.relocate Location.unplaced) =
        tokens.map (Token.relocate Location.unplaced) := by
  induction tiles generalizing from_there with
  | stop => exact ⟨[], from_there, .stop, rfl⟩
  | @space _ byte _ _ _ _ blank _ induction =>
      obtain ⟨others, last, tiles, same⟩ := induction (from_there.after byte)
      exact ⟨others, last, .space blank tiles, same⟩
  | @lexeme _ kind spelling value _ _ _ _ longest _ induction =>
      obtain ⟨others, last, tiles, same⟩ := induction (from_there.afterText spelling)
      refine ⟨_, last, .lexeme longest tiles, ?_⟩
      rw [List.map_cons, List.map_cons, same]
      rfl

end Lexicon
end Formulary
