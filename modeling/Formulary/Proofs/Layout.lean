import Formulary.Proofs.Relocation
import Formulary.Proofs.Seams

/-!
# Layout

The spaces around the tokens of a text do not matter.  With other spaces, of which there is one
between two tokens at least, the text has the same tokens in other places, and so it is a formula
with the same run, or it has a fault with the same message.
-/

namespace Formulary

/-- Spaces in front of so many pieces and behind each of them, none of them missing in between. -/
structure Spacing (count : Nat) where
  front : Text
  behind : List Text
  length_behind : behind.length = count
  front_blank : ∀ byte ∈ front, Text.isSpace byte
  behind_blank : ∀ blanks ∈ behind, ∀ byte ∈ blanks, Text.isSpace byte
  apart : ∀ blanks ∈ behind.dropLast, blanks ≠ []

/-- The pieces in order, with the spaces around them. -/
def Spacing.lay {count : Nat} (spacing : Spacing count) (pieces : List Text) : Text :=
  spacing.front ++ (List.zipWith (· ++ ·) pieces spacing.behind).flatten

namespace Lexicon

variable {file text : Text} {placed : List (Token × Nat)}

/-- The bytes that the tokens of a text stand on, without the end of input. -/
def pieces (text : Text) (placed : List (Token × Nat)) : List Text :=
  (placed.filter fun entry => entry.1.kind != .endOfInput).map (stretch text)

private theorem pieces_append_end (bears : ∀ entry ∈ placed, Bears (stretch text entry) entry.1)
    (ending : Token × Nat) (ends : ending.1.kind = .endOfInput) :
    pieces text (placed ++ [ending]) = placed.map (stretch text) := by
  have kept : placed.filter (fun entry => entry.1.kind != .endOfInput) = placed :=
    List.filter_eq_self.mpr fun entry member =>
      bne_iff_ne.mpr (bears entry member).spells.not_endOfInput
  rw [pieces, List.filter_append, kept, List.filter_cons_of_neg (by simp [ends]), List.filter_nil,
    List.append_nil]

/-- Wherever the bytes of a token stand, they bear that token in another place. -/
theorem Bears.relocate_locate {spelling : Text} {token : Token} (bears : Bears spelling token)
    (position : Position) :
    Token.relocate Location.unplaced
        ⟨token.kind, token.value, position.locate file spelling.length⟩ =
      token.relocate Location.unplaced := by
  simp only [Token.relocate, Location.unplaced, Position.locate, bears.covers]

private theorem seam_of_spaces {blanks rest : Text} (blank : ∀ byte ∈ blanks, Text.isSpace byte)
    (nothing : blanks = [] → rest = []) : Seam (blanks ++ rest) := by
  cases blanks with
  | nil =>
      rw [nothing rfl]
      exact seam_nil
  | cons byte blanks => exact seam_cons (not_continues_of_space (blank byte List.mem_cons_self)) _

/-- Pieces that bear tokens are read as these tokens, with any spaces behind them. -/
theorem exists_tiles_pieces (bears : ∀ entry ∈ placed, Bears (stretch text entry) entry.1)
    {behind : List Text} (count : behind.length = placed.length)
    (blank : ∀ blanks ∈ behind, ∀ byte ∈ blanks, Text.isSpace byte)
    (apart : ∀ blanks ∈ behind.dropLast, blanks ≠ []) (file : Text) (position : Position) :
    ∃ others last,
      Tiles file position
        (List.zipWith (· ++ ·) (placed.map (stretch text)) behind).flatten others last [] ∧
      others.map (Token.relocate Location.unplaced) =
        (placed.map Prod.fst).map (Token.relocate Location.unplaced) := by
  induction placed generalizing behind position with
  | nil => exact ⟨[], position, .stop, rfl⟩
  | cons entry placed induction =>
      obtain ⟨token, offset⟩ := entry
      obtain ⟨first_bears, bears⟩ := List.forall_mem_cons.mp bears
      obtain ⟨blanks, behind, rfl⟩ := List.exists_cons_of_length_eq_add_one count
      obtain ⟨first_blank, blank⟩ := List.forall_mem_cons.mp blank
      have count : behind.length = placed.length := Nat.succ.inj count
      have later_apart : ∀ blanks ∈ behind.dropLast, blanks ≠ [] := fun other member =>
        apart other (by
          cases behind with
          | nil => cases member
          | cons next behind => exact List.mem_cons_of_mem blanks member)
      let spelling := stretch text (token, offset)
      obtain ⟨others, last, tiles, same⟩ :=
        induction bears count blank later_apart
          ((position.afterText spelling).afterText blanks)
      -- Only behind the last piece the spaces may be missing, and then nothing comes behind it.
      have seam : Seam (blanks ++
          (List.zipWith (· ++ ·) (placed.map (stretch text)) behind).flatten) := by
        refine seam_of_spaces first_blank fun missing => ?_
        cases behind with
        | nil => rw [List.zipWith_nil_right, List.flatten_nil]
        | cons next behind => exact absurd missing (apart blanks List.mem_cons_self)
      have longest := first_bears.spells.longest.before seam
      have laid := Tiles.lexeme longest (tiles.spaces first_blank)
      rw [← List.append_assoc] at laid
      refine ⟨_, last, laid, ?_⟩
      rw [List.map_cons, List.map_cons, List.map_cons, same, first_bears.relocate_locate]

/-- With other spaces around its pieces a text has the same tokens in other places. -/
theorem Lexed.sequence_lay (lexed : Lexed text placed)
    (spacing : Spacing (pieces text placed).length) (file : Text) (firstLine : Int) :
    ∃ others, Token.sequence file firstLine (spacing.lay (pieces text placed)) = .ok others ∧
      others.map (Token.relocate Location.unplaced) =
        (placed.map Prod.fst).map (Token.relocate Location.unplaced) := by
  obtain @⟨placed, ending, reads, ends, empty, covers⟩ := lexed
  have bears := reads.bears
  have same_pieces := pieces_append_end bears (ending, text.length) ends
  generalize pieces text (placed ++ [(ending, text.length)]) = texts at spacing same_pieces ⊢
  subst same_pieces
  have count : spacing.behind.length = placed.length := by
    rw [spacing.length_behind, List.length_map]
  obtain ⟨others, last, tiles, same⟩ := exists_tiles_pieces bears count spacing.behind_blank
    spacing.apart (Token.fileName file) (Position.afterText ⟨firstLine, 1⟩ spacing.front)
  have tiles := (tiles.spaces spacing.front_blank).tilesText
  refine ⟨_, sequence_eq_ok_iff.mpr ⟨others, last, tiles, rfl⟩, ?_⟩
  rw [List.map_append, List.map_append, List.map_append, same]
  simp [Token.relocate, Token.endOfInput, Location.unplaced, Position.locate, ends, empty, covers]

end Lexicon

namespace Program

open Lexicon (Lexed pieces)

variable {σ : Type} {file other text another : Text} {firstLine line : Int}

/-- Texts with the same tokens in other places have the same outcome. -/
theorem sameOutcome_of_sequence {tokens others : List Token}
    (sequenced : Token.sequence file firstLine text = .ok tokens)
    (also_sequenced : Token.sequence other line another = .ok others)
    (same : others.map (Token.relocate Location.unplaced) =
      tokens.map (Token.relocate Location.unplaced)) :
    SameOutcome σ (ofText file firstLine text) (ofText other line another) := by
  simp only [ofText, sequenced, also_sequenced, bind, Except.bind]
  refine sameOutcome_of_relocate Location.unplaced ?_
  rw [← ofTokens_relocate (Token.sequence_ends sequenced),
    ← ofTokens_relocate (Token.sequence_ends also_sequenced), same]

/--
Of a text that is a sequence of tokens the spaces do not matter.  With any other spaces around the
bytes of its tokens, as any line of any file, it is read as tokens of the same kinds, values and
lengths in the same order; so it is a formula with the same run in every environment, or it has a
fault with the same message.
-/
theorem spacing_immaterial {tokens : List Token}
    (sequenced : Token.sequence file firstLine text = .ok tokens) :
    ∃ placed, Lexed text placed ∧ tokens = placed.map Prod.fst ∧
      (∀ entry ∈ placed, entry.1.location.file = Token.fileName file ∧
        entry.1.location.Marks firstLine text entry.2) ∧
      ∀ (spacing : Spacing (pieces text placed).length) (other : Text) (line : Int),
        (∃ others, Token.sequence other line (spacing.lay (pieces text placed)) = .ok others ∧
          others.map (fun token => (token.kind, token.value, token.location.length)) =
            tokens.map fun token => (token.kind, token.value, token.location.length)) ∧
        SameOutcome σ (ofText file firstLine text)
          (ofText other line (spacing.lay (pieces text placed))) := by
  obtain ⟨placed, lexed, rfl, located⟩ := Lexicon.exists_lexed sequenced
  refine ⟨placed, lexed, rfl, located, fun spacing other line => ?_⟩
  obtain ⟨others, also_sequenced, same⟩ := lexed.sequence_lay spacing other line
  refine ⟨⟨others, also_sequenced, ?_⟩, sameOutcome_of_sequence sequenced also_sequenced same⟩
  have read_off (list : List Token) :
      list.map (fun token => (token.kind, token.value, token.location.length)) =
        (list.map (Token.relocate Location.unplaced)).map
          fun token => (token.kind, token.value, token.location.length) := by
    rw [List.map_map]
    rfl
  rw [read_off, same, ← read_off]

/-- A name with a number behind it, of which none goes on into the other. -/
theorem spacing_immaterial_of_name_number :
    ∃ tokens placed, Token.sequence [] 1 (Text.ascii "a.5") = .ok tokens ∧
      Lexed (Text.ascii "a.5") placed ∧ tokens = placed.map Prod.fst ∧
      ∀ spacing : Spacing (pieces (Text.ascii "a.5") placed).length,
        SameOutcome Unit (ofText [] 1 (Text.ascii "a.5"))
          (ofText [] 1 (spacing.lay (pieces (Text.ascii "a.5") placed))) := by
  have sequenced : Token.sequence [] 1 (Text.ascii "a.5") = .ok
      [⟨.identifier, Text.ascii "a", ⟨Text.ascii "<expr>", 1, 1, 1⟩⟩,
        ⟨.number, Text.ascii ".5", ⟨Text.ascii "<expr>", 1, 2, 2⟩⟩,
        ⟨.endOfInput, [], ⟨Text.ascii "<expr>", 1, 4, 0⟩⟩] := rfl
  obtain ⟨placed, lexed, same, -, laid⟩ := spacing_immaterial (σ := Unit) sequenced
  exact ⟨_, placed, sequenced, lexed, same, fun spacing => (laid spacing [] 1).2⟩

end Program
end Formulary
