import Mathlib.Data.List.Induction
import Formulary.Evaluation.Evaluate
import Formulary.Proofs.Tiling
import Formulary.Proofs.ViablePrefix

/-!
# Places in a text

A place in a text is the number of bytes in front of it, which determine its line and its column.
Every token has the line and the column of its first byte, and every syntax error those of the byte
where a string breaks, where no lexeme begins or where the token begins that has no place in the
grammar.
-/

namespace Formulary

namespace Text

/-- The bytes behind the last newline, or all of them. -/
def lastLine (text : Text) : Text :=
  (text.reverse.takeWhile (· != newline)).reverse

/-- The bytes in front of the first newline, or all of them. -/
def firstLine (text : Text) : Text :=
  text.takeWhile (· != newline)

theorem lastLine_append_newline (text : Text) : lastLine (text ++ [newline]) = [] := by
  simp [lastLine]

theorem lastLine_append_byte (text : Text) {byte : UInt8} (plain : byte ≠ newline) :
    lastLine (text ++ [byte]) = lastLine text ++ [byte] := by
  simp [lastLine, plain]

end Text

namespace Location

/-- The location has the line and the column of an offset, in a text that begins with a line. -/
structure Marks (location : Location) (firstLine : Int) (text : Text) (offset : Nat) : Prop where
  line : location.line = firstLine + (text.take offset).count Text.newline
  column : location.column = 1 + (Text.lastLine (text.take offset)).length

end Location

theorem Position.afterText_eq (firstLine : Int) (front : Text) :
    Position.afterText ⟨firstLine, 1⟩ front =
      ⟨firstLine + front.count Text.newline, 1 + (Text.lastLine front).length⟩ := by
  induction front using List.reverseRecOn with
  | nil => simp [afterText, Text.lastLine]
  | append_singleton front byte induction =>
      rw [afterText] at induction ⊢
      rw [List.foldl_append, induction, List.foldl_cons, List.foldl_nil, after]
      by_cases newline : byte = Text.newline
      · subst newline
        rw [if_pos rfl, Text.lastLine_append_newline, List.count_append, List.count_singleton_self]
        simp [Int.add_assoc]
      · rw [if_neg newline, Text.lastLine_append_byte front newline, List.count_append,
          List.count_singleton, List.length_append]
        simp [newline, Int.add_assoc]

private theorem Position.afterText_append (position : Position) (front back : Text) :
    position.afterText (front ++ back) = (position.afterText front).afterText back :=
  List.foldl_append ..

namespace Lexicon

/-- From one offset of a text to another one it is read as these tokens at their offsets. -/
inductive Placed (text : Text) : Nat → List (Token × Nat) → Nat → Prop where
  | stop {offset} : Placed text offset [] offset
  | space {offset byte placed last} (here : text[offset]? = some byte) (blank : Text.isSpace byte)
      (more : Placed text (offset + 1) placed last) : Placed text offset placed last
  | lexeme {offset spelling placed last} {token : Token}
      (longest : Longest (text.drop offset) token.kind spelling token.value)
      (covers : token.location.length = spelling.length)
      (more : Placed text (offset + spelling.length) placed last) :
      Placed text offset ((token, offset) :: placed) last

/-- The bytes of a text on which a token at an offset stands. -/
def stretch (text : Text) (entry : Token × Nat) : Text :=
  (text.drop entry.2).take entry.1.location.length.toNat

/-- The bytes spell the token and are as many as its location has. -/
structure Bears (spelling : Text) (token : Token) : Prop where
  spells : Spells token.kind spelling token.value
  covers : token.location.length = spelling.length

theorem Placed.bears {text : Text} {offset last : Nat} {placed : List (Token × Nat)}
    (reads : Placed text offset placed last) :
    ∀ entry ∈ placed, Bears (stretch text entry) entry.1 := by
  induction reads with
  | stop => simp
  | space _ _ _ induction => exact induction
  | @lexeme offset spelling _ _ token longest covers _ induction =>
      have whole : stretch text (token, offset) = spelling := by
        rw [stretch, covers, Int.toNat_natCast, ← List.prefix_iff_eq_take.mp longest.begins]
      refine List.forall_mem_cons.mpr ⟨?_, induction⟩
      rw [whole]
      exact ⟨longest.spells, covers⟩

/-- All of a text is read as these tokens at their offsets, and an end of input stands behind it. -/
inductive Lexed (text : Text) : List (Token × Nat) → Prop where
  | intro {placed ending} (placed_tokens : Placed text (mark text).length placed text.length)
      (ends : ending.kind = .endOfInput) (empty : ending.value = [])
      (covers : ending.location.length = 0) : Lexed text (placed ++ [(ending, text.length)])

private theorem Placed.le {text : Text} {offset last : Nat} {placed : List (Token × Nat)}
    (reads : Placed text offset placed last) : ∀ entry ∈ placed, entry.2 ≤ text.length := by
  induction reads with
  | stop => simp
  | space _ _ _ induction => exact induction
  | lexeme longest _ _ induction =>
      refine List.forall_mem_cons.mpr ⟨?_, induction⟩
      have shorter := longest.begins.length_le
      have positive := List.length_pos_iff.mpr longest.spells.ne_nil
      rw [List.length_drop] at shorter
      show _ ≤ _
      omega

theorem Lexed.ends {text : Text} {placed : List (Token × Nat)} (lexed : Lexed text placed) :
    ∃ token ∈ placed.map Prod.fst, token.kind = .endOfInput := by
  obtain ⟨-, ends, -, -⟩ := lexed
  exact ⟨_, by simp, ends⟩

private theorem Lexed.le {text : Text} {placed : List (Token × Nat)} (lexed : Lexed text placed) :
    ∀ entry ∈ placed, entry.2 ≤ text.length := by
  obtain ⟨placed_tokens, -, -, -⟩ := lexed
  exact List.forall_mem_append.mpr ⟨placed_tokens.le, by simp⟩

/-- A location at a position has the line and the column of the bytes in front of it. -/
theorem marks_locate {firstLine : Int} {text front : Text} {offset : Nat}
    (front_eq : text.take offset = front) (file : Text) (length : Nat) :
    ((Position.afterText ⟨firstLine, 1⟩ front).locate file length).Marks firstLine text offset := by
  subst front_eq
  rw [Position.afterText_eq]
  exact ⟨rfl, rfl⟩

/-- Where a text is tiled, the tokens are placed behind what is in front of them. -/
theorem Tiles.placed {file : Text} {position last : Position} {text remaining : Text}
    {tokens : List Token} (tiles : Tiles file position text tokens last remaining)
    {firstLine : Int} (front : Text)
    (starts : position = Position.afterText ⟨firstLine, 1⟩ front) :
    ∃ placed offset, Placed (front ++ text) front.length placed offset ∧
      offset ≤ (front ++ text).length ∧ (front ++ text).drop offset = remaining ∧
      last = Position.afterText ⟨firstLine, 1⟩ ((front ++ text).take offset) ∧
      tokens = placed.map Prod.fst ∧
      ∀ entry ∈ placed, entry.1.location.file = file ∧
        entry.1.location.Marks firstLine (front ++ text) entry.2 := by
  induction tiles generalizing front with
  | stop =>
      refine ⟨[], front.length, .stop, by simp, ?_, ?_, rfl, by simp⟩
      · rw [List.drop_left]
      · rw [List.take_left, starts]
  | @space position byte rest tokens last remaining blank more induction =>
      obtain ⟨placed, offset, reads, bound, remains, ends, same, located⟩ :=
        induction (front ++ [byte]) (by
          rw [starts, Position.afterText_append]
          rfl)
      rw [List.append_assoc, List.singleton_append] at reads bound remains ends located
      rw [List.length_append] at reads
      exact ⟨placed, offset, .space (by simp) blank reads, bound, remains, ends, same, located⟩
  | @lexeme position kind spelling value rest tokens last remaining longest more induction =>
      subst starts
      obtain ⟨placed, offset, reads, bound, remains, ends, same, located⟩ :=
        induction (front ++ spelling) (by rw [Position.afterText_append])
      rw [List.append_assoc] at reads bound remains ends located
      rw [List.length_append] at reads
      have behind : (front ++ (spelling ++ rest)).drop front.length = spelling ++ rest :=
        List.drop_left
      rw [← behind] at longest
      let position := Position.afterText ⟨firstLine, 1⟩ front
      let token : Token := ⟨kind, value, position.locate file spelling.length⟩
      have lexeme : Placed (front ++ (spelling ++ rest)) front.length
          ((token, front.length) :: placed) offset := .lexeme longest rfl reads
      refine ⟨(token, front.length) :: placed, offset, lexeme, bound, remains, ends, ?_, ?_⟩
      · rw [same]
        rfl
      · exact List.forall_mem_cons.mpr ⟨⟨rfl, marks_locate List.take_left _ _⟩, located⟩

section Texts

variable {file text : Text} {firstLine : Int}

/-- The tokens of a text have the lines and the columns of their first bytes. -/
theorem exists_lexed {tokens : List Token}
    (sequenced : Token.sequence file firstLine text = .ok tokens) :
    ∃ placed, Lexed text placed ∧ tokens = placed.map Prod.fst ∧
      ∀ entry ∈ placed, entry.1.location.file = Token.fileName file ∧
        entry.1.location.Marks firstLine text entry.2 := by
  obtain ⟨lexemes, last, ⟨body, split, tiles⟩, rfl⟩ := sequence_eq_ok_iff.mp sequenced
  obtain ⟨placed, offset, reads, bound, remains, ends, rfl, located⟩ := tiles.placed _ rfl
  rw [← split] at reads bound remains ends located
  obtain rfl := Nat.le_antisymm bound (List.drop_eq_nil_iff.mp remains)
  subst ends
  let last := Position.afterText ⟨firstLine, 1⟩ (text.take text.length)
  let ending := Token.endOfInput (Token.fileName file) last
  have lexed : Lexed text (placed ++ [(ending, text.length)]) := .intro reads rfl rfl rfl
  refine ⟨_, lexed, ?_, ?_⟩
  · rw [List.map_append]
    rfl
  · have marks : ending.location.Marks firstLine text text.length := marks_locate rfl _ _
    exact List.forall_mem_append.mpr ⟨located, List.forall_mem_singleton.mpr ⟨rfl, marks⟩⟩

end Texts

end Lexicon

namespace Program

open Lexicon (Placed Lexed Spells Fails)

/-- A text that is no formula has a fault that lies at an offset. -/
inductive FaultAt (file : Text) (firstLine : Int) (text : Text) : SyntaxFault → Nat → Prop where
  | lexical {placed last failure} (reads : Placed text (Lexicon.mark text).length placed last)
      (no_space : ∀ byte ∈ text[last]?, ¬ Text.isSpace byte)
      (no_lexeme : ∀ kind spelling value, Spells kind spelling value →
        ¬ spelling <+: text.drop last)
      (fails : Fails (text.drop last) failure) :
      FaultAt file firstLine text (.lexical failure.fault) (last + failure.offset)
  | grammatical {placed fault found offset} (lexed : Lexed text placed)
      (sequenced : Token.sequence file firstLine text = .ok (placed.map Prod.fst))
      (listed : (found, offset) ∈ placed) :
      FaultAt file firstLine text (.grammatical fault found) offset

variable {file text : Text} {firstLine : Int}

theorem FaultAt.le {fault : SyntaxFault} {offset : Nat}
    (lies : FaultAt file firstLine text fault offset) : offset ≤ text.length := by
  cases lies with
  | grammatical lexed sequenced listed => exact lexed.le _ listed
  | @lexical placed last failure reads no_space no_lexeme fails =>
      have inside := fails.le
      have begins : last < text.length := by
        refine List.drop_eq_nil_iff.not.mp ?_ |> Nat.lt_of_not_le
        intro empty
        rw [empty] at fails
        cases fails
      rw [List.length_drop] at inside
      omega

/-- A text that is no sequence of lexemes has the fault where the error is located. -/
theorem faultAt_of_sequence {error : SyntaxError}
    (failed : Token.sequence file firstLine text = .error error) :
    ∃ offset, FaultAt file firstLine text error.fault offset ∧
      error.location.file = Token.fileName file ∧
      error.location.Marks firstLine text offset := by
  obtain ⟨lexemes, last, remaining, tiled, empty | stuck⟩ :=
    Lexicon.exists_tilesText file firstLine text
  · rw [Lexicon.sequence_of_tilesText tiled, empty] at failed
    cases failed
  · have no_lexeme : ∀ kind spelling value, Spells kind spelling value →
        ¬ spelling <+: remaining := fun _ _ _ => stuck.no_lexeme
    obtain ⟨byte, rest, failure, rfl, not_space, scanned⟩ := stuck
    rw [Lexicon.sequence_of_tilesText tiled, Token.sequenceFrom, if_neg not_space,
      scanned] at failed
    cases failed
    obtain ⟨body, split, tiles⟩ := tiled
    obtain ⟨placed, offset, reads, -, remains, ends, -⟩ := tiles.placed _ rfl
    rw [← split] at reads remains ends
    have here : text[offset]? = some byte := by
      rw [← Nat.add_zero offset, ← List.getElem?_drop, remains]
      rfl
    rw [← remains] at no_lexeme
    refine ⟨offset + failure.offset, .lexical reads ?_ no_lexeme ?_, rfl, ?_⟩
    · rw [here]
      rintro _ ⟨⟩
      exact not_space
    · rw [remains]
      exact Lexicon.fails_of_scan scanned
    · have behind := List.take_add (l := text) (i := offset) (j := failure.offset)
      rw [remains] at behind
      rw [ends, ← Position.afterText_append]
      exact Lexicon.marks_locate behind _ _

/-- The token that a parser finds is one of those that it is given, if they have an end. -/
theorem found_mem {tokens front : List Token} {stop : Expr.Stop}
    (split : bodyTokens tokens = front ++ stop.rest)
    (ends : ∃ token ∈ tokens, token.kind = .endOfInput) :
    stop.rest.headD (endToken tokens) ∈ tokens := by
  cases rest : stop.rest with
  | nil =>
      obtain ⟨token, listed, is_end⟩ := ends
      have exists_end : (tokens.find? fun token => token.kind == .endOfInput).isSome :=
        List.find?_isSome.mpr ⟨token, listed, beq_iff_eq.mpr is_end⟩
      obtain ⟨found, first⟩ := Option.isSome_iff_exists.mp exists_end
      rw [List.headD_nil, endToken, first]
      exact List.mem_of_find?_eq_some first
  | cons token after =>
      have inside : token ∈ bodyTokens tokens := by
        rw [split, rest]
        simp
      exact (List.takeWhile_prefix _).mem inside

/-- A text that is no formula has the fault where the error is located. -/
theorem faultAt_of_ofText {error : SyntaxError}
    (failed : Program.ofText file firstLine text = .error error) :
    ∃ offset, FaultAt file firstLine text error.fault offset ∧
      error.location.file = Token.fileName file ∧
      error.location.Marks firstLine text offset := by
  cases sequenced : Token.sequence file firstLine text with
  | error other =>
      simp only [Program.ofText, sequenced, bind, Except.bind] at failed
      cases failed
      exact faultAt_of_sequence sequenced
  | ok tokens =>
      simp only [Program.ofText, sequenced, bind, Except.bind] at failed
      obtain ⟨stop, front, rfl, split, -⟩ := Grammar.ofTokens_stops failed
      obtain ⟨placed, lexed, rfl, located⟩ := Lexicon.exists_lexed sequenced
      obtain ⟨entry, listed, found⟩ := List.mem_map.mp (found_mem split lexed.ends)
      have here := located entry listed
      refine ⟨entry.2, ?_, ?_⟩
      · rw [errorAt, ← found]
        exact .grammatical lexed sequenced listed
      · rw [errorAt, ← found]
        exact here

end Program
end Formulary
