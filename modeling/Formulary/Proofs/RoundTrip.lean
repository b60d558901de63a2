import Formulary.Evaluation.Evaluate
import Formulary.Proofs.Rendering
import Formulary.Proofs.Seams
import Formulary.Proofs.ViablePrefix

/-!
# Programs survive rendering

The tree of a formula is made of lexemes, every tree of lexemes is read back from its rendering, and
so a formula with plain literals is the same formula after it has been rendered and read again.
-/

namespace Formulary
namespace Grammar

open Lexicon (Tiles TilesText Word joinsOperator)

/-- The first byte is one with which no operator goes on. -/
def Begins (text : Text) : Prop :=
  ∃ first rest, text = first :: rest ∧ ¬ joinsOperator first

namespace Begins

private theorem append {text : Text} (begins : Begins text) (rest : Text) :
    Begins (text ++ rest) := by
  obtain ⟨first, tail, rfl, ends⟩ := begins
  exact ⟨first, tail ++ rest, rfl, ends⟩

private theorem of_byte {first : UInt8} (listed : first ∈ Text.ascii "\"@(.") (rest : Text) :
    Begins (first :: rest) := by
  have apart : ∀ byte ∈ Text.ascii "\"@(.", ¬ joinsOperator byte := by decide +kernel
  exact ⟨first, rest, rfl, apart first listed⟩

private theorem of_wordPart {first : UInt8} (part : Lexeme.isWordPart first) (rest : Text) :
    Begins (first :: rest) :=
  ⟨first, rest, rfl, Lexicon.not_joins_of_wordPart part⟩

private theorem of_word {kind : TokenKind} {text : Text} (word : Word kind text) : Begins text := by
  obtain ⟨starts, parts⟩ := word
  exact of_wordPart (Lexicon.wordPart_of_wordStart starts) _

private theorem of_numeral {spelling : Text} (numeral : Lexicon.Numeral spelling) :
    Begins spelling := by
  cases spelling with
  | nil => exact absurd rfl numeral.ne_nil
  | cons first rest =>
      have begins := numeral.begins (List.prefix_refl _)
      by_cases digit : Text.isDigit first
      · exact of_wordPart (Lexicon.wordPart_of_digit digit) rest
      · simp only [Lexicon.beginsNumber, digit, Bool.false_or, Bool.and_eq_true,
          decide_eq_true_eq] at begins
        rw [begins.1]
        exact of_byte (by decide) rest

private theorem of_literal {value : Literal} (legible : value.Legible) : Begins value.render := by
  cases value with
  | null => exact of_word word_null
  | boolean truth => exact of_word (word_boolean truth)
  | number x =>
      obtain ⟨magnitude, rfl⟩ := legible
      obtain ⟨numeral, written, -⟩ := Number.toText_written magnitude
      exact of_numeral written.numeral
  | text bytes => exact of_byte (by decide) (bytes ++ [Text.doubleQuote])

private theorem parenthesised (text : Text) : Begins (Expr.parenthesised text) :=
  of_byte (by decide) (text ++ Text.ascii ")")

private theorem of_renderable {expr : Expr} (renderable : Renderable expr) :
    Begins expr.render := by
  induction renderable with
  | literal legible => exact of_literal legible
  | identifier word => exact of_word word
  | property inner word induction => exact (induction.append _).append _
  | index inner computed induction => exact ((induction.append _).append _).append _
  | call word passed => exact ((of_byte (by decide) []).append _).append _
  | binary | unary | conditional => exact parenthesised _

end Begins

/-- Every tree of lexemes is read back from its rendering, whatever comes behind a boundary. -/
theorem Renderable.readable {expr : Expr} (renderable : Renderable expr) :
    Readable expr.render (Rereads .accessed expr) := by
  induction renderable with
  | literal legible => exact readable_literal legible
  | identifier word => exact readable_identifier word
  | property inner word induction => exact readable_property induction word
  | index inner computed inner_induction computed_induction =>
      exact readable_index inner_induction computed_induction
  | call word passed induction => exact readable_call word induction
  | binary before joins listed after before_induction after_induction =>
      exact readable_binary before_induction joins listed after_induction
  | unary sign listed inner induction =>
      obtain ⟨first, tail, begins, ends⟩ := Begins.of_renderable inner
      exact readable_unary sign listed induction begins ends
  | conditional tested chosen otherwise tested_induction chosen_induction otherwise_induction =>
      exact readable_conditional tested_induction chosen_induction otherwise_induction

private theorem bodyTokens_tiles {file text : Text} {firstLine : Int} {lexemes : List Token}
    {last : Position} {remaining : Text}
    (tiles : TilesText file firstLine text lexemes last remaining) (behind : Position) :
    Program.bodyTokens (lexemes ++ [Token.endOfInput (Token.fileName file) behind]) = lexemes := by
  obtain ⟨body, -, tiles⟩ := tiles
  rw [bodyTokens_append tiles.not_endOfInput]
  exact List.append_nil lexemes

/-- A text is read as a program if its lexemes are a sentence. -/
theorem ofText_eq_ok_iff {file text : Text} {firstLine : Int} {program : Program} :
    Program.ofText file firstLine text = .ok program ↔
      ∃ lexemes last, TilesText file firstLine text lexemes last [] ∧
        Sentence lexemes program.body ∧
        (lexemes ++ [Token.endOfInput (Token.fileName file) last]).head? = some program.token := by
  constructor
  · intro read
    cases outcome : Token.sequence file firstLine text with
    | error error => simp [Program.ofText, outcome, bind, Except.bind] at read
    | ok tokens =>
        simp only [Program.ofText, outcome, bind, Except.bind] at read
        obtain ⟨lexemes, last, tiles, rfl⟩ := Lexicon.sequence_eq_ok_iff.mp outcome
        have parsed := (ofTokens_eq_ok_iff _ _).mp read
        rw [bodyTokens_tiles tiles] at parsed
        exact ⟨lexemes, last, tiles, parsed⟩
  · intro covered
    obtain ⟨lexemes, last, tiles, sentence, head⟩ := covered
    have sequenced := Lexicon.sequence_eq_ok_iff.mpr ⟨lexemes, last, tiles, rfl⟩
    rw [← bodyTokens_tiles tiles last] at sentence
    simp only [Program.ofText, sequenced, bind, Except.bind]
    exact (ofTokens_eq_ok_iff _ _).mpr ⟨sentence, head⟩

/-- A text that is tiled by a sentence is read as the tree of the sentence. -/
theorem ofText_of_tiles {file text : Text} {firstLine : Int} {tokens : List Token} {last : Position}
    {expr : Expr} (tiles : Tiles (Token.fileName file) ⟨firstLine, 1⟩ text tokens last [])
    (sentence : Sentence tokens expr) :
    ∃ token, Program.ofText file firstLine text = .ok ⟨expr, token⟩ := by
  obtain ⟨token, rest, rfl, -⟩ := sentence.begins
  exact ⟨token, ofText_eq_ok_iff.mpr ⟨_, last, tiles.tilesText, sentence, rfl⟩⟩

/-- The rendering of a tree of lexemes is a program with the same tree. -/
theorem Renderable.ofText_render_eq_ok {expr : Expr} (renderable : Renderable expr) (file : Text)
    (firstLine : Int) :
    ∃ program, Program.ofText file firstLine expr.render = .ok program ∧
      program.body.erase = expr.erase := by
  obtain ⟨tokens, last, tiles, again, derives, same⟩ :=
    renderable.readable [] .nil (Token.fileName file) ⟨firstLine, 1⟩
  rw [List.append_nil] at tiles
  obtain ⟨token, read⟩ := ofText_of_tiles tiles derives.conditional_of_accessed
  exact ⟨_, read, same⟩

/--
A program whose numbers are finite and whose texts hold neither a double quotation mark nor a
backslash is read back from its rendering, as any line of any file.
-/
theorem ofText_render {file text : Text} {firstLine : Int} {program : Program}
    (read : Program.ofText file firstLine text = .ok program)
    (plain : ∀ literal ∈ program.body.literals, literal.Plain) (other : Text) (line : Int) :
    ∃ again, Program.ofText other line program.body.render = .ok again ∧
      again.body.erase = program.body.erase := by
  obtain ⟨lexemes, last, ⟨body, -, tiles⟩, sentence, -⟩ := ofText_eq_ok_iff.mp read
  exact (Derives.renderable sentence tiles.spells plain).ofText_render_eq_ok other line

/-- A formula with nodes of every kind, a keyword for a property name and a number in long form. -/
theorem everyNode_ofText_render :
    ∃ program,
      Program.ofText [] 1 (Text.ascii "-a.true[1.50e1] ? 'x' : @f(!b, c || d)") = .ok program ∧
      (∀ literal ∈ program.body.literals, literal.Plain) ∧
      ∃ again, Program.ofText [] 1 program.body.render = .ok again ∧
        again.body.erase = program.body.erase := by
  generalize formula : Text.ascii "-a.true[1.50e1] ? 'x' : @f(!b, c || d)" = text
  have checked : ((Program.ofText [] 1 text).toOption.any fun program =>
      decide (∀ literal ∈ program.body.literals, literal.Plain)) := by
    rw [← formula]
    decide +kernel
  cases read : Program.ofText [] 1 text with
  | error error =>
      rw [read] at checked
      cases checked
  | ok program =>
      rw [read] at checked
      have plain : ∀ literal ∈ program.body.literals, literal.Plain := of_decide_eq_true checked
      exact ⟨program, rfl, plain, ofText_render read plain [] 1⟩

end Grammar
end Formulary
