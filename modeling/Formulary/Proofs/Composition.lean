import Formulary.Proofs.Parsing
import Formulary.Proofs.RoundTrip
import Formulary.Proofs.Seams

/-!
# Formulas composed of formulas

A formula between parentheses is an operand, and between brackets, parentheses and commas a formula
is a key or an argument as it stands.  So texts that are formulas are put together to texts that are
formulas, and the tree of the whole has the trees of the parts in it.
-/

namespace Formulary
namespace Grammar

open Formulary.Expr (Level)
open Lexicon (Seam Word)

/-- The tokens are a phrase with the given tree, apart from the places of the tokens in it. -/
def Retells (category : Category) (expr : Expr) (tokens : List Token) : Prop :=
  ∃ again, Derives category tokens again ∧
    again.relocate Location.unplaced = expr.relocate Location.unplaced

/-- In front of every seam, the text is read as a sentence with the given tree. -/
def Portable (text : Text) (expr : Expr) : Prop :=
  ∀ rest, Seam rest → Covers text rest (Retells .conditional expr)

/-- As any line of any file, the text is a formula with the given node, apart from all places. -/
def Composes (text : Text) (kind : TokenKind) (spelling : Text) (node : Token → Expr) : Prop :=
  ∀ file firstLine, ∃ program location, Program.ofText file firstLine text = .ok program ∧
    program.body.relocate Location.unplaced =
      (node ⟨kind, spelling, location⟩).relocate Location.unplaced

/-- Tokens of a sentence in other places are a sentence with the same tree in those places. -/
theorem sentence_elsewhere {move : Location → Location} {tokens others : List Token} {expr : Expr}
    (sentence : Sentence tokens expr)
    (same : others.map (Token.relocate move) = tokens.map (Token.relocate move)) :
    ∃ again, Sentence others again ∧ again.relocate move = expr.relocate move := by
  have reads := Reads.expression tokens.length
  have follows := Expr.follows_expression move tokens.length
  have parsed := reads.complete (show (tokens ++ []).length ≤ _ by simp) sentence (ends_nil _)
  rw [List.append_nil] at parsed
  have image := follows others
  rw [same, follows tokens, parsed] at image
  have as_long : others.length ≤ tokens.length := by
    have lengths := congrArg List.length same
    rw [List.length_map, List.length_map] at lengths
    exact Nat.le_of_eq lengths
  cases outcome : Expr.expression tokens.length others with
  | error stop =>
      rw [outcome] at image
      cases image
  | ok result =>
      obtain ⟨again, rest⟩ := result
      rw [outcome] at image
      simp only [Expr.relocateParsed, Except.ok.injEq, Prod.mk.injEq, List.map_nil] at image
      obtain ⟨relocated, nothing⟩ := image
      obtain rfl := List.map_eq_nil_iff.mp nothing.symm
      obtain ⟨front, split, also_sentence, -⟩ := reads.sound as_long outcome
      rw [List.append_nil] at split
      exact ⟨again, split ▸ also_sentence, relocated.symm⟩

section Compositions

variable {file a b c operator function : Text} {firstLine : Int} {kind : TokenKind} {level : Level}
  {left right test : Expr} {rest : Text}

/-- A text that is a formula is read as the same formula in front of every seam. -/
theorem portable_of_ofText {program : Program}
    (read : Program.ofText file firstLine a = .ok program)
    (unmarked : ¬ Token.byteOrderMark.isPrefixOf a) : Portable a program.body := by
  intro rest seam other position
  obtain ⟨lexemes, last, ⟨body, split, tiles⟩, sentence, -⟩ := ofText_eq_ok_iff.mp read
  obtain rfl : a = body := by rwa [Lexicon.mark, if_neg unmarked, List.nil_append] at split
  obtain ⟨tokens, last, tiles, same⟩ := tiles.elsewhere other position
  exact ⟨tokens, last, tiles.before seam, sentence_elsewhere sentence same⟩

private theorem covers_parenthesised (inner : Portable a left) (rest : Text) :
    Covers (Expr.parenthesised a) rest (Retells .accessed left) := by
  have seam : Seam (Text.ascii ")" ++ rest) := Lexicon.seam_cons (by decide) rest
  refine (inner _ seam).enclosed.mono fun tokens phrase => ?_
  obtain ⟨_, _, rfl, ⟨_, rfl⟩, _, _, rfl, ⟨again, derives, same⟩, _, rfl⟩ := phrase
  exact ⟨again, .bare (.parenthesised rfl derives rfl), same⟩

private theorem composes_of_covers {spelling : Text} {node : Token → Expr}
    (covers : Covers a [] fun tokens =>
      ∃ location, Retells .conditional (node ⟨kind, spelling, location⟩) tokens) :
    Composes a kind spelling node := by
  intro file firstLine
  obtain ⟨tokens, last, tiles, location, again, sentence, same⟩ :=
    covers (Token.fileName file) ⟨firstLine, 1⟩
  rw [List.append_nil] at tiles
  obtain ⟨token, read⟩ := ofText_of_tiles tiles sentence
  exact ⟨_, location, read, same⟩

private theorem composes_binary (before : Portable a left) (after : Portable b right)
    (joins : kind ∈ operators level) (listed : (operator, kind) ∈ Lexeme.operators) :
    Composes
      (Expr.parenthesised a ++ (Text.ascii " " ++ operator ++ Text.ascii " ") ++
        Expr.parenthesised b)
      kind operator (.binary operator left right) := by
  rw [List.append_assoc]
  refine composes_of_covers (((covers_parenthesised before _).append
    ((Covers.spaced listed).append (covers_parenthesised after _))).mono fun tokens phrase => ?_)
  obtain ⟨_, _, rfl, ⟨again, derives, same⟩, _, _, rfl, ⟨location, rfl⟩,
    operand, operand_derives, operand_same⟩ := phrase
  have spelled : operatorText level ⟨kind, operator, location⟩ = operator :=
    operatorText_eq_value joins listed
  have chained : Derives (.chain level) (_ ++ ⟨kind, operator, location⟩ :: _) _ :=
    .binary (.chain_of_prefixed (.unsigned derives)) joins
      (.operand_of_prefixed (.unsigned operand_derives))
  exact ⟨location, _, chained.conditional_of_chain,
    by simp only [Expr.relocate, spelled, same, operand_same]⟩

private theorem composes_not (inner : Portable a left) :
    Composes (Text.ascii "!" ++ Expr.parenthesised a) .not (Text.ascii "!")
      (.unary (Text.ascii "!") true left) := by
  have ends : ¬ Lexicon.joinsOperator 40 := by decide
  have no_number : Text.ascii "!" = [Text.dot] → ¬ Text.isDigit 40 := by decide
  have sign : Covers (Text.ascii "!") (Expr.parenthesised a ++ []) (One .not (Text.ascii "!")) :=
    .lexeme (.operator_of_head (by decide) ends no_number)
  refine composes_of_covers ((sign.append (covers_parenthesised inner _)).mono
    fun tokens phrase => ?_)
  obtain ⟨_, _, rfl, ⟨location, rfl⟩, again, derives, same⟩ := phrase
  have prefixed : Derives .prefixed (⟨.not, Text.ascii "!", location⟩ :: _) _ :=
    .unary List.mem_cons_self (.unsigned derives)
  exact ⟨location, _, .unconditional prefixed.chain_of_prefixed,
    by simp only [Expr.relocate, same]⟩

private theorem composes_conditional (tested : Portable c test) (chosen : Portable a left)
    (otherwise : Portable b right) :
    Composes
      (Expr.parenthesised c ++ Text.ascii " ? " ++ Expr.parenthesised a ++ Text.ascii " : " ++
        Expr.parenthesised b)
      .questionMark (Text.ascii "?") (.conditional test left right) := by
  have listed : (Text.ascii "?", TokenKind.questionMark) ∈ Lexeme.operators := by decide
  have question (rest : Text) :
      Covers (Text.ascii " ? ") rest (One .questionMark (Text.ascii "?")) := .spaced listed
  have also_listed : (Text.ascii ":", TokenKind.colon) ∈ Lexeme.operators := by decide
  have colon (rest : Text) :
      Covers (Text.ascii " : ") rest (One .colon (Text.ascii ":")) := .spaced also_listed
  refine composes_of_covers ((((((covers_parenthesised tested _).append (question _)).append
    (covers_parenthesised chosen _)).append (colon _)).append
    (covers_parenthesised otherwise _)).mono fun tokens phrase => ?_)
  obtain ⟨_, _, rfl, ⟨_, _, rfl, ⟨_, _, rfl, ⟨_, _, rfl, ⟨again, derives, same⟩, location, rfl⟩,
    middle, middle_derives, middle_same⟩, _, rfl⟩, back, back_derives, back_same⟩ := phrase
  refine ⟨location, .conditional again middle back ⟨.questionMark, Text.ascii "?", location⟩,
    ?_, by simp only [Expr.relocate, same, middle_same, back_same]⟩
  simp only [List.append_assoc, List.singleton_append]
  exact .conditional (.chain_of_prefixed (.unsigned derives)) rfl
    middle_derives.conditional_of_accessed rfl back_derives.conditional_of_accessed

private theorem composes_index (object : Portable a left) (key : Portable b right) :
    Composes (Expr.parenthesised a ++ Text.ascii "[" ++ b ++ Text.ascii "]") .openBracket
      (Text.ascii "[") (.member left right true) := by
  have opening (rest : Text) :
      Covers (Text.ascii "[") rest (One .openBracket (Text.ascii "[")) := .mark (by decide)
  have closing : Covers (Text.ascii "]") [] (One .closeBracket (Text.ascii "]")) :=
    .mark (by decide)
  have seam : Seam (Text.ascii "]" ++ []) := Lexicon.seam_cons (by decide) []
  refine composes_of_covers (((((covers_parenthesised object _).append (opening _)).append
    (key _ seam)).append closing).mono fun tokens phrase => ?_)
  obtain ⟨_, _, rfl, ⟨_, _, rfl, ⟨_, _, rfl, ⟨again, derives, same⟩, location, rfl⟩,
    index, key_derives, key_same⟩, _, rfl⟩ := phrase
  rw [List.append_assoc, List.append_assoc]
  exact ⟨location, _, .conditional_of_accessed (.index derives rfl key_derives rfl),
    by simp only [Expr.relocate, same, key_same]⟩

private theorem composes_call (word : Word .identifier function) (first : Portable a left)
    (second : Portable b right) :
    Composes
      (Text.ascii "@" ++ function ++ Expr.parenthesised (a ++ Text.ascii ", " ++ b)) .atSign
      (Text.ascii "@") (.call function [left, right]) := by
  have sign (rest : Text) : Covers (Text.ascii "@") rest (One .atSign (Text.ascii "@")) :=
    .mark (by decide)
  have first_seam : Seam (Text.ascii ", " ++ (b ++ (Text.ascii ")" ++ []))) :=
    Lexicon.seam_cons (by decide) _
  have second_seam : Seam (Text.ascii ")" ++ []) := Lexicon.seam_cons (by decide) []
  have passed := (((first _ first_seam).append .comma).append (second _ second_seam)).enclosed
  have name := readable_word word (Expr.parenthesised (a ++ Text.ascii ", " ++ b) ++ [])
    (.of_byte (by decide) _)
  refine composes_of_covers ((((sign _).append name).append passed).mono fun tokens phrase => ?_)
  obtain ⟨_, _, rfl, ⟨_, _, rfl, ⟨location, rfl⟩, _, rfl⟩, _, _, rfl, ⟨_, rfl⟩, _, _, rfl,
    ⟨_, _, rfl, ⟨_, _, rfl, ⟨again, derives, same⟩, comma, rfl⟩, value, value_derives, value_same⟩,
    _, rfl⟩ := phrase
  have listed : Listed (_ ++ ⟨.comma, Text.ascii ",", comma⟩ :: _) [again, value] :=
    .more derives rfl (.last value_derives)
  rw [List.append_cons] at listed
  exact ⟨location, _, .conditional_of_accessed (.bare (.call rfl rfl rfl (.some listed) rfl)),
    by simp only [Expr.relocate, Expr.relocate.relocateAll, same, value_same]⟩

end Compositions

/--
Texts that are formulas, and do not begin with a byte order mark, are put together to formulas,
whose trees are a node over the trees of the parts.  This holds for every operator of every level
between two formulas in parentheses, for a negation, a conditional, an access with a computed key,
and a call of any name that is no constant with two arguments.
-/
theorem formulas_compose {file a b c : Text} {firstLine : Int} {first second test : Program}
    (read_first : Program.ofText file firstLine a = .ok first)
    (read_second : Program.ofText file firstLine b = .ok second)
    (read_test : Program.ofText file firstLine c = .ok test)
    (unmarked : ∀ text ∈ [a, b, c], ¬ Token.byteOrderMark.isPrefixOf text) :
    (∀ level kind operator, kind ∈ operators level → (operator, kind) ∈ Lexeme.operators →
      Composes
        (Expr.parenthesised a ++ (Text.ascii " " ++ operator ++ Text.ascii " ") ++
          Expr.parenthesised b)
        kind operator (.binary operator first.body second.body)) ∧
    Composes (Text.ascii "!" ++ Expr.parenthesised a) .not (Text.ascii "!")
      (.unary (Text.ascii "!") true first.body) ∧
    Composes
      (Expr.parenthesised c ++ Text.ascii " ? " ++ Expr.parenthesised a ++ Text.ascii " : " ++
        Expr.parenthesised b)
      .questionMark (Text.ascii "?") (.conditional test.body first.body second.body) ∧
    Composes (Expr.parenthesised a ++ Text.ascii "[" ++ b ++ Text.ascii "]") .openBracket
      (Text.ascii "[") (.member first.body second.body true) ∧
    ∀ function, Word .identifier function →
      Composes
        (Text.ascii "@" ++ function ++ Expr.parenthesised (a ++ Text.ascii ", " ++ b)) .atSign
        (Text.ascii "@") (.call function [first.body, second.body]) := by
  have a_portable := portable_of_ofText read_first (unmarked a (by simp))
  have b_portable := portable_of_ofText read_second (unmarked b (by simp))
  have c_portable := portable_of_ofText read_test (unmarked c (by simp))
  exact ⟨fun level kind operator joins listed =>
      composes_binary a_portable b_portable joins listed,
    composes_not a_portable, composes_conditional c_portable a_portable b_portable,
    composes_index a_portable b_portable,
    fun function word => composes_call word a_portable b_portable⟩

/-- A conditional is the test of another one, over a sign and a string. -/
theorem formulas_compose_of_conditional :
    ∃ first second test,
      Program.ofText [] 1 (Text.ascii "-x") = .ok first ∧
      Program.ofText [] 1 (Text.ascii "'s'") = .ok second ∧
      Program.ofText [] 1 (Text.ascii "a ? 1 : b") = .ok test ∧
      (∀ text ∈ [Text.ascii "-x", Text.ascii "'s'", Text.ascii "a ? 1 : b"],
        ¬ Token.byteOrderMark.isPrefixOf text) ∧
      Composes
        (Expr.parenthesised (Text.ascii "a ? 1 : b") ++ Text.ascii " ? " ++
          Expr.parenthesised (Text.ascii "-x") ++ Text.ascii " : " ++
          Expr.parenthesised (Text.ascii "'s'"))
        .questionMark (Text.ascii "?")
        (.conditional test.body first.body second.body) := by
  have unmarked : ∀ text ∈ [Text.ascii "-x", Text.ascii "'s'", Text.ascii "a ? 1 : b"],
      ¬ Token.byteOrderMark.isPrefixOf text := by decide
  have reads (text : Text) (checked : (Program.ofText [] 1 text).toOption.isSome) :
      ∃ program, Program.ofText [] 1 text = .ok program := by
    cases read : Program.ofText [] 1 text with
    | error error =>
        rw [read] at checked
        cases checked
    | ok program => exact ⟨program, rfl⟩
  obtain ⟨first, read_first⟩ := reads (Text.ascii "-x") (by decide +kernel)
  obtain ⟨second, read_second⟩ := reads (Text.ascii "'s'") (by decide +kernel)
  obtain ⟨test, read_test⟩ := reads (Text.ascii "a ? 1 : b") (by decide +kernel)
  obtain ⟨-, -, composes, -⟩ := formulas_compose read_first read_second read_test unmarked
  exact ⟨first, second, test, read_first, read_second, read_test, unmarked, composes⟩

end Grammar
end Formulary
