import Formulary.Expr.Render
import Formulary.Proofs.Renderable
import Formulary.Proofs.Separation
import Formulary.Proofs.Tiling

/-!
# Renderings are read back

The rendering of a tree is a chain of pieces, and in front of a boundary each piece is read as
tokens of its own.  The tokens of all the pieces are a phrase with the same tree, since every
operator stands between parentheses.
-/

namespace Formulary
namespace Grammar

open Formulary.Expr (Level)
open Lexicon (Tiles Longest Separates Word marks joinsOperator)

/-- In front of the rest, the text is read as tokens of their own with a property. -/
def Covers (text rest : Text) (phrase : List Token → Prop) : Prop :=
  ∀ file position, ∃ tokens last,
    Tiles file position (text ++ rest) tokens last rest ∧ phrase tokens

/-- In front of every boundary, the text is read as tokens of their own with a property. -/
def Readable (text : Text) (phrase : List Token → Prop) : Prop :=
  ∀ rest, Separates rest → Covers text rest phrase

/-- One token. -/
def One (kind : TokenKind) (value : Text) (tokens : List Token) : Prop :=
  ∃ location, tokens = [⟨kind, value, location⟩]

/-- Tokens with one property and behind them tokens with another. -/
def Followed (first second : List Token → Prop) (tokens : List Token) : Prop :=
  ∃ front back, tokens = front ++ back ∧ first front ∧ second back

section Pieces

variable {text front back rest spelling value : Text} {kind : TokenKind}
  {phrase first second : List Token → Prop}

theorem Covers.mono {weaker : List Token → Prop} (covers : Covers text rest phrase)
    (implies : ∀ tokens, phrase tokens → weaker tokens) : Covers text rest weaker := by
  intro file position
  obtain ⟨tokens, last, tiles, holds⟩ := covers file position
  exact ⟨tokens, last, tiles, implies tokens holds⟩

theorem Covers.append (before : Covers front (back ++ rest) first)
    (after : Covers back rest second) :
    Covers (front ++ back) rest (Followed first second) := by
  intro file position
  obtain ⟨tokens, middle, tiles, holds⟩ := before file position
  obtain ⟨more, last, others, also_holds⟩ := after file middle
  refine ⟨tokens ++ more, last, ?_, tokens, more, rfl, holds, also_holds⟩
  rw [List.append_assoc]
  exact tiles.append others

theorem Covers.lexeme (longest : Longest (spelling ++ rest) kind spelling value) :
    Covers spelling rest (One kind value) := by
  intro file position
  exact ⟨_, _, .lexeme longest .stop, _, rfl⟩

theorem Covers.mark (listed : (spelling, kind) ∈ marks) :
    Covers spelling rest (One kind spelling) :=
  .lexeme (.mark listed rest)

private theorem blank_append (rest : Text) : Text.ascii " " ++ rest = Text.blank :: rest := rfl

private theorem comma_append (rest : Text) :
    Text.ascii ", " ++ rest = Text.ascii "," ++ Text.blank :: rest := rfl

/-- An operator between blanks cannot be longer. -/
theorem Covers.spaced (listed : (spelling, kind) ∈ Lexeme.operators) :
    Covers (Text.ascii " " ++ spelling ++ Text.ascii " ") rest (One kind spelling) := by
  intro file position
  have ends : ¬ joinsOperator Text.blank := by decide
  have no_number : spelling = [Text.dot] → ¬ Text.isDigit Text.blank := fun _ => by decide
  have longest : Longest (spelling ++ Text.blank :: rest) kind spelling spelling :=
    .operator_of_head listed ends no_number
  rw [List.append_assoc, List.append_assoc, blank_append, blank_append]
  exact ⟨_, _, .space rfl (.lexeme longest (.space rfl .stop)), _, rfl⟩

theorem Covers.comma : Covers (Text.ascii ", ") rest (One .comma (Text.ascii ",")) := by
  intro file position
  have longest : Longest (Text.ascii "," ++ Text.blank :: rest) .comma (Text.ascii ",")
      (Text.ascii ",") := .mark (by decide) _
  rw [comma_append]
  exact ⟨_, _, .lexeme longest (.space rfl .stop), _, rfl⟩

theorem Covers.enclosed (inner : Covers text (Text.ascii ")" ++ rest) phrase) :
    Covers (Expr.parenthesised text) rest
      (Followed (One .openParenthesis (Text.ascii "("))
        (Followed phrase (One .closeParenthesis (Text.ascii ")")))) := by
  rw [Expr.parenthesised, List.append_assoc]
  exact (Covers.mark (by decide)).append (inner.append (.mark (by decide)))

private theorem Readable.mono {weaker : List Token → Prop} (readable : Readable text phrase)
    (implies : ∀ tokens, phrase tokens → weaker tokens) : Readable text weaker :=
  fun rest separates => (readable rest separates).mono implies

private theorem Readable.infixed (before : Readable front first)
    (listed : (spelling, kind) ∈ Lexeme.operators) (after : Readable back second) :
    Readable (front ++ (Text.ascii " " ++ spelling ++ Text.ascii " ") ++ back)
      (Followed first (Followed (One kind spelling) second)) := by
  intro rest separates
  rw [List.append_assoc front]
  refine (before _ ?_).append ((Covers.spaced listed).append (after rest separates))
  rw [List.append_assoc, List.append_assoc, List.append_assoc, blank_append]
  exact .of_byte (by decide) _

private theorem Readable.enclosed (inner : Readable text phrase) :
    Readable (Expr.parenthesised text)
      (Followed (One .openParenthesis (Text.ascii "("))
        (Followed phrase (One .closeParenthesis (Text.ascii ")")))) :=
  fun rest _ => (inner _ (.of_byte (by decide) rest)).enclosed

theorem readable_word (word : Word kind text) : Readable text (One kind text) := by
  intro rest separates
  obtain ⟨starts, parts⟩ := word
  exact .lexeme (.word starts parts separates)

end Pieces

section Looser

variable {tokens : List Token} {expr : Expr} {level : Level}

theorem Derives.chain_of_prefixed (phrase : Derives .prefixed tokens expr) :
    Derives (.chain level) tokens expr := by
  have multiplicative : Derives (.chain .multiplicative) tokens expr := .single phrase
  have additive : Derives (.chain .additive) tokens expr := .single multiplicative
  have comparison : Derives (.chain .comparison) tokens expr := .single additive
  have equality : Derives (.chain .equality) tokens expr := .single comparison
  have conjunction : Derives (.chain .and) tokens expr := .single equality
  cases level with
  | or => exact .single conjunction
  | and => exact conjunction
  | equality => exact equality
  | comparison => exact comparison
  | additive => exact additive
  | multiplicative => exact multiplicative

theorem Derives.operand_of_prefixed (phrase : Derives .prefixed tokens expr) :
    Derives (operand level) tokens expr := by
  cases level with
  | multiplicative => exact phrase
  | or | and | equality | comparison | additive => exact phrase.chain_of_prefixed

theorem Derives.conditional_of_chain (phrase : Derives (.chain level) tokens expr) :
    Derives .conditional tokens expr := by
  refine .unconditional ?_
  cases level with
  | or => exact phrase
  | and => exact .single phrase
  | equality => exact .single (.single phrase)
  | comparison => exact .single (.single (.single phrase))
  | additive => exact .single (.single (.single (.single phrase)))
  | multiplicative => exact .single (.single (.single (.single (.single phrase))))

theorem Derives.conditional_of_accessed (phrase : Derives .accessed tokens expr) :
    Derives .conditional tokens expr :=
  .unconditional (.chain_of_prefixed (.unsigned phrase))

end Looser

/-- The tokens are a phrase with the given tree, apart from the tokens in it. -/
def Rereads (category : Category) (expr : Expr) (tokens : List Token) : Prop :=
  ∃ again, Derives category tokens again ∧ again.erase = expr.erase

section Nodes

variable {text : Text} {kind : TokenKind} {level : Level}
  {expr object key left right argument : Expr}
  {token point : Token}

private theorem readable_parenthesised (inner : Readable text (Rereads .conditional expr)) :
    Readable (Expr.parenthesised text) (Rereads .accessed expr) := by
  refine inner.enclosed.mono fun tokens phrase => ?_
  obtain ⟨_, _, rfl, ⟨_, rfl⟩, _, _, rfl, ⟨again, derives, same⟩, _, rfl⟩ := phrase
  exact ⟨again, .bare (.parenthesised rfl derives rfl), same⟩

private theorem readable_denoting {written : Text} {value : Literal}
    (readable : Readable text (One kind written))
    (denotes : ∀ location, Denotes ⟨kind, written, location⟩ value) :
    Readable text (Rereads .accessed (.literal value token)) := by
  refine readable.mono fun tokens phrase => ?_
  obtain ⟨location, rfl⟩ := phrase
  exact ⟨_, .bare (.literal (denotes location)), rfl⟩

private theorem body_of_plain {bytes : Text} (no_quote : Text.doubleQuote ∉ bytes)
    (no_backslash : Text.backslash ∉ bytes) : Lexicon.Body Text.doubleQuote bytes bytes := by
  induction bytes with
  | nil => exact .empty
  | cons byte bytes induction =>
      rw [List.mem_cons, not_or] at no_quote no_backslash
      exact .plain (Ne.symm no_quote.1) (Ne.symm no_backslash.1)
        (induction no_quote.2 no_backslash.2)

theorem word_null : Word .null (Text.ascii "null") := by
  have parts : ∀ byte ∈ Text.ascii "ull", Lexeme.isWordPart byte := by decide +kernel
  exact .intro (show Lexeme.isWordStart 110 from rfl) parts

theorem word_boolean (truth : Bool) :
    Word .boolean (Text.ascii (if truth then "true" else "false")) := by
  have parts : ∀ byte ∈ Text.ascii "alse" ++ Text.ascii "rue", Lexeme.isWordPart byte := by
    decide +kernel
  cases truth
  · exact .intro (show Lexeme.isWordStart 102 from rfl)
      fun byte member => parts byte (List.mem_append_left _ member)
  · exact .intro (show Lexeme.isWordStart 116 from rfl)
      fun byte member => parts byte (List.mem_append_right _ member)

theorem readable_literal {value : Literal} (legible : value.Legible) :
    Readable value.render (Rereads .accessed (.literal value token)) := by
  cases value with
  | null => exact readable_denoting (readable_word word_null) fun _ => .null rfl
  | boolean truth =>
      refine readable_denoting (readable_word (word_boolean truth)) fun location => ?_
      cases truth
      · exact .boolean rfl
      · exact .boolean rfl
  | number x =>
      obtain ⟨magnitude, rfl⟩ := legible
      obtain ⟨numeral, written, -⟩ := Number.toText_written magnitude
      have reads_back := Number.ofLeading_toText magnitude
      rw [Literal.render]
      generalize Number.toText (.finite false magnitude) = digits at written reads_back
      have readable : Readable digits (One .number digits) :=
        fun rest separates => .lexeme (.number written.numeral separates)
      refine readable_denoting readable fun location => ?_
      rw [← reads_back]
      exact .number rfl
  | text bytes =>
      obtain ⟨no_quote, no_backslash⟩ := legible
      have readable : Readable (Text.quote bytes) (One .doubleQuoted bytes) :=
        fun rest _ => .lexeme (.doubleQuoted (body_of_plain no_quote no_backslash) rest)
      exact readable_denoting readable fun location => .text (.inl rfl)

theorem readable_identifier (word : Word .identifier text) :
    Readable text (Rereads .accessed (.identifier text token)) := by
  refine (readable_word word).mono fun tokens phrase => ?_
  obtain ⟨location, rfl⟩ := phrase
  exact ⟨_, .bare (.identifier rfl), rfl⟩

theorem readable_property {name : Text} (inner : Readable text (Rereads .accessed object))
    (word : Word kind name) :
    Readable (text ++ Text.ascii "." ++ name)
      (Rereads .accessed (.member object (.identifier name token) false point)) := by
  have named := word.named
  have readable_name := readable_word word
  obtain @⟨first, tail, starts, -⟩ := word
  intro rest separates
  -- The name begins with no digit, so that neither the object nor the point is part of a number.
  have ends : ¬ joinsOperator first :=
    Lexicon.not_joins_of_wordPart (Lexicon.wordPart_of_wordStart starts)
  have dot : Covers (Text.ascii ".") (first :: tail ++ rest) (One .dot (Text.ascii ".")) :=
    .lexeme (.operator_of_head (by decide) ends fun _ => Lexicon.not_digit_of_wordStart starts)
  have covers := ((inner _ (.of_point starts _)).append dot).append (readable_name rest separates)
  refine covers.mono fun tokens phrase => ?_
  obtain ⟨_, _, rfl, ⟨_, _, rfl, ⟨again, derives, same⟩, _, rfl⟩, location, rfl⟩ := phrase
  rw [List.append_assoc]
  exact ⟨_, .property derives rfl named, by simp only [Expr.erase, same]⟩

theorem readable_index {inside : Text} (inner : Readable text (Rereads .accessed object))
    (computed : Readable inside (Rereads .accessed key)) :
    Readable (text ++ Text.ascii "[" ++ inside ++ Text.ascii "]")
      (Rereads .accessed (.member object key true token)) := by
  intro rest separates
  have opening : Covers (Text.ascii "[") (inside ++ (Text.ascii "]" ++ rest))
      (One .openBracket (Text.ascii "[")) := .mark (by decide)
  have closing : Covers (Text.ascii "]") rest (One .closeBracket (Text.ascii "]")) :=
    .mark (by decide)
  have object_covers := inner (Text.ascii "[" ++ (inside ++ (Text.ascii "]" ++ rest)))
    (.of_byte (by decide) _)
  have key_covers := computed (Text.ascii "]" ++ rest) (.of_byte (by decide) _)
  refine (((object_covers.append opening).append key_covers).append closing).mono
    fun tokens phrase => ?_
  obtain ⟨_, _, rfl, ⟨_, _, rfl, ⟨_, _, rfl, ⟨again, derives, same⟩, _, rfl⟩,
    index, key_derives, key_same⟩, _, rfl⟩ := phrase
  rw [List.append_assoc, List.append_assoc]
  exact ⟨_, .index derives rfl key_derives.conditional_of_accessed rfl,
    by simp only [Expr.erase, same, key_same]⟩

theorem readable_binary {operator : Text} (before : Readable left.render (Rereads .accessed left))
    (joins : kind ∈ operators level) (listed : (operator, kind) ∈ Lexeme.operators)
    (after : Readable right.render (Rereads .accessed right)) :
    Readable (Expr.binary operator left right token).render
      (Rereads .accessed (.binary operator left right token)) := by
  have infixed := before.infixed listed after
  rw [← List.append_assoc, ← List.append_assoc] at infixed
  refine readable_parenthesised (infixed.mono fun tokens phrase => ?_)
  obtain ⟨_, _, rfl, ⟨again, derives, same⟩, _, _, rfl, ⟨location, rfl⟩,
    operand, operand_derives, operand_same⟩ := phrase
  have spelled : operatorText level ⟨kind, operator, location⟩ = operator :=
    operatorText_eq_value joins listed
  have chained : Derives (.chain level) (_ ++ ⟨kind, operator, location⟩ :: _) _ :=
    .binary (.chain_of_prefixed (.unsigned derives)) joins
      (.operand_of_prefixed (.unsigned operand_derives))
  exact ⟨_, chained.conditional_of_chain,
    by simp only [Expr.erase, spelled, same, operand_same]⟩

theorem readable_unary {operator tail : Text} {first : UInt8} (sign : kind ∈ signs)
    (listed : (operator, kind) ∈ Lexeme.operators)
    (inner : Readable argument.render (Rereads .accessed argument))
    (begins : argument.render = first :: tail) (ends : ¬ joinsOperator first) :
    Readable (Expr.unary operator true argument token).render
      (Rereads .accessed (.unary operator true argument token)) := by
  have not_point : ∀ entry ∈ Lexeme.operators, entry.2 ∈ signs → entry.1 ≠ [Text.dot] := by
    decide
  have signed : Readable (operator ++ argument.render)
      (Followed (One kind operator) (Rereads .accessed argument)) := by
    intro rest separates
    refine Covers.append ?_ (inner rest separates)
    rw [begins]
    exact .lexeme (.operator_of_head listed ends
      fun point => absurd point (not_point _ listed sign))
  refine readable_parenthesised (signed.mono fun tokens phrase => ?_)
  obtain ⟨_, _, rfl, ⟨location, rfl⟩, again, derives, same⟩ := phrase
  have prefixed : Derives .prefixed (⟨kind, operator, location⟩ :: _) _ :=
    .unary sign (.unsigned derives)
  exact ⟨_, .unconditional prefixed.chain_of_prefixed, by simp only [Expr.erase, same]⟩

theorem readable_conditional {test consequent alternate : Expr}
    (tested : Readable test.render (Rereads .accessed test))
    (chosen : Readable consequent.render (Rereads .accessed consequent))
    (otherwise : Readable alternate.render (Rereads .accessed alternate)) :
    Readable (Expr.conditional test consequent alternate token).render
      (Rereads .accessed (.conditional test consequent alternate token)) := by
  have question : (Text.ascii "?", TokenKind.questionMark) ∈ Lexeme.operators := by decide
  have colon : (Text.ascii ":", TokenKind.colon) ∈ Lexeme.operators := by decide
  have infixed := (tested.infixed question chosen).infixed colon otherwise
  refine readable_parenthesised (infixed.mono fun tokens phrase => ?_)
  obtain ⟨_, _, rfl, ⟨_, _, rfl, ⟨again, derives, same⟩, _, _, rfl, ⟨_, rfl⟩,
    middle, middle_derives, middle_same⟩, _, _, rfl, ⟨_, rfl⟩, back, back_derives, back_same⟩ :=
    phrase
  rw [List.append_assoc, List.append_assoc]
  exact ⟨_, .conditional (.chain_of_prefixed (.unsigned derives)) rfl
    middle_derives.conditional_of_accessed rfl back_derives.conditional_of_accessed,
    by simp only [Expr.erase, same, middle_same, back_same]⟩

/-- The tokens are arguments with the given trees, apart from the tokens in them. -/
def RereadsAll (language : List Token → List Expr → Prop) (arguments : List Expr)
    (tokens : List Token) : Prop :=
  ∃ values, language tokens values ∧
    Expr.erase.eraseAll values = Expr.erase.eraseAll arguments

private theorem readable_listed (first : Expr) (others : List Expr)
    (readable : ∀ value ∈ first :: others, Readable value.render (Rereads .accessed value)) :
    Readable (Text.join (Text.ascii ", ") (Expr.render.renderAll (first :: others)))
      (RereadsAll Listed (first :: others)) := by
  induction others generalizing first with
  | nil =>
      have only := readable first List.mem_cons_self
      simp only [Expr.render.renderAll, Text.join, List.intercalate_singleton]
      refine only.mono fun tokens phrase => ?_
      obtain ⟨again, derives, same⟩ := phrase
      exact ⟨_, .last derives.conditional_of_accessed, by simp only [Expr.erase.eraseAll, same]⟩
  | cons second others induction =>
      obtain ⟨first_readable, others_readable⟩ := List.forall_mem_cons.mp readable
      have later := induction second others_readable
      simp only [Expr.render.renderAll, Text.join, List.intercalate_cons_cons] at later ⊢
      generalize List.intercalate _ _ = others_text at later ⊢
      intro rest separates
      have first_covers := first_readable (Text.ascii ", " ++ (others_text ++ rest))
        (.of_byte (by decide) _)
      have covers := (first_covers.append .comma).append (later rest separates)
      refine covers.mono fun tokens phrase => ?_
      obtain ⟨_, _, rfl, ⟨_, _, rfl, ⟨again, derives, same⟩, _, rfl⟩, values, listed, all_same⟩ :=
        phrase
      rw [List.append_assoc]
      exact ⟨_, .more derives.conditional_of_accessed rfl listed,
        by rw [Expr.erase.eraseAll, same, all_same, ← Expr.erase.eraseAll]⟩

private theorem readable_arguments {arguments : List Expr}
    (readable : ∀ value ∈ arguments, Readable value.render (Rereads .accessed value)) :
    Readable (Text.join (Text.ascii ", ") (Expr.render.renderAll arguments))
      (RereadsAll Arguments arguments) := by
  cases arguments with
  | nil => exact fun rest _ file position => ⟨[], position, .stop, [], .none, rfl⟩
  | cons first others =>
      refine (readable_listed first others readable).mono fun tokens phrase => ?_
      obtain ⟨values, listed, same⟩ := phrase
      exact ⟨values, .some listed, same⟩

theorem readable_call {function : Text} {arguments : List Expr} (word : Word .identifier function)
    (readable : ∀ value ∈ arguments, Readable value.render (Rereads .accessed value)) :
    Readable (Expr.call function arguments token).render
      (Rereads .accessed (.call function arguments token)) := by
  intro rest separates
  have passed := (readable_arguments readable).enclosed rest separates
  rw [Expr.render]
  generalize Text.join _ _ = inside at passed ⊢
  have name := readable_word word (Expr.parenthesised inside ++ rest) (.of_byte (by decide) _)
  have sign : Covers (Text.ascii "@") (function ++ (Expr.parenthesised inside ++ rest))
      (One .atSign (Text.ascii "@")) := .mark (by decide)
  refine ((sign.append name).append passed).mono fun tokens phrase => ?_
  obtain ⟨_, _, rfl, ⟨_, _, rfl, ⟨_, rfl⟩, _, rfl⟩, _, _, rfl, ⟨_, rfl⟩, _, _, rfl,
    ⟨values, derives, same⟩, _, rfl⟩ := phrase
  exact ⟨_, .bare (.call rfl rfl rfl derives rfl), by rw [Expr.erase, same, ← Expr.erase]⟩

end Nodes

end Grammar
end Formulary
