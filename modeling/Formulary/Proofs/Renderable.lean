import Formulary.Proofs.Grammar
import Formulary.Proofs.NumberText

/-!
# Trees that formulas have

The names, operators and literals in the tree of a formula are lexemes, and a tree of lexemes can be
written as a formula again.  Two trees are the same formula if they differ in their tokens only.
-/

namespace Formulary

namespace Expr

/-- The tree without the tokens of its nodes. -/
def erase : Expr → Expr
  | missing => missing
  | literal value _ => literal value Token.none
  | identifier name _ => identifier name Token.none
  | member object property computed _ =>
      member object.erase property.erase computed Token.none
  | call function arguments _ => call function (eraseAll arguments) Token.none
  | binary operator left right _ => binary operator left.erase right.erase Token.none
  | unary operator before argument _ => unary operator before argument.erase Token.none
  | conditional test consequent alternate _ =>
      conditional test.erase consequent.erase alternate.erase Token.none
  | unsupported type _ => unsupported type Token.none
where
  /-- Trees without their tokens, in order. -/
  eraseAll : List Expr → List Expr
    | [] => []
    | argument :: rest => argument.erase :: eraseAll rest

/-- The literals of a tree from left to right. -/
def literals : Expr → List Literal
  | missing => []
  | literal value _ => [value]
  | identifier _ _ => []
  | member object property _ _ => object.literals ++ property.literals
  | call _ arguments _ => literalsOfAll arguments
  | binary _ left right _ => left.literals ++ right.literals
  | unary _ _ argument _ => argument.literals
  | conditional test consequent alternate _ =>
      test.literals ++ consequent.literals ++ alternate.literals
  | unsupported _ _ => []
where
  /-- The literals of trees in order. -/
  literalsOfAll : List Expr → List Literal
    | [] => []
    | argument :: rest => argument.literals ++ literalsOfAll rest

end Expr

namespace Literal

/-- A number is finite, and a text has neither a double quotation mark nor a backslash in it. -/
def Plain : Literal → Prop
  | .null => True
  | .number x => x.isFinite
  | .text bytes => Text.doubleQuote ∉ bytes ∧ Text.backslash ∉ bytes
  | .boolean _ => True

instance : DecidablePred Plain
  | .null => inferInstanceAs (Decidable True)
  | .number x => inferInstanceAs (Decidable (x.isFinite = true))
  | .text bytes =>
      inferInstanceAs (Decidable (Text.doubleQuote ∉ bytes ∧ Text.backslash ∉ bytes))
  | .boolean _ => inferInstanceAs (Decidable True)

/-- The literal is written as a lexeme that denotes it. -/
def Legible : Literal → Prop
  | .null => True
  | .number x => ∃ magnitude, x = .finite false magnitude
  | .text bytes => Text.doubleQuote ∉ bytes ∧ Text.backslash ∉ bytes
  | .boolean _ => True

end Literal

namespace Lexicon

open Grammar (propertyNames)

/-- The text is one word. -/
inductive Word : TokenKind → Text → Prop where
  | intro {first rest} (starts : Lexeme.isWordStart first)
      (parts : ∀ byte ∈ rest, Lexeme.isWordPart byte) :
      Word (Lexeme.wordKind (first :: rest)) (first :: rest)

theorem wordKind_mem (text : Text) : Lexeme.wordKind text ∈ propertyNames := by
  rw [Lexeme.wordKind]
  split
  · decide
  · split
    · decide
    · decide

theorem Word.named {kind : TokenKind} {text : Text} (word : Word kind text) :
    kind ∈ propertyNames := by
  obtain ⟨starts, parts⟩ := word
  exact wordKind_mem _

/-- The kinds of lexeme that are no operators. -/
def operandKinds : List TokenKind :=
  [.number, .doubleQuoted, .singleQuoted] ++ propertyNames

private theorem operators_apart_operands : ∀ entry ∈ Lexeme.operators, entry.2 ∉ operandKinds := by
  decide

section Spells

variable {kind : TokenKind} {spelling value : Text} (spells : Spells kind spelling value)

include spells

private theorem Spells.word_of_name (named : kind ∈ propertyNames) : Word kind value := by
  cases spells with
  | number | doubleQuoted | singleQuoted => simp [propertyNames] at named
  | word starts parts => exact .intro starts parts
  | operator listed =>
      have apart := operators_apart_operands _ listed
      exact absurd (List.mem_append_right _ named) apart

theorem Spells.listed (no_operand : kind ∉ operandKinds) : (value, kind) ∈ Lexeme.operators := by
  cases spells with
  | number | doubleQuoted | singleQuoted => exact absurd (by decide) no_operand
  | word starts parts => exact absurd (List.mem_append_right _ (wordKind_mem _)) no_operand
  | operator listed => exact listed

private theorem Spells.numeral (is_number : kind = .number) : Numeral value := by
  cases spells with
  | number numeral => exact numeral
  | doubleQuoted | singleQuoted => cases is_number
  | @word first rest starts parts =>
      have named := wordKind_mem (first :: rest)
      rw [is_number] at named
      simp [propertyNames] at named
  | operator listed =>
      have apart := operators_apart_operands _ listed
      have is_operand : TokenKind.number ∈ operandKinds := by decide
      rw [is_number] at apart
      exact absurd is_operand apart

end Spells
end Lexicon

namespace Grammar

open Formulary.Expr (Level)
open Lexicon (Spells Word operandKinds)

/-- The tree is made of lexemes, so that it can be written as a formula. -/
inductive Renderable : Expr → Prop where
  | literal {value token} (legible : value.Legible) : Renderable (.literal value token)
  | identifier {name token} (word : Word .identifier name) : Renderable (.identifier name token)
  | property {kind object name token point} (inner : Renderable object) (word : Word kind name) :
      Renderable (.member object (.identifier name token) false point)
  | index {object key token} (inner : Renderable object) (computed : Renderable key) :
      Renderable (.member object key true token)
  | call {function arguments token} (word : Word .identifier function)
      (passed : ∀ argument ∈ arguments, Renderable argument) :
      Renderable (.call function arguments token)
  | binary {level kind operator left right token} (before : Renderable left)
      (joins : kind ∈ operators level) (listed : (operator, kind) ∈ Lexeme.operators)
      (after : Renderable right) : Renderable (.binary operator left right token)
  | unary {kind operator argument token} (sign : kind ∈ signs)
      (listed : (operator, kind) ∈ Lexeme.operators) (inner : Renderable argument) :
      Renderable (.unary operator true argument token)
  | conditional {test consequent alternate token} (tested : Renderable test)
      (chosen : Renderable consequent) (otherwise : Renderable alternate) :
      Renderable (.conditional test consequent alternate token)

theorem operators_not_operands (level : Level) :
    ∀ kind ∈ operators level, kind ∉ operandKinds := by
  cases level <;> decide

theorem signs_not_operands : ∀ kind ∈ signs, kind ∉ operandKinds := by decide

private theorem logical_spelling : ∀ entry ∈ Lexeme.operators,
    (entry.2 = .or → entry.1 = Text.ascii "||") ∧
      (entry.2 = .and → entry.1 = Text.ascii "&&") := by
  decide

/-- The operators that nodes write out are spelled like that, too. -/
theorem operatorText_eq_value {level : Level} {operator : Token}
    (joins : operator.kind ∈ operators level)
    (listed : (operator.value, operator.kind) ∈ Lexeme.operators) :
    operatorText level operator = operator.value := by
  obtain ⟨or_spelling, and_spelling⟩ := logical_spelling _ listed
  cases level with
  | or => exact (or_spelling (List.mem_singleton.mp joins)).symm
  | and => exact (and_spelling (List.mem_singleton.mp joins)).symm
  | equality | comparison | additive | multiplicative => rfl

private theorem Denotes.legible {token : Token} {value : Literal} (denotes : Denotes token value)
    {spelling : Text} (spells : Spells token.kind spelling token.value) (plain : value.Plain) :
    value.Legible := by
  cases denotes with
  | number kind =>
      have numeral := spells.numeral kind
      cases read : Number.ofLeading token.value with
      | nan => simp [Literal.Plain, read, Number.isFinite] at plain
      | infinite => simp [Literal.Plain, read, Number.isFinite] at plain
      | finite negative magnitude =>
          obtain rfl := Number.ofLeading_sign numeral read
          exact ⟨magnitude, rfl⟩
  | text => exact plain
  | boolean | null => trivial

/-- Every token is a lexeme. -/
def Lexical (tokens : List Token) : Prop :=
  ∀ token ∈ tokens, ∃ spelling, Spells token.kind spelling token.value

theorem lexical_append {front back : List Token} :
    Lexical (front ++ back) ↔ Lexical front ∧ Lexical back :=
  List.forall_mem_append

theorem lexical_cons {token : Token} {rest : List Token} :
    Lexical (token :: rest) ↔
      (∃ spelling, Spells token.kind spelling token.value) ∧ Lexical rest :=
  List.forall_mem_cons

mutual

/-- The tree of a formula with plain literals is made of lexemes. -/
theorem Derives.renderable {category : Category} {tokens : List Token} {expr : Expr} :
    Derives category tokens expr → Lexical tokens →
      (∀ literal ∈ expr.literals, literal.Plain) → Renderable expr
  | .unconditional chain, lexical, plain => chain.renderable lexical plain
  | .conditional tested _ chosen _ otherwise, lexical, plain => by
      obtain ⟨front, middle_back⟩ := lexical_append.mp lexical
      obtain ⟨middle, colon_back⟩ := lexical_append.mp (lexical_cons.mp middle_back).2
      obtain ⟨both, alternate⟩ := List.forall_mem_append.mp plain
      obtain ⟨test, consequent⟩ := List.forall_mem_append.mp both
      exact .conditional (tested.renderable front test) (chosen.renderable middle consequent)
        (otherwise.renderable (lexical_cons.mp colon_back).2 alternate)
  | .single only, lexical, plain => only.renderable lexical plain
  | .binary before joins after, lexical, plain => by
      obtain ⟨front, operator_back⟩ := lexical_append.mp lexical
      obtain ⟨⟨spelling, spells⟩, back⟩ := lexical_cons.mp operator_back
      obtain ⟨left, right⟩ := List.forall_mem_append.mp plain
      have listed := spells.listed (operators_not_operands _ _ joins)
      rw [operatorText_eq_value joins listed]
      exact .binary (before.renderable front left) joins listed (after.renderable back right)
  | .unsigned inner, lexical, plain => inner.renderable lexical plain
  | .unary sign_kind inner, lexical, plain => by
      obtain ⟨⟨spelling, spells⟩, rest⟩ := lexical_cons.mp lexical
      exact .unary sign_kind (spells.listed (signs_not_operands _ sign_kind))
        (inner.renderable rest plain)
  | .bare inner, lexical, plain => inner.renderable lexical plain
  | .property inner _ name_kind, lexical, plain => by
      obtain ⟨front, point_name⟩ := lexical_append.mp lexical
      obtain ⟨⟨spelling, spells⟩, -⟩ := lexical_cons.mp (lexical_cons.mp point_name).2
      obtain ⟨object, -⟩ := List.forall_mem_append.mp plain
      exact .property (inner.renderable front object) (spells.word_of_name name_kind)
  | .index inner _ computed _, lexical, plain => by
      obtain ⟨front, bracket_middle⟩ := lexical_append.mp lexical
      obtain ⟨middle, -⟩ := lexical_append.mp (lexical_cons.mp bracket_middle).2
      obtain ⟨object, key⟩ := List.forall_mem_append.mp plain
      exact .index (inner.renderable front object) (computed.renderable middle key)
  | .literal denotes, lexical, plain => by
      obtain ⟨⟨spelling, spells⟩, -⟩ := lexical_cons.mp lexical
      exact .literal (denotes.legible spells (plain _ List.mem_cons_self))
  | .identifier kind, lexical, _ => by
      obtain ⟨⟨spelling, spells⟩, -⟩ := lexical_cons.mp lexical
      rw [kind] at spells
      exact .identifier (spells.word_of_name (by decide))
  | .call _ name_kind _ passed _, lexical, plain => by
      obtain ⟨⟨spelling, spells⟩, inside⟩ := lexical_cons.mp (lexical_cons.mp lexical).2
      obtain ⟨tokens, -⟩ := lexical_append.mp (lexical_cons.mp inside).2
      rw [name_kind] at spells
      exact .call (spells.word_of_name (by decide)) (passed.renderable tokens plain)
  | .parenthesised _ inner _, lexical, plain => by
      obtain ⟨tokens, -⟩ := lexical_append.mp (lexical_cons.mp lexical).2
      exact inner.renderable tokens plain

theorem Arguments.renderable {tokens : List Token} {values : List Expr} :
    Arguments tokens values → Lexical tokens →
      (∀ literal ∈ Expr.literals.literalsOfAll values, literal.Plain) →
      ∀ value ∈ values, Renderable value
  | .none, _, _ => by simp
  | .some listed, lexical, plain => listed.renderable lexical plain

theorem Listed.renderable {tokens : List Token} {values : List Expr} :
    Listed tokens values → Lexical tokens →
      (∀ literal ∈ Expr.literals.literalsOfAll values, literal.Plain) →
      ∀ value ∈ values, Renderable value
  | .last only, lexical, plain => by
      obtain ⟨first, -⟩ := List.forall_mem_append.mp plain
      simpa using only.renderable lexical first
  | .more head _ others, lexical, plain => by
      obtain ⟨front, comma_back⟩ := lexical_append.mp lexical
      obtain ⟨first, rest⟩ := List.forall_mem_append.mp plain
      exact List.forall_mem_cons.mpr ⟨head.renderable front first,
        others.renderable (lexical_cons.mp comma_back).2 rest⟩

end

end Grammar
end Formulary
