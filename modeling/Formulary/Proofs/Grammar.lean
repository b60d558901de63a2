import Formulary.Expr.Parser

/-!
# The grammar of formulas

The grammar is a family of phrases, one for each category, and every phrase has the tree that its
derivation prescribes.  Chains of binary operators are left-recursive, so that operators of one
level group to the left; conditionals and prefixed operators recurse to the right.
-/

namespace Formulary
namespace Grammar

open Formulary.Expr (Level)

/-- The binary operators of a level. -/
def operators : Level → List TokenKind
  | .or => [.or]
  | .and => [.and]
  | .equality => [.strictEqual, .strictNotEqual]
  | .comparison => [.greater, .greaterOrEqual, .less, .lessOrEqual]
  | .additive => [.plus, .minus]
  | .multiplicative => [.star, .slash, .percent]

/-- The operators that stand in front of their operand. -/
def signs : List TokenKind := [.not, .minus]

/-- What may name a property: constants are names behind a point. -/
def propertyNames : List TokenKind := [.identifier, .boolean, .null]

/-- The operator that a node of a level carries; the logical ones are written out. -/
def operatorText (level : Level) (operator : Token) : Text :=
  match level with
  | .or => Text.ascii "||"
  | .and => Text.ascii "&&"
  | _ => operator.value

/-- The literal that a token denotes. -/
inductive Denotes (token : Token) : Literal → Prop where
  | number (kind : token.kind = .number) :
      Denotes token (.number (Number.ofLeading token.value))
  | text (kind : token.kind = .doubleQuoted ∨ token.kind = .singleQuoted) :
      Denotes token (.text token.value)
  | boolean (kind : token.kind = .boolean) :
      Denotes token (.boolean (token.value == Text.ascii "true"))
  | null (kind : token.kind = .null) : Denotes token .null

/-- The categories of phrases, from the loosest to the tightest. -/
inductive Category where
  | conditional
  | chain (level : Level)
  | prefixed
  | accessed
  | primary

/-- The category of the operands of a level. -/
def operand : Level → Category
  | .or => .chain .and
  | .and => .chain .equality
  | .equality => .chain .comparison
  | .comparison => .chain .additive
  | .additive => .chain .multiplicative
  | .multiplicative => .prefixed

mutual

/-- The tokens are a phrase of a category, and the expression is its tree. -/
inductive Derives : Category → List Token → Expr → Prop where
  | unconditional {tokens expr} (chain : Derives (.chain .or) tokens expr) :
      Derives .conditional tokens expr
  | conditional {front middle back test consequent alternate} {mark colon : Token}
      (tested : Derives (.chain .or) front test) (mark_kind : mark.kind = .questionMark)
      (chosen : Derives .conditional middle consequent) (colon_kind : colon.kind = .colon)
      (otherwise : Derives .conditional back alternate) :
      Derives .conditional (front ++ mark :: (middle ++ colon :: back))
        (.conditional test consequent alternate mark)
  | single {level tokens expr} (only : Derives (operand level) tokens expr) :
      Derives (.chain level) tokens expr
  | binary {level front back left right} {operator : Token}
      (before : Derives (.chain level) front left) (joins : operator.kind ∈ operators level)
      (after : Derives (operand level) back right) :
      Derives (.chain level) (front ++ operator :: back)
        (.binary (operatorText level operator) left right operator)
  | unsigned {tokens expr} (inner : Derives .accessed tokens expr) :
      Derives .prefixed tokens expr
  | unary {tokens argument} {sign : Token} (sign_kind : sign.kind ∈ signs)
      (inner : Derives .prefixed tokens argument) :
      Derives .prefixed (sign :: tokens) (.unary sign.value true argument sign)
  | bare {tokens expr} (inner : Derives .primary tokens expr) : Derives .accessed tokens expr
  | property {tokens object} {point name : Token} (inner : Derives .accessed tokens object)
      (point_kind : point.kind = .dot) (name_kind : name.kind ∈ propertyNames) :
      Derives .accessed (tokens ++ [point, name])
        (.member object (.identifier name.value { name with kind := .identifier }) false point)
  | index {front middle object key} {opening closing : Token}
      (inner : Derives .accessed front object) (opening_kind : opening.kind = .openBracket)
      (computed : Derives .conditional middle key) (closing_kind : closing.kind = .closeBracket) :
      Derives .accessed (front ++ opening :: (middle ++ [closing]))
        (.member object key true opening)
  | literal {token value} (denotes : Denotes token value) :
      Derives .primary [token] (.literal value token)
  | identifier {token : Token} (kind : token.kind = .identifier) :
      Derives .primary [token] (.identifier token.value token)
  | call {tokens values} {sign name opening closing : Token} (sign_kind : sign.kind = .atSign)
      (name_kind : name.kind = .identifier) (opening_kind : opening.kind = .openParenthesis)
      (passed : Arguments tokens values) (closing_kind : closing.kind = .closeParenthesis) :
      Derives .primary (sign :: name :: opening :: (tokens ++ [closing]))
        (.call name.value values sign)
  | parenthesised {tokens expr} {opening closing : Token}
      (opening_kind : opening.kind = .openParenthesis) (inner : Derives .conditional tokens expr)
      (closing_kind : closing.kind = .closeParenthesis) :
      Derives .primary (opening :: (tokens ++ [closing])) expr

/-- The tokens are the arguments of a call, of which there may be none. -/
inductive Arguments : List Token → List Expr → Prop where
  | none : Arguments [] []
  | some {tokens values} (listed : Listed tokens values) : Arguments tokens values

/-- The tokens are expressions with commas between them, at least one. -/
inductive Listed : List Token → List Expr → Prop where
  | last {tokens expr} (only : Derives .conditional tokens expr) : Listed tokens [expr]
  | more {front back first rest} {comma : Token} (head : Derives .conditional front first)
      (comma_kind : comma.kind = .comma) (others : Listed back rest) :
      Listed (front ++ comma :: back) (first :: rest)

end

/-- The tokens are a formula, and the expression is its tree. -/
abbrev Sentence (tokens : List Token) (expr : Expr) : Prop :=
  Derives .conditional tokens expr

end Grammar
end Formulary
