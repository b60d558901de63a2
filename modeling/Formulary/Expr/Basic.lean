import Formulary.Token.Basic
import Formulary.Number.Basic

/-!
# Expressions

The tree of a formula.  Every node carries the token it is named after.  Trees that come from
elsewhere may miss children or hold nodes that no formula has; those are nodes of their own here,
so that the rest of such a tree keeps its meaning.
-/

namespace Formulary

/-- What a literal denotes. -/
inductive Literal where
  | null
  | number (number : Number)
  | text (text : Text)
  | boolean (truth : Bool)
  deriving DecidableEq

/-- An expression. -/
inductive Expr where
  /-- A child that is not there. -/
  | missing
  | literal (value : Literal) (token : Token)
  | identifier (name : Text) (token : Token)
  /-- A property, which is a name unless it is computed. -/
  | member (object property : Expr) (computed : Bool) (token : Token)
  /-- A call of the function of a name. -/
  | call (function : Text) (arguments : List Expr) (token : Token)
  | binary (operator : Text) (left right : Expr) (token : Token)
  | unary (operator : Text) (before : Bool) (argument : Expr) (token : Token)
  | conditional (test consequent alternate : Expr) (token : Token)
  /-- A node that no formula has, with the name of its type. -/
  | unsupported (type : Text) (token : Token)

/-- A formula: one expression and the token it begins with. -/
structure Program where
  body : Expr
  token : Token

namespace Expr

instance : Inhabited Expr := ⟨.missing⟩

/-- The name of a node's type, unless the node is missing. -/
def typeName? : Expr → Option Text
  | missing => Option.none
  | literal _ _ => some (Text.ascii "Literal")
  | identifier _ _ => some (Text.ascii "Identifier")
  | member _ _ _ _ => some (Text.ascii "MemberExpression")
  | call _ _ _ => some (Text.ascii "CallExpression")
  | binary _ _ _ _ => some (Text.ascii "BinaryExpression")
  | unary _ _ _ _ => some (Text.ascii "UnaryExpression")
  | conditional _ _ _ _ => some (Text.ascii "ConditionalExpression")
  | unsupported type _ => some type

/-- The token of a node; a missing one has none of its own. -/
def token : Expr → Token
  | missing => Token.none
  | literal _ token => token
  | identifier _ token => token
  | member _ _ _ token => token
  | call _ _ token => token
  | binary _ _ _ token => token
  | unary _ _ _ token => token
  | conditional _ _ _ token => token
  | unsupported _ token => token

end Expr
end Formulary
