import Formulary.Expr.Basic
import Formulary.Number.Layout
import Formulary.Text.Quoted

/-!
# Rendering

An expression as a formula, with parentheses around every operator.
-/

namespace Formulary

namespace Literal

/-- A literal as it stands in a formula. -/
def render : Literal → Text
  | .null => Text.ascii "null"
  | .number x => x.toText
  | .text bytes => Text.quote bytes
  | .boolean truth => Text.ascii (if truth then "true" else "false")

end Literal

namespace Expr

/-- A text between parentheses. -/
def parenthesised (text : Text) : Text :=
  Text.ascii "(" ++ text ++ Text.ascii ")"

/-- An expression as a formula. -/
def render : Expr → Text
  | missing => Text.ascii "<null>"
  | literal value _ => value.render
  | identifier name _ => name
  | member object property computed _ =>
      if computed then object.render ++ Text.ascii "[" ++ property.render ++ Text.ascii "]"
      else object.render ++ Text.ascii "." ++ property.render
  | call function arguments _ =>
      Text.ascii "@" ++ function ++
        parenthesised (Text.join (Text.ascii ", ") (renderAll arguments))
  | binary operator left right _ =>
      parenthesised
        (left.render ++ Text.ascii " " ++ operator ++ Text.ascii " " ++ right.render)
  | unary operator before argument _ =>
      parenthesised (if before then operator ++ argument.render else argument.render ++ operator)
  | conditional test consequent alternate _ =>
      parenthesised
        (test.render ++ Text.ascii " ? " ++ consequent.render ++ Text.ascii " : " ++
          alternate.render)
  | unsupported type _ => Text.ascii "<" ++ type ++ Text.ascii ">"
where
  /-- Expressions as formulas, in order. -/
  renderAll : List Expr → List Text
    | [] => []
    | argument :: rest => argument.render :: renderAll rest

end Expr
end Formulary
