import Formulary.Expr.Basic
import Formulary.Number.Layout
import Formulary.Proofs.Json

/-!
# Outlines of trees

An outline is what a dump shows of a tree: all of it, except that numbers are texts and that of the
tokens only the places are left.  It is told as a JSON value, from which it is read back.
-/

namespace Formulary

/-- What a dump shows of a literal. -/
inductive LiteralOutline where
  | null
  | number (numeral : Text)
  | text (text : Text)
  | boolean (truth : Bool)
  deriving DecidableEq

/-- What a dump shows of a tree; the last text of a node is its place. -/
inductive Outline where
  | missing
  | literal (value : LiteralOutline) (place : Text)
  | identifier (name : Text) (place : Text)
  | member (object property : Outline) (computed : Bool) (place : Text)
  | call (function : Text) (arguments : List Outline) (place : Text)
  | binary (operator : Text) (left right : Outline) (place : Text)
  | unary (operator : Text) (before : Bool) (argument : Outline) (place : Text)
  | conditional (test consequent alternate : Outline) (place : Text)
  | unsupported (type : Text) (place : Text)

/-- What a dump shows of a literal. -/
def Literal.outline : Literal → LiteralOutline
  | null => .null
  | number x => .number x.toText
  | text bytes => .text bytes
  | boolean truth => .boolean truth

namespace Expr

/-- What a dump shows of a tree. -/
def outline : Expr → Outline
  | missing => .missing
  | literal value token => .literal value.outline token.location.toText
  | identifier name token => .identifier name token.location.toText
  | member object property computed token =>
      .member object.outline property.outline computed token.location.toText
  | call function arguments token => .call function (outlines arguments) token.location.toText
  | binary operator left right token =>
      .binary operator left.outline right.outline token.location.toText
  | unary operator before argument token =>
      .unary operator before argument.outline token.location.toText
  | conditional test consequent alternate token =>
      .conditional test.outline consequent.outline alternate.outline token.location.toText
  | unsupported type token => .unsupported type token.location.toText
where
  /-- What dumps show of trees, in order. -/
  outlines : List Expr → List Outline
    | [] => []
    | argument :: rest => argument.outline :: outlines rest

/-- All nodes of a tree, missing ones and the names of properties among them. -/
def nodes : Expr → List Expr
  | missing => [missing]
  | literal value token => [literal value token]
  | identifier name token => [identifier name token]
  | member object property computed token =>
      member object property computed token :: (object.nodes ++ property.nodes)
  | call function arguments token => call function arguments token :: nodesOfAll arguments
  | binary operator left right token =>
      binary operator left right token :: (left.nodes ++ right.nodes)
  | unary operator before argument token => unary operator before argument token :: argument.nodes
  | conditional test consequent alternate token =>
      conditional test consequent alternate token ::
        (test.nodes ++ consequent.nodes ++ alternate.nodes)
  | unsupported type token => [unsupported type token]
where
  /-- The nodes of trees, in order. -/
  nodesOfAll : List Expr → List Expr
    | [] => []
    | argument :: rest => argument.nodes ++ nodesOfAll rest

end Expr

/-- The JSON value of a literal; a number that is not finite has none of its own. -/
def Literal.toJson : Literal → Json
  | null => .null
  | number x => if x.isFinite then .number x.toText else .null
  | text bytes => .string bytes
  | boolean truth => .boolean truth

namespace Expr

/-- The object of a node, with its type in front of the members and its place behind them. -/
def nodeJson (type : Text) (members : List (Text × Json)) (token : Token) : Json :=
  .object ((Text.ascii "type", .string type) :: members ++
    [(Text.ascii "loc", .string token.location.toText)])

/-- The JSON value of a tree. -/
def toJson : Expr → Json
  | missing => .null
  | literal value token =>
      nodeJson (Text.ascii "Literal") [(Text.ascii "value", value.toJson)] token
  | identifier name token =>
      nodeJson (Text.ascii "Identifier") [(Text.ascii "name", .string name)] token
  | member object property computed token =>
      nodeJson (Text.ascii "MemberExpression")
        [(Text.ascii "object", object.toJson), (Text.ascii "property", property.toJson),
          (Text.ascii "computed", .boolean computed)]
        token
  | call function arguments token =>
      nodeJson (Text.ascii "CallExpression")
        [(Text.ascii "callee",
            .object [(Text.ascii "type", .string (Text.ascii "Identifier")),
              (Text.ascii "name", .string function)]),
          (Text.ascii "arguments", .array (toJsonAll arguments))]
        token
  | binary operator left right token =>
      nodeJson (Text.ascii "BinaryExpression")
        [(Text.ascii "operator", .string operator), (Text.ascii "left", left.toJson),
          (Text.ascii "right", right.toJson)]
        token
  | unary operator before argument token =>
      nodeJson (Text.ascii "UnaryExpression")
        [(Text.ascii "operator", .string operator), (Text.ascii "prefix", .boolean before),
          (Text.ascii "argument", argument.toJson)]
        token
  | conditional test consequent alternate token =>
      nodeJson (Text.ascii "ConditionalExpression")
        [(Text.ascii "test", test.toJson), (Text.ascii "consequent", consequent.toJson),
          (Text.ascii "alternate", alternate.toJson)]
        token
  | unsupported type token => nodeJson type [] token
where
  /-- The JSON values of trees, in order. -/
  toJsonAll : List Expr → List Json
    | [] => []
    | argument :: rest => argument.toJson :: toJsonAll rest

end Expr

/-- The JSON value of a formula. -/
def Program.toJson (program : Program) : Json :=
  .object [(Text.ascii "type", .string (Text.ascii "Program")),
    (Text.ascii "body", program.body.toJson)]

/-- The literal that a JSON value shows. -/
def LiteralOutline.ofJson? : Json → Option LiteralOutline
  | .null => some null
  | .number numeral => some (number numeral)
  | .string bytes => some (text bytes)
  | .boolean truth => some (boolean truth)
  | _ => none

namespace Outline

/--
The node of an object.  Beside its members there are the trees that these are, and the lists of
trees.
-/
def ofMembers? (members : List (Text × Json)) (trees : Fields (Option Outline))
    (lists : Fields (Option (List Outline))) : Option Outline := do
  let json := Json.object members
  let tree (name : String) := (trees.find? (Text.ascii name)).join
  let type ← (← json.member? "type").text?
  let place ← (← json.member? "loc").text?
  if type = Text.ascii "Literal" then
    return literal (← LiteralOutline.ofJson? (← json.member? "value")) place
  else if type = Text.ascii "Identifier" then
    return identifier (← (← json.member? "name").text?) place
  else if type = Text.ascii "MemberExpression" then
    return member (← tree "object") (← tree "property") (← (← json.member? "computed").truth?) place
  else if type = Text.ascii "CallExpression" then
    let callee ← json.member? "callee"
    let arguments ← (lists.find? (Text.ascii "arguments")).join
    return call (← (← callee.member? "name").text?) arguments place
  else if type = Text.ascii "BinaryExpression" then
    return binary (← (← json.member? "operator").text?) (← tree "left") (← tree "right") place
  else if type = Text.ascii "UnaryExpression" then
    return unary (← (← json.member? "operator").text?) (← (← json.member? "prefix").truth?)
      (← tree "argument") place
  else if type = Text.ascii "ConditionalExpression" then
    return conditional (← tree "test") (← tree "consequent") (← tree "alternate") place
  else none

/-- The tree that a JSON value shows. -/
def ofJson? : Json → Option Outline
  | .null => some missing
  | .object members => ofMembers? members (trees members) (lists members)
  | _ => none
where
  /-- The members that are trees. -/
  trees : List (Text × Json) → Fields (Option Outline)
    | [] => []
    | (name, value) :: rest => (name, ofJson? value) :: trees rest
  /-- The members that are lists of trees. -/
  lists : List (Text × Json) → Fields (Option (List Outline))
    | [] => []
    | (name, .array elements) :: rest => (name, ofAll? elements) :: lists rest
    | (name, _) :: rest => (name, none) :: lists rest
  /-- The trees that JSON values show, in order. -/
  ofAll? : List Json → Option (List Outline)
    | [] => some []
    | element :: rest => do return (← ofJson? element) :: (← ofAll? rest)

end Outline

/-- A finite number, or no number at all. -/
def Literal.Finite : Literal → Prop
  | number x => x.isFinite
  | _ => True

/-- A node of formulas, and no number that is not finite. -/
def Expr.Shown : Expr → Prop
  | literal value _ => value.Finite
  | unsupported _ _ => False
  | _ => True

private theorem LiteralOutline.ofJson?_toJson {value : Literal} (finite : value.Finite) :
    ofJson? value.toJson = some value.outline := by
  cases value with
  | null | text | boolean => rfl
  | number x =>
      rw [Literal.toJson, if_pos (show x.isFinite from finite)]
      rfl

namespace Outline

mutual

/-- The outline of a tree is read back from its JSON value. -/
theorem ofJson?_toJson (expr : Expr) (shown : ∀ node ∈ expr.nodes, node.Shown) :
    ofJson? expr.toJson = some expr.outline := by
  match expr with
  | .missing | .identifier _ _ => rfl
  -- Members are found under closed names, by computation; what is left is to read the children.
  | .literal value token =>
      have read := LiteralOutline.ofJson?_toJson (shown (.literal value token) List.mem_cons_self)
      have found : ofJson? (Expr.literal value token).toJson =
          (LiteralOutline.ofJson? value.toJson).bind fun outline =>
            some (literal outline token.location.toText) := rfl
      rw [found, read]
      rfl
  | .member object property computed token =>
      simp only [Expr.nodes, List.forall_mem_cons, List.forall_mem_append] at shown
      obtain ⟨-, object_shown, property_shown⟩ := shown
      have found : ofJson? (Expr.member object property computed token).toJson =
          (ofJson? object.toJson).bind fun object =>
            (ofJson? property.toJson).bind fun property =>
              some (member object property computed token.location.toText) := rfl
      rw [found, ofJson?_toJson object object_shown, ofJson?_toJson property property_shown]
      rfl
  | .call function arguments token =>
      obtain ⟨-, arguments_shown⟩ := List.forall_mem_cons.mp shown
      have found : ofJson? (Expr.call function arguments token).toJson =
          (ofJson?.ofAll? (Expr.toJson.toJsonAll arguments)).bind fun arguments =>
            some (call function arguments token.location.toText) := rfl
      rw [found, ofAll?_toJsonAll arguments arguments_shown]
      rfl
  | .binary operator left right token =>
      simp only [Expr.nodes, List.forall_mem_cons, List.forall_mem_append] at shown
      obtain ⟨-, left_shown, right_shown⟩ := shown
      have found : ofJson? (Expr.binary operator left right token).toJson =
          (ofJson? left.toJson).bind fun left =>
            (ofJson? right.toJson).bind fun right =>
              some (binary operator left right token.location.toText) := rfl
      rw [found, ofJson?_toJson left left_shown, ofJson?_toJson right right_shown]
      rfl
  | .unary operator before argument token =>
      obtain ⟨-, argument_shown⟩ := List.forall_mem_cons.mp shown
      have found : ofJson? (Expr.unary operator before argument token).toJson =
          (ofJson? argument.toJson).bind fun argument =>
            some (unary operator before argument token.location.toText) := rfl
      rw [found, ofJson?_toJson argument argument_shown]
      rfl
  | .conditional test consequent alternate token =>
      simp only [Expr.nodes, List.forall_mem_cons, List.forall_mem_append] at shown
      obtain ⟨-, ⟨test_shown, consequent_shown⟩, alternate_shown⟩ := shown
      have found : ofJson? (Expr.conditional test consequent alternate token).toJson =
          (ofJson? test.toJson).bind fun test =>
            (ofJson? consequent.toJson).bind fun consequent =>
              (ofJson? alternate.toJson).bind fun alternate =>
                some (conditional test consequent alternate token.location.toText) := rfl
      rw [found, ofJson?_toJson test test_shown, ofJson?_toJson consequent consequent_shown,
        ofJson?_toJson alternate alternate_shown]
      rfl
  | .unsupported type token =>
      exact absurd (shown (.unsupported type token) List.mem_cons_self) id

theorem ofAll?_toJsonAll (exprs : List Expr)
    (shown : ∀ node ∈ Expr.nodes.nodesOfAll exprs, node.Shown) :
    ofJson?.ofAll? (Expr.toJson.toJsonAll exprs) = some (Expr.outline.outlines exprs) := by
  match exprs with
  | [] => rfl
  | expr :: rest =>
      obtain ⟨expr_shown, rest_shown⟩ := List.forall_mem_append.mp shown
      simp only [Expr.toJson.toJsonAll, Expr.outline.outlines, ofJson?.ofAll?,
        ofJson?_toJson expr expr_shown, ofAll?_toJsonAll rest rest_shown, Option.bind_eq_bind,
        Option.bind_some]
      rfl

end

end Outline
end Formulary
