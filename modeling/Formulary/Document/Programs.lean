import Formulary.Document.Basic
import Formulary.Expr.Basic
import Formulary.Number.Arithmetic
import Formulary.Text.Digits

/-!
# Programs in JSON

A program can be given as a JSON document of its tree.  Every node is an object with the name of
its type and a member for each of its parts.  A node of a type that no formula has is kept under
that name; a part that is missing or of another kind than its node asks for is a fault.
-/

namespace Formulary

/-- Why a document is no program. -/
inductive TreeFault where
  /-- The document is of this type, and no object. -/
  | documentNotObject (type : Text)
  /-- An argument or a body is of this type, and no object. -/
  | nodeNotObject (type : Text)
  /-- A node does without a part that it needs. -/
  | missingPart (node part : Text)
  /-- A part of a node is not what it has to be. -/
  | mistypedPart (node part expected : Text)
  /-- The value of a literal is of this type, and no scalar. -/
  | valueNotScalar (type : Text)
  /-- A program has so many bodies, and not one. -/
  | notOneBody (count : Nat)
  deriving DecidableEq

namespace TreeFault

/-- The message of a fault, which ends at its first NUL byte. -/
def message (fault : TreeFault) : Text :=
  Text.beforeNul <|
    match fault with
    | documentNotObject type => Text.ascii "AST document must be an object, got " ++ type
    | nodeNotObject type => Text.ascii "AST node must be an object, got " ++ type
    | missingPart node part =>
        node ++ Text.ascii " node is missing '" ++ part ++ Text.ascii "'"
    | mistypedPart node part expected =>
        node ++ Text.ascii "." ++ part ++ Text.ascii " must be " ++ expected
    | valueNotScalar type => Text.ascii "Literal.value must be a scalar, got " ++ type
    | notOneBody count =>
        Text.ascii "Program.body must hold exactly one expression, got " ++ Text.ofNat count

end TreeFault

namespace Document

section Parts

variable (node : Text) (members : Fields Document) (part : String)

/-- A part that a node cannot do without. -/
def required : Except TreeFault { document : Document // sizeOf document < sizeOf members } :=
  match found : members.find? (Text.ascii part) with
  | none => .error (.missingPart node (Text.ascii part))
  | some document => .ok ⟨document, sizeOf_lt_of_find? found⟩

/-- A part that has to be a text. -/
def requiredText : Except TreeFault Text := do
  match (← required node members part).val with
  | .text bytes => return bytes
  | _ => throw (.mistypedPart node (Text.ascii part) (Text.ascii "a string"))

/-- The members of a part that has to be a node. -/
def requiredNode : Except TreeFault { inner : Fields Document // sizeOf inner < sizeOf members } :=
  do
  match ← required node members part with
  | ⟨.object inner, smaller⟩ => return ⟨inner, Nat.lt_trans (sizeOf_members_lt inner) smaller⟩
  | _ => throw (.mistypedPart node (Text.ascii part) (Text.ascii "a node object"))

/-- The elements of a part that has to be an array. -/
def requiredArray :
    Except TreeFault { elements : List Document // sizeOf elements < sizeOf members } := do
  match ← required node members part with
  | ⟨.array elements, smaller⟩ =>
      return ⟨elements, Nat.lt_trans (sizeOf_elements_lt elements) smaller⟩
  | _ => throw (.mistypedPart node (Text.ascii part) (Text.ascii "an array"))

/-- A part that has to be true or false, unless a node does without it. -/
def optionalTruth (otherwise : Bool) : Except TreeFault Bool :=
  match members.find? (Text.ascii part) with
  | none => .ok otherwise
  | some (.boolean truth) => .ok truth
  | some _ => .error (.mistypedPart node (Text.ascii part) (Text.ascii "a boolean"))

end Parts

/-- What a literal denotes. -/
def toLiteral : Document → Except TreeFault Literal
  | .null => .ok .null
  | .boolean truth => .ok (.boolean truth)
  | .integer n => .ok (.number (Number.ofInt n))
  | .number x => .ok (.number x)
  | .text bytes => .ok (.text bytes)
  | document => .error (.valueNotScalar document.typeName)

/-- The expression of a node. -/
def toExpr : Document → Except TreeFault Expr
  | .object members => do
      let type ← requiredText (Text.ascii "AST") members "type"
      if type = Text.ascii "ExpressionStatement" then
        let ⟨expression, _⟩ ← requiredNode type members "expression"
        toExpr (.object expression)
      else if type = Text.ascii "Literal" then
        let value ← required type members "value"
        return .literal (← toLiteral value.val) Token.none
      else if type = Text.ascii "Identifier" then
        return .identifier (← requiredText type members "name") Token.none
      else if type = Text.ascii "MemberExpression" then
        let computed ← optionalTruth type members "computed" false
        let ⟨holder, _⟩ ← requiredNode type members "object"
        let holder ← toExpr (.object holder)
        let ⟨property, _⟩ ← requiredNode type members "property"
        return .member holder (← toExpr (.object property)) computed Token.none
      else if type = Text.ascii "CallExpression" then
        let ⟨callee, _⟩ ← requiredNode type members "callee"
        let function ← requiredText (Text.ascii "CallExpression.callee") callee "name"
        let ⟨arguments, _⟩ ← requiredArray type members "arguments"
        let arguments ← arguments.attach.mapM fun ⟨argument, _⟩ => toExpr argument
        return .call function arguments Token.none
      else if type = Text.ascii "BinaryExpression" ∨ type = Text.ascii "LogicalExpression" then
        let operator ← requiredText type members "operator"
        let ⟨left, _⟩ ← requiredNode type members "left"
        let left ← toExpr (.object left)
        let ⟨right, _⟩ ← requiredNode type members "right"
        return .binary operator left (← toExpr (.object right)) Token.none
      else if type = Text.ascii "UnaryExpression" then
        let operator ← requiredText type members "operator"
        let before ← optionalTruth type members "prefix" true
        let ⟨argument, _⟩ ← requiredNode type members "argument"
        return .unary operator before (← toExpr (.object argument)) Token.none
      else if type = Text.ascii "ConditionalExpression" then
        let ⟨test, _⟩ ← requiredNode type members "test"
        let test ← toExpr (.object test)
        let ⟨consequent, _⟩ ← requiredNode type members "consequent"
        let consequent ← toExpr (.object consequent)
        let ⟨alternate, _⟩ ← requiredNode type members "alternate"
        return .conditional test consequent (← toExpr (.object alternate)) Token.none
      else return .unsupported type Token.none
  | document => .error (.nodeNotObject document.typeName)
termination_by document => document
decreasing_by
  all_goals simp only [object.sizeOf_spec]
  all_goals first
    | omega
    | have inside := List.sizeOf_lt_of_mem ‹_ ∈ _›
      omega

end Document

namespace Program

/-- The program of a document: a node alone, or the one body of an object of the type `Program`. -/
def ofDocument : Document → Except TreeFault Program
  | .object members =>
      match Fields.find? (Text.ascii "type") members with
      | some (.text type) =>
          if type = Text.ascii "Program" then do
            match (← Document.required type members "body").val with
            | .array [body] => return ⟨← body.toExpr, Token.none⟩
            | .array bodies => throw (.notOneBody bodies.length)
            | body => return ⟨← body.toExpr, Token.none⟩
          else return ⟨← (Document.object members).toExpr, Token.none⟩
      | _ => return ⟨← (Document.object members).toExpr, Token.none⟩
  | document => .error (.documentNotObject document.typeName)

end Program
end Formulary
