import Formulary.Expr.Basic
import Formulary.Number.Layout
import Formulary.Text.Quoted

/-!
# Tree dumps

A tree as a JSON object, one object for each node.  Every object begins with the type of its node
and ends with its location.  A missing child is `null`, and so is a number that JSON cannot write.
-/

namespace Formulary

namespace Literal

/-- A literal in a dump. -/
def dump : Literal → Text
  | .null => Text.ascii "null"
  | .number x => if x.isFinite then x.toText else Text.ascii "null"
  | .text bytes => Text.quote (Text.escape bytes)
  | .boolean truth => Text.ascii (if truth then "true" else "false")

end Literal

namespace Expr

/-- A member of an object on a line of its own. -/
def dumpMember (indent : Nat) (name : String) (value : Text) : Text :=
  Text.blanks indent ++ Text.quote (Text.ascii name) ++ Text.ascii ": " ++ value ++
    Text.ascii ",\n"

/-- A member that holds a text. -/
def dumpText (indent : Nat) (name : String) (value : Text) : Text :=
  dumpMember indent name (Text.quote (Text.escape value))

/-- A member that holds a truth value. -/
def dumpFlag (indent : Nat) (name : String) (value : Bool) : Text :=
  dumpMember indent name (Text.ascii (if value then "true" else "false"))

/-- The object of a node whose closing brace stands at an indent. -/
def dumpNode (indent : Nat) (type : Text) (members : Text) (token : Token) : Text :=
  Text.ascii "\x7b\n" ++ dumpMember (indent + 2) "type" (Text.quote type) ++ members ++
    Text.blanks (indent + 2) ++ Text.quote (Text.ascii "loc") ++ Text.ascii ": " ++
    Text.quote (Text.escape token.location.toText) ++ Text.ascii "\n" ++
    Text.blanks indent ++ Text.ascii "\x7d"

/-- The callee of a call, which stands on one line. -/
def dumpCallee (function : Text) : Text :=
  Text.ascii "\x7b\"type\": \"Identifier\", \"name\": " ++ Text.quote (Text.escape function) ++
    Text.ascii "\x7d"

/-- The dump of a tree whose closing brace stands at an indent. -/
def dump (indent : Nat) : Expr → Text
  | missing => Text.ascii "null"
  | literal value token =>
      dumpNode indent (Text.ascii "Literal") (dumpMember (indent + 2) "value" value.dump) token
  | identifier name token =>
      dumpNode indent (Text.ascii "Identifier") (dumpText (indent + 2) "name" name) token
  | member object property computed token =>
      dumpNode indent (Text.ascii "MemberExpression")
        (dumpMember (indent + 2) "object" (dump (indent + 2) object) ++
          dumpMember (indent + 2) "property" (dump (indent + 2) property) ++
          dumpFlag (indent + 2) "computed" computed)
        token
  | call function arguments token =>
      dumpNode indent (Text.ascii "CallExpression")
        (dumpMember (indent + 2) "callee" (dumpCallee function) ++
          dumpMember (indent + 2) "arguments"
            (Text.ascii "[" ++ Text.join (Text.ascii ", ") (dumpAll (indent + 2) arguments) ++
              Text.ascii "]"))
        token
  | binary operator left right token =>
      dumpNode indent (Text.ascii "BinaryExpression")
        (dumpText (indent + 2) "operator" operator ++
          dumpMember (indent + 2) "left" (dump (indent + 2) left) ++
          dumpMember (indent + 2) "right" (dump (indent + 2) right))
        token
  | unary operator before argument token =>
      dumpNode indent (Text.ascii "UnaryExpression")
        (dumpText (indent + 2) "operator" operator ++
          dumpFlag (indent + 2) "prefix" before ++
          dumpMember (indent + 2) "argument" (dump (indent + 2) argument))
        token
  | conditional test consequent alternate token =>
      dumpNode indent (Text.ascii "ConditionalExpression")
        (dumpMember (indent + 2) "test" (dump (indent + 2) test) ++
          dumpMember (indent + 2) "consequent" (dump (indent + 2) consequent) ++
          dumpMember (indent + 2) "alternate" (dump (indent + 2) alternate))
        token
  | unsupported type token => dumpNode indent type [] token
where
  /-- The dumps of some trees, in order. -/
  dumpAll (indent : Nat) : List Expr → List Text
    | [] => []
    | argument :: rest => dump indent argument :: dumpAll indent rest

end Expr

namespace Program

/-- The dump of a formula whose braces stand at an indent. -/
def dump (indent : Nat) (program : Program) : Text :=
  Text.blanks indent ++ Text.ascii "\x7b\n" ++
    Text.blanks indent ++ Text.ascii "  \"type\": \"Program\",\n" ++
    Text.blanks indent ++ Text.ascii "  \"body\": " ++ program.body.dump (indent + 2) ++
    Text.ascii "\n" ++ Text.blanks indent ++ Text.ascii "\x7d\n"

end Program
end Formulary
