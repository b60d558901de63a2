import Formulary.Proofs.JsonWriting
import Formulary.Proofs.Outlines

/-!
# Dumps are JSON

The dump of a formula is a JSON text.  Unless the formula has nodes that no text has, or numbers
that are not finite, its outline is read back from the dump.
-/

namespace Formulary

open Json (Writes Body Lines Items Space)

private theorem Literal.dump_written (value : Literal) : Writes value.dump value.toJson := by
  cases value with
  | null => exact .null
  | number x =>
      rw [dump, toJson]
      split
      · rename_i finite
        exact .number (Number.numeral_toText finite)
      · exact .null
  | text bytes => exact Json.writes_quoted bytes
  | boolean truth => exact .boolean truth

namespace Expr

/-- The object of a node is written if its type needs no escapes and its members are lines. -/
theorem dumpNode_written (indent : Nat) {type text : Text} {members : List (Text × Json)}
    (lines : Lines text members) (token : Token) (plain : type.all Text.isPlain := by decide) :
    Writes (dumpNode indent type text token) (nodeJson type members token) := by
  have type_line := Json.lines_member "type" (.string (.of_plain plain)) (indent + 2)
  have object := (type_line.append lines).object "loc"
    (Json.writes_quoted token.location.toText) (indent + 2) indent
  simpa only [dumpNode, nodeJson, List.append_assoc, List.cons_append, List.nil_append] using object

theorem dumpCallee_written (function : Text) :
    Writes (dumpCallee function)
      (.object [(Text.ascii "type", .string (Text.ascii "Identifier")),
        (Text.ascii "name", .string function)]) := by
  have type : Body (Text.ascii "type") (Text.ascii "type") := .of_plain (by decide)
  have identifier : Body (Text.ascii "Identifier") (Text.ascii "Identifier") :=
    .of_plain (by decide)
  have name : Body (Text.ascii "name") (Text.ascii "name") := .of_plain (by decide)
  have blank : Space [Text.blank] := by decide
  have members := Items.more (.of_item (Json.member_written type (.string identifier)))
    (.last ((Json.Spaced.of_item
      (Json.member_written name (Json.writes_quoted function))).behind blank))
  have object := Writes.object members
  have opening : Text.ascii "\x7b\"type\": \"Identifier\", \"name\": " =
      Json.openBrace :: (Text.quote (Text.ascii "type") ++ Text.ascii ": " ++
        Text.quote (Text.ascii "Identifier") ++ Json.comma :: ([Text.blank] ++
          (Text.quote (Text.ascii "name") ++ Text.ascii ": "))) := rfl
  have closing : Text.ascii "\x7d" = [Json.closeBrace] := rfl
  rw [dumpCallee, opening, closing]
  simpa only [List.append_assoc, List.cons_append, List.nil_append] using object

theorem dumpAll_eq_map (indent : Nat) (exprs : List Expr) :
    dump.dumpAll indent exprs = exprs.map (dump indent) := by
  induction exprs with
  | nil => rfl
  | cons expr rest induction => rw [dump.dumpAll, induction, List.map_cons]

theorem toJsonAll_eq_map (exprs : List Expr) : toJson.toJsonAll exprs = exprs.map toJson := by
  induction exprs with
  | nil => rfl
  | cons expr rest induction => rw [toJson.toJsonAll, induction, List.map_cons]

/-- The type of the node needs no escapes. -/
def PlainType : Expr → Prop
  | unsupported type _ => type.all Text.isPlain
  | _ => True

private theorem lines_text (name : String) (value : Text) (indent : Nat)
    (plain : (Text.ascii name).all Text.isPlain := by decide) :
    Lines (dumpText indent name value) [(Text.ascii name, .string value)] :=
  Json.lines_member name (Json.writes_quoted value) indent plain

private theorem lines_flag (name : String) (value : Bool) (indent : Nat)
    (plain : (Text.ascii name).all Text.isPlain := by decide) :
    Lines (dumpFlag indent name value) [(Text.ascii name, .boolean value)] :=
  Json.lines_member name (.boolean value) indent plain

mutual

/-- The dump of a tree writes the JSON value of the tree, unless a type in it needs escapes. -/
theorem dump_written (indent : Nat) (expr : Expr) (plain : ∀ node ∈ expr.nodes, node.PlainType) :
    Writes (expr.dump indent) expr.toJson := by
  match expr with
  | missing => exact .null
  | literal value token =>
      exact dumpNode_written indent
        (Json.lines_member "value" value.dump_written (indent + 2)) token
  | identifier name token =>
      exact dumpNode_written indent (lines_text "name" name (indent + 2)) token
  | member object property computed token =>
      simp only [nodes, List.forall_mem_cons, List.forall_mem_append] at plain
      obtain ⟨-, object_plain, property_plain⟩ := plain
      have object_written := dump_written (indent + 2) object object_plain
      have property_written := dump_written (indent + 2) property property_plain
      exact dumpNode_written indent
        (((Json.lines_member "object" object_written (indent + 2)).append
          (Json.lines_member "property" property_written (indent + 2))).append
          (lines_flag "computed" computed (indent + 2))) token
  | call function arguments token =>
      obtain ⟨-, arguments_plain⟩ := List.forall_mem_cons.mp plain
      have arguments_written :=
        Json.writes_array (dumpAll_written (indent + 2) arguments arguments_plain)
      -- The elements are written one by one, so both lists must be seen as images of the arguments.
      rw [dump, toJson, dumpAll_eq_map, toJsonAll_eq_map]
      exact dumpNode_written indent
        ((Json.lines_member "callee" (dumpCallee_written function) (indent + 2)).append
          (Json.lines_member "arguments" arguments_written (indent + 2))) token
  | binary operator left right token =>
      simp only [nodes, List.forall_mem_cons, List.forall_mem_append] at plain
      obtain ⟨-, left_plain, right_plain⟩ := plain
      have left_written := dump_written (indent + 2) left left_plain
      have right_written := dump_written (indent + 2) right right_plain
      exact dumpNode_written indent
        (((lines_text "operator" operator (indent + 2)).append
          (Json.lines_member "left" left_written (indent + 2))).append
          (Json.lines_member "right" right_written (indent + 2))) token
  | unary operator before argument token =>
      obtain ⟨-, argument_plain⟩ := List.forall_mem_cons.mp plain
      have argument_written := dump_written (indent + 2) argument argument_plain
      exact dumpNode_written indent
        (((lines_text "operator" operator (indent + 2)).append
          (lines_flag "prefix" before (indent + 2))).append
          (Json.lines_member "argument" argument_written (indent + 2))) token
  | conditional test consequent alternate token =>
      simp only [nodes, List.forall_mem_cons, List.forall_mem_append] at plain
      obtain ⟨-, ⟨test_plain, consequent_plain⟩, alternate_plain⟩ := plain
      have test_written := dump_written (indent + 2) test test_plain
      have consequent_written := dump_written (indent + 2) consequent consequent_plain
      have alternate_written := dump_written (indent + 2) alternate alternate_plain
      exact dumpNode_written indent
        (((Json.lines_member "test" test_written (indent + 2)).append
          (Json.lines_member "consequent" consequent_written (indent + 2))).append
          (Json.lines_member "alternate" alternate_written (indent + 2))) token
  | unsupported type token =>
      have type_plain := plain (.unsupported type token) List.mem_cons_self
      exact dumpNode_written indent Json.lines_nil token type_plain

theorem dumpAll_written (indent : Nat) (exprs : List Expr)
    (plain : ∀ node ∈ nodes.nodesOfAll exprs, node.PlainType) :
    ∀ expr ∈ exprs, Writes (expr.dump indent) expr.toJson := by
  match exprs with
  | [] => exact fun _ listed => absurd listed List.not_mem_nil
  | first :: rest =>
      obtain ⟨first_plain, rest_plain⟩ := List.forall_mem_append.mp plain
      exact List.forall_mem_cons.mpr
        ⟨dump_written indent first first_plain, dumpAll_written indent rest rest_plain⟩

end

end Expr

namespace Program

/-- The dump of a formula is a JSON text, unless a type in the formula needs escapes. -/
theorem dump_denotes (program : Program)
    (plain : ∀ node ∈ program.body.nodes, node.PlainType) (indent : Nat) :
    Json.Denotes (program.dump indent) program.toJson := by
  have type := Json.lines_member "type"
    (.string (.of_plain (by decide : (Text.ascii "Program").all Text.isPlain))) (indent + 2)
  have object := type.object "body" (program.body.dump_written (indent + 2) plain) (indent + 2)
    indent
  have newline : Space (Text.ascii "\n") := by decide
  have text := ((Json.Spaced.of_item object).behind (Json.space_blanks indent)).before newline
  have deeper : Text.blanks (indent + 2) = Text.blanks indent ++ Text.ascii "  " :=
    List.replicate_add indent 2 Text.blank
  have type_line : Text.ascii "  \"type\": \"Program\",\n" =
      Text.ascii "  " ++ Text.quote (Text.ascii "type") ++ Text.ascii ": " ++
        Text.quote (Text.ascii "Program") ++ Text.ascii ",\n" := rfl
  have body_line : Text.ascii "  \"body\": " =
      Text.ascii "  " ++ Text.quote (Text.ascii "body") ++ Text.ascii ": " := rfl
  have closing : Text.ascii "\x7d\n" = Text.ascii "\x7d" ++ Text.ascii "\n" := rfl
  rw [dump, toJson, type_line, body_line, closing, Json.Denotes]
  simpa only [Expr.dumpMember, deeper, List.append_assoc, List.cons_append, List.nil_append]
    using text

end Program

namespace Outline

end Outline

namespace Program

end Program
end Formulary
