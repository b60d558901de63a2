import Formulary.Proofs.DumpReading

/-!
# The types in a dump

The type of a node stands in its dump as it is.  Whatever reads the dump as JSON, and finds under
`type` the type of every node, has met none that needs escapes.
-/

namespace Formulary

/-- The value has a member of this name, and the first of them has the property. -/
def Json.Has (json : Json) (name : String) (holds : Json → Prop) : Prop :=
  ∃ value, json.member? name = some value ∧ holds value

private theorem Json.Has.holds {json value : Json} {name : String} {holds : Json → Prop}
    (has : json.Has name holds) (found : json.member? name = some value) : holds value := by
  obtain ⟨other, same, held⟩ := has
  rw [found] at same
  cases same
  exact held

namespace Expr

/--
The value has the type of the node, and its members show the types of the children; a missing node
is shown as `null`.
-/
def ShowsTypes (expr : Expr) : Json → Prop := fun json =>
  json.member? "type" = expr.typeName?.map .string ∧
    match expr with
    | missing => json = .null
    | member object property _ _ =>
        json.Has "object" object.ShowsTypes ∧ json.Has "property" property.ShowsTypes
    | call _ arguments _ =>
        json.Has "callee" (·.member? "type" = some (.string (Text.ascii "Identifier"))) ∧
          json.Has "arguments" fun list =>
            ∃ elements, list = .array elements ∧ allShow arguments elements
    | binary _ left right _ => json.Has "left" left.ShowsTypes ∧ json.Has "right" right.ShowsTypes
    | unary _ _ argument _ => json.Has "argument" argument.ShowsTypes
    | conditional test consequent alternate _ =>
        json.Has "test" test.ShowsTypes ∧ json.Has "consequent" consequent.ShowsTypes ∧
          json.Has "alternate" alternate.ShowsTypes
    | literal _ _ | identifier _ _ | unsupported _ _ => True
where
  /-- The values show the types of the trees, one by one. -/
  allShow : List Expr → List Json → Prop
    | [], elements => elements = []
    | _ :: _, [] => False
    | argument :: rest, element :: elements => argument.ShowsTypes element ∧ allShow rest elements

private theorem ShowsTypes.type {expr : Expr} {json : Json} (shows : expr.ShowsTypes json) :
    json.member? "type" = expr.typeName?.map .string := by
  cases expr <;> exact shows.1

private theorem allShow_iff {exprs : List Expr} {elements : List Json} :
    ShowsTypes.allShow exprs elements ↔ List.Forall₂ ShowsTypes exprs elements := by
  induction exprs generalizing elements with
  | nil => simp [ShowsTypes.allShow]
  | cons expr rest induction =>
      cases elements with
      | nil => simp [ShowsTypes.allShow]
      | cons element elements =>
          rw [ShowsTypes.allShow, List.forall₂_cons, induction]

/-- The JSON value of a tree shows its types, whatever these are. -/
theorem showsTypes_toJson (expr : Expr) : expr.ShowsTypes expr.toJson := by
  match expr with
  | missing => exact ⟨rfl, rfl⟩
  | literal value token | identifier name token => exact ⟨rfl, trivial⟩
  | member object property computed token =>
      exact ⟨rfl, ⟨_, rfl, showsTypes_toJson object⟩, ⟨_, rfl, showsTypes_toJson property⟩⟩
  | call function arguments token =>
      refine ⟨rfl, ⟨_, rfl, rfl⟩, _, rfl, _, rfl, allShow_iff.mpr ?_⟩
      rw [toJsonAll_eq_map, List.forall₂_map_right_iff, List.forall₂_same]
      exact fun argument listed => showsTypes_toJson argument
  | binary operator left right token =>
      exact ⟨rfl, ⟨_, rfl, showsTypes_toJson left⟩, ⟨_, rfl, showsTypes_toJson right⟩⟩
  | unary operator before argument token => exact ⟨rfl, _, rfl, showsTypes_toJson argument⟩
  | conditional test consequent alternate token =>
      exact ⟨rfl, ⟨_, rfl, showsTypes_toJson test⟩, ⟨_, rfl, showsTypes_toJson consequent⟩,
        ⟨_, rfl, showsTypes_toJson alternate⟩⟩
  | unsupported type token => exact ⟨rfl, trivial⟩

open Json (Firm Ends LineEnd Line)

/-- No type below the node needs escapes. -/
def PlainTypes (expr : Expr) : Prop :=
  ∀ node ∈ expr.nodes, node.PlainType

private theorem plain_of_children {exprs : List Expr} (plain : ∀ expr ∈ exprs, expr.PlainTypes) :
    ∀ node ∈ nodes.nodesOfAll exprs, node.PlainType := by
  induction exprs with
  | nil => exact List.forall_mem_nil _
  | cons expr rest induction =>
      obtain ⟨first, others⟩ := List.forall_mem_cons.mp plain
      exact List.forall_mem_append.mpr ⟨first, induction others⟩

private theorem firm_of_plain {expr : Expr} (plain : expr.PlainTypes) (indent : Nat) :
    Firm Ends (expr.dump indent) expr.ShowsTypes expr.PlainTypes :=
  (Json.firm_of_writes (dump_written indent expr plain) _).imp (fun _ => id) (fun _ => id)
    fun _ => plain

private theorem firm_of_lines {expr : Expr} {type text : Text} {indent : Nat} (names : List String)
    (lines : List Line) (named : lines.map Line.name = names) (typed : expr.typeName? = some type)
    (same : text = lines.flatMap (Line.write (indent + 2))) (token : Token)
    (tells : ∀ json, expr.ShowsTypes json → ∀ line ∈ lines, ∀ value,
      json.member? line.name = some value → line.told value)
    (facts : type.all Text.isPlain → (∀ line ∈ lines, line.fact) → expr.PlainTypes)
    (apart : (("type" :: names).map Text.ascii).Nodup := by decide) :
    Firm Ends (dumpNode indent type text token) expr.ShowsTypes expr.PlainTypes := by
  have lines_apart : (Text.ascii "type" :: lines.map fun line => Text.ascii line.name).Nodup := by
    rwa [← named, List.map_cons, List.map_map] at apart
  refine (Json.firm_node same token lines_apart).imp (fun _ => id) (fun json shows => ⟨?_, ?_⟩) ?_
  · rw [shows.type, typed]
    rfl
  · exact tells json shows
  · exact fun known => facts known.1 known.2

/-- A dump that is read as a value with all types is read to its end, and no type needs escapes. -/
theorem firm_dump (expr : Expr) (indent : Nat) :
    Firm Ends (expr.dump indent) expr.ShowsTypes expr.PlainTypes := by
  match expr with
  | missing | literal value token | identifier name token =>
      refine firm_of_plain ?_ indent
      exact List.forall_mem_singleton.mpr trivial
  | member object property computed token =>
      have object_firm := firm_dump object (indent + 2)
      have property_firm := firm_dump property (indent + 2)
      refine firm_of_lines ["object", "property", "computed"]
        [.ofFirm "object" object_firm, .ofFirm "property" property_firm,
          .ofWrites "computed" (.boolean computed)] rfl rfl ?_ token (fun json shows => ?_)
        (fun _ facts => ?_)
      · simp only [List.flatMap_cons, List.flatMap_nil, List.append_nil, List.append_assoc]
        rfl
      · obtain ⟨-, object_shows, property_shows⟩ := shows
        simp only [List.forall_mem_cons]
        exact ⟨fun _ => object_shows.holds, fun _ => property_shows.holds, fun _ _ => trivial,
          List.forall_mem_nil _⟩
      · simp only [List.forall_mem_cons] at facts
        obtain ⟨object_plain, property_plain, -⟩ := facts
        exact List.forall_mem_cons.mpr
          ⟨trivial, List.forall_mem_append.mpr ⟨object_plain, property_plain⟩⟩
  | call function arguments token =>
      have arguments_firm := Json.firm_array fun argument (listed : argument ∈ arguments) =>
        firm_dump argument (indent + 2)
      rw [dump, dumpAll_eq_map]
      refine firm_of_lines ["callee", "arguments"]
        [.ofWrites "callee" (dumpCallee_written function), .ofFirm "arguments" arguments_firm]
        rfl rfl ?_ token (fun json shows => ?_) (fun _ facts => ?_)
      · simp only [List.flatMap_cons, List.flatMap_nil, List.append_nil]
        rfl
      · obtain ⟨-, -, arguments_show⟩ := shows
        simp only [List.forall_mem_cons]
        refine ⟨fun _ _ => trivial, fun _ found => ?_, List.forall_mem_nil _⟩
        obtain ⟨elements, rfl, shown⟩ := arguments_show.holds found
        exact ⟨elements, rfl, allShow_iff.mp shown⟩
      · simp only [List.forall_mem_cons] at facts
        exact List.forall_mem_cons.mpr ⟨trivial, plain_of_children facts.2.1⟩
  | binary operator left right token =>
      have left_firm := firm_dump left (indent + 2)
      have right_firm := firm_dump right (indent + 2)
      refine firm_of_lines ["operator", "left", "right"]
        [.ofWrites "operator" (Json.writes_quoted operator), .ofFirm "left" left_firm,
          .ofFirm "right" right_firm] rfl rfl ?_ token (fun json shows => ?_) (fun _ facts => ?_)
      · simp only [List.flatMap_cons, List.flatMap_nil, List.append_nil, List.append_assoc]
        rfl
      · obtain ⟨-, left_shows, right_shows⟩ := shows
        simp only [List.forall_mem_cons]
        exact ⟨fun _ _ => trivial, fun _ => left_shows.holds, fun _ => right_shows.holds,
          List.forall_mem_nil _⟩
      · simp only [List.forall_mem_cons] at facts
        obtain ⟨-, left_plain, right_plain, -⟩ := facts
        exact List.forall_mem_cons.mpr
          ⟨trivial, List.forall_mem_append.mpr ⟨left_plain, right_plain⟩⟩
  | unary operator before argument token =>
      have argument_firm := firm_dump argument (indent + 2)
      refine firm_of_lines ["operator", "prefix", "argument"]
        [.ofWrites "operator" (Json.writes_quoted operator), .ofWrites "prefix" (.boolean before),
          .ofFirm "argument" argument_firm] rfl rfl ?_ token (fun json shows => ?_)
        (fun _ facts => ?_)
      · simp only [List.flatMap_cons, List.flatMap_nil, List.append_nil, List.append_assoc]
        rfl
      · obtain ⟨-, argument_shows⟩ := shows
        simp only [List.forall_mem_cons]
        exact ⟨fun _ _ => trivial, fun _ _ => trivial, fun _ => argument_shows.holds,
          List.forall_mem_nil _⟩
      · simp only [List.forall_mem_cons] at facts
        obtain ⟨-, -, argument_plain, -⟩ := facts
        exact List.forall_mem_cons.mpr ⟨trivial, argument_plain⟩
  | conditional test consequent alternate token =>
      have test_firm := firm_dump test (indent + 2)
      have consequent_firm := firm_dump consequent (indent + 2)
      have alternate_firm := firm_dump alternate (indent + 2)
      refine firm_of_lines ["test", "consequent", "alternate"]
        [.ofFirm "test" test_firm, .ofFirm "consequent" consequent_firm,
          .ofFirm "alternate" alternate_firm] rfl rfl ?_ token (fun json shows => ?_)
        (fun _ facts => ?_)
      · simp only [List.flatMap_cons, List.flatMap_nil, List.append_nil, List.append_assoc]
        rfl
      · obtain ⟨-, test_shows, consequent_shows, alternate_shows⟩ := shows
        simp only [List.forall_mem_cons]
        exact ⟨fun _ => test_shows.holds, fun _ => consequent_shows.holds,
          fun _ => alternate_shows.holds, List.forall_mem_nil _⟩
      · simp only [List.forall_mem_cons] at facts
        obtain ⟨test_plain, consequent_plain, alternate_plain, -⟩ := facts
        exact List.forall_mem_cons.mpr ⟨trivial, List.forall_mem_append.mpr
          ⟨List.forall_mem_append.mpr ⟨test_plain, consequent_plain⟩, alternate_plain⟩⟩
  | unsupported type token =>
      exact firm_of_lines [] [] rfl rfl rfl token (fun _ _ => List.forall_mem_nil _)
        fun plain _ => List.forall_mem_singleton.mpr plain

end Expr

namespace Program

/-- The line of the type of a formula. -/
def typeLine : Json.Line :=
  .ofWrites "type" (Json.writes_quoted (Text.ascii "Program")) Json.Line.plain_type

/-- What a dump has behind its body. -/
def dumpEnd (indent : Nat) : Text :=
  Text.ascii "\n" ++ Text.blanks indent ++ Text.ascii "\x7d\n"

private theorem dump_eq (program : Program) (indent : Nat) :
    program.dump indent =
      Text.blanks indent ++ Json.openBrace :: Text.newline ::
        ([typeLine].flatMap (Json.Line.write (indent + 2)) ++
          (Text.blanks (indent + 2) ++ (Text.quote (Text.ascii "body") ++ Text.ascii ": " ++
            (program.body.dump (indent + 2) ++ dumpEnd indent)))) := by
  have deeper : Text.blanks (indent + 2) = Text.blanks indent ++ Text.ascii "  " :=
    List.replicate_add indent 2 Text.blank
  have line : typeLine.write (indent + 2) =
      Text.blanks indent ++ Text.ascii "  \"type\": \"Program\",\n" := by
    rw [Json.Line.write, Expr.dumpMember, deeper]
    simp only [List.append_assoc]
    rfl
  have body_line : Text.ascii "  \"body\": " =
      Text.ascii "  " ++ (Text.quote (Text.ascii "body") ++ Text.ascii ": ") := rfl
  have opening : Text.ascii "\x7b\n" = [Json.openBrace, Text.newline] := rfl
  rw [dump, List.flatMap_singleton, line, deeper, body_line, opening, dumpEnd]
  simp only [List.append_assoc, List.cons_append, List.nil_append]

/-- Of a dump that is read, the body is read on its own. -/
theorem readValue_body {program : Program} {depth indent : Nat} {rest : Text} {json body : Json}
    (small : (program.dump indent).length ≤ depth)
    (read : Json.readValue depth (Json.skip (program.dump indent)) = some (json, rest))
    (found : json.member? "body" = some body) :
    ∃ fewer behind, (program.body.dump (indent + 2)).length ≤ fewer ∧
      Json.readValue fewer (program.body.dump (indent + 2) ++ dumpEnd indent) =
        some (body, behind) := by
  have firm := program.body.firm_dump (indent + 2)
  rw [dump_eq] at small read
  simp only [List.length_append, List.length_cons] at small
  rw [Json.skip_append (Json.space_blanks indent), Json.skip_cons (by decide)] at read
  cases depth with
  | zero => omega
  | succ depth =>
      rw [Json.readValue, if_neg (by decide), if_neg (by decide), if_pos rfl] at read
      obtain ⟨members, inside_read, rfl⟩ := Json.map_eq_some read
      obtain ⟨-, fewer, others, found_later, body_read⟩ :=
        Json.Line.readInside_lines (by omega) (by decide) inside_read
          (List.forall_mem_singleton.mpr fun _ _ => trivial)
      obtain ⟨_, member, behind, _, member_read, rfl, -⟩ := Json.readItems_inv body_read
      rw [firm.readMember_eq (by decide)] at member_read
      obtain ⟨value, value_read, rfl⟩ := Json.map_eq_some member_read
      have same := (found_later (Text.ascii "body") (by decide)).symm.trans found
      cases same
      exact ⟨depth, behind, by omega, value_read⟩

/--
The dump of a formula is a JSON text that shows the type of every node if no type needs escapes, and
only then, since types are written as they are.
-/
theorem dump_shows_types_iff (program : Program) (indent : Nat) :
    (∃ json body, Json.Denotes (program.dump indent) json ∧ json.member? "body" = some body ∧
      program.body.ShowsTypes body) ↔
    ∀ node ∈ program.body.nodes, node.PlainType := by
  constructor
  · rintro ⟨json, body, denotes, found, shows⟩
    have read := Json.ofText?_eq_some_iff.mpr denotes
    rw [Json.ofText?] at read
    split at read
    · cases read
    · rename_i value rest value_read
      split at read
      · cases read
        obtain ⟨depth, behind, small, body_read⟩ := readValue_body le_rfl value_read found
        have ends : Json.Ends (dumpEnd indent) := Json.ends_cons (by decide) _
        exact ((program.body.firm_dump (indent + 2)).reads small ends body_read shows).2
      · cases read
  · intro plain
    exact ⟨_, _, program.dump_denotes plain indent, rfl, program.body.showsTypes_toJson⟩

/-- A quotation mark for a type ends the string that it stands in, and the dump is no JSON. -/
theorem dump_of_quote_no_json :
    let program : Program := ⟨.unsupported (Text.ascii "\"") Token.none, Token.none⟩
    ¬ ∃ json, Json.Denotes (program.dump 0) json := by
  rintro program ⟨json, denotes⟩
  have unread : (Json.ofText? (program.dump 0)).isNone := by decide +kernel
  rw [Json.ofText?_eq_some_iff.mpr denotes] at unread
  cases unread

end Program
end Formulary
