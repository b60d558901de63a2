import Formulary.Proofs.Dumps
import Formulary.Proofs.Utf8

/-!
# Reading dumps

Whoever reads a text that stands between quotation marks, and finds there what is written, has read
a text that needs no escapes: one that means more than it shows is shorter than it looks, and one
that ends too late runs over the end of its line.  Members, nodes and lists of such texts are read
to their end in the same way.
-/

namespace Formulary
namespace Json

namespace Body

variable {body value : Text}

private theorem length_le (inside : Body body value) : value.length ≤ body.length := by
  induction inside with
  | empty => exact Nat.le_refl 0
  | plain _ _ _ _ induction | escaped _ _ induction | unit _ _ induction =>
      simp only [List.length_cons]
      omega

/-- Escapes are longer than what they denote. -/
theorem plain_of_length (inside : Body body value) (same : body.length = value.length) :
    value.all Text.isPlain := by
  induction inside with
  | empty => rfl
  | plain no_control not_quote not_backslash more induction =>
      simp only [List.length_cons, Nat.add_right_cancel_iff] at same
      simp [Text.isPlain, no_control, not_quote, not_backslash, induction same]
  | escaped _ more | unit _ more =>
      have shorter := more.length_le
      simp only [List.length_cons] at same
      omega

private theorem no_control (inside : Body body value) : ∀ byte ∈ body, 32 ≤ byte := by
  induction inside with
  | empty => exact List.forall_mem_nil _
  | plain no_control _ _ _ induction => exact List.forall_mem_cons.mpr ⟨no_control, induction⟩
  | @escaped letter byte rest value listed more induction =>
      have letters : escapes.all (32 ≤ ·.1) := by decide
      simp only [List.forall_mem_cons]
      exact ⟨by decide, of_decide_eq_true (List.all_eq_true.mp letters _ listed), induction⟩
  | @unit high low byte rest value digits more induction =>
      have above : ∀ byte, (Text.hexValue? byte).isSome → 32 ≤ byte :=
        Text.Utf8.forall_of_codes (by decide +kernel)
      simp only [pairByte?, Option.bind_eq_bind, Option.bind_eq_some_iff] at digits
      obtain ⟨_, high_digit, _, low_digit, -⟩ := digits
      simp only [List.forall_mem_cons]
      exact ⟨by decide, by decide, by decide, by decide,
        above high (Option.isSome_of_eq_some high_digit),
        above low (Option.isSome_of_eq_some low_digit), induction⟩

end Body

/-- A text that is read in front of the end of a line, and denotes itself, needs no escapes. -/
theorem plain_of_readBody {text rest behind : Text}
    (read : readBody (text ++ Text.doubleQuote :: comma :: Text.newline :: rest) =
      some (text, behind)) :
    text.all Text.isPlain ∧ behind = comma :: Text.newline :: rest := by
  obtain ⟨body, split, inside⟩ := readBody_sound read
  have short := inside.length_le
  obtain ⟨more, rfl, cut⟩ | ⟨more, rfl, cut⟩ := List.append_eq_append_iff.mp split
  · match more with
    | [] =>
        obtain ⟨-, same⟩ := List.cons.inj cut
        exact ⟨inside.plain_of_length (by simp), same.symm⟩
    | [quote] => cases cut
    | [quote, separator] => cases cut
    | quote :: separator :: ending :: more =>
        -- The body goes on behind the quotation mark, to the end of the line and beyond.
        cases cut
        exact absurd (inside.no_control Text.newline (by simp)) (by decide)
  · have nothing : more = [] := by
      rw [List.length_append] at short
      exact List.length_eq_zero_iff.mp (by omega)
    subst nothing
    obtain ⟨-, same⟩ := List.cons.inj cut
    rw [List.append_nil] at inside ⊢
    exact ⟨inside.plain_of_length rfl, same⟩

/--
Wherever the text stands in front of what may follow it, and a value of which this is told is read
there, nothing of the text is left and the fact holds.
-/
structure Firm (follows : Text → Prop) (text : Text) (told : Json → Prop) (fact : Prop) : Prop where
  starts : ∃ first rest, text = first :: rest ∧ opens first
  reads {depth : Nat} {tail behind : Text} {value : Json} (small : text.length ≤ depth)
    (follow : follows tail) (read : readValue depth (text ++ tail) = some (value, behind))
    (tells : told value) : behind = tail ∧ fact

/-- The rest of a line of which a member is, with all that comes behind it. -/
def LineEnd (tail : Text) : Prop :=
  ∃ rest, tail = Text.ascii ",\n" ++ rest

private theorem LineEnd.ends {tail : Text} (line_end : LineEnd tail) : Ends tail := by
  obtain ⟨rest, rfl⟩ := line_end
  exact ends_cons (by decide) _

section Firmness

variable {follows other : Text → Prop} {text : Text} {told tells : Json → Prop} {fact also : Prop}

theorem Firm.imp (firm : Firm follows text told fact) (fewer : ∀ tail, other tail → follows tail)
    (weaker : ∀ value, tells value → told value) (follow : fact → also) :
    Firm other text tells also where
  starts := firm.starts
  reads small follow_tail read tells_value :=
    (firm.reads small (fewer _ follow_tail) read (weaker _ tells_value)).imp_right follow

private theorem Firm.skip_eq (firm : Firm follows text told fact) (tail : Text) :
    skip (text ++ tail) = text ++ tail := by
  obtain ⟨first, rest, rfl, opening⟩ := firm.starts
  exact skip_cons (fun space => not_opens_of_space space opening) _

/-- Between brackets or braces something is read if there is a text that begins a value. -/
theorem readInside_eq {α : Type} {readItem : Text → Option (α × Text)} {close first : UInt8}
    (closes : ¬ opens close) {count : Nat} {text rest : Text} (skipped : skip text = first :: rest)
    (opening : opens first) :
    readInside readItem close count text = readItems readItem close count text := by
  have not_closing : first ≠ close := by
    rintro rfl
    exact closes opening
  rw [readInside, skipped]
  simp only [if_neg not_closing]

theorem firm_of_writes {value : Json} (written : Writes text value) (told : Json → Prop) :
    Firm Ends text told True where
  starts := written.starts
  reads small ends read _ := by
    rw [(gets_value _).reads written small ends] at read
    cases read
    exact ⟨rfl, trivial⟩

private theorem firm_quote (type : Text) :
    Firm LineEnd (Text.quote type) (· = string type) (type.all Text.isPlain) where
  starts := ⟨_, _, rfl, by decide⟩
  reads {depth tail behind value} small line_end read tells := by
    obtain ⟨rest, rfl⟩ := line_end
    cases depth with
    | zero => cases small
    | succ depth =>
        rw [Body.quote_eq, readValue, if_pos rfl] at read
        obtain ⟨inner, body_read, rfl⟩ := map_eq_some read
        cases tells
        exact (plain_of_readBody body_read).symm

end Firmness

/-- What is read of items is read of the first one, and then of the others if there is a comma. -/
theorem readItems_inv {α : Type} {readItem : Text → Option (α × Text)} {close : UInt8}
    {count : Nat} {text rest : Text} {values : List α}
    (read : readItems readItem close count text = some (values, rest)) :
    ∃ fewer value after others, readItem (skip text) = some (value, after) ∧
      values = value :: others ∧
      (skip after = close :: rest ∧ others = [] ∨
        ∃ more, skip after = comma :: more ∧
          readItems readItem close fewer more = some (others, rest)) := by
  cases count with
  | zero => cases read
  | succ count =>
      rw [readItems] at read
      split at read
      · cases read
      · rename_i value after item_read
        split at read
        · cases read
        · rename_i byte more left
          split at read
          · rename_i closing
            cases read
            exact ⟨count, value, after, [], item_read, rfl, .inl ⟨closing ▸ left, rfl⟩⟩
          · split at read
            · rename_i separating
              obtain ⟨others, others_read, rfl⟩ := map_eq_some read
              exact ⟨count, value, after, others, item_read, rfl,
                .inr ⟨more, separating ▸ left, others_read⟩⟩
            · cases read

private theorem readItems_skip {α : Type} {readItem : Text → Option (α × Text)} {close : UInt8}
    {space : Text} (front : Space space) (count : Nat) (text : Text) :
    readItems readItem close count (space ++ text) = readItems readItem close count text := by
  cases count with
  | zero => rfl
  | succ count => rw [readItems, readItems, skip_append front]

private theorem skip_member (name : String) (indent : Nat) (rest : Text) :
    skip (Text.blanks indent ++ (Text.quote (Text.ascii name) ++ Text.ascii ": " ++ rest)) =
      Text.doubleQuote :: (Text.ascii name ++ Text.doubleQuote :: colon ::
        ([Text.blank] ++ rest)) := by
  rw [skip_append (space_blanks indent), List.append_assoc, Body.quote_eq,
    skip_cons (by decide)]
  rfl

/-- A member is read by its name and then by its value. -/
theorem Firm.readMember_eq {follows : Text → Prop} {text : Text} {told : Json → Prop} {fact : Prop}
    (firm : Firm follows text told fact) {name : String}
    (plain : (Text.ascii name).all Text.isPlain) (depth indent : Nat) (tail : Text) :
    readMember (readValue depth) (skip (Text.blanks indent ++
      (Text.quote (Text.ascii name) ++ Text.ascii ": " ++ (text ++ tail)))) =
        (readValue depth (text ++ tail)).map (Prod.map (Text.ascii name, ·) id) := by
  have blank : Space [Text.blank] := by decide
  simp only [skip_member, readMember, if_true, (Body.of_plain plain).read_eq,
    skip_cons (show ¬ isSpace colon by decide), skip_append blank, firm.skip_eq]

/-- A member on a line of its own, which is firm there. -/
structure Line where
  name : String
  text : Text
  told : Json → Prop
  fact : Prop
  plain : (Text.ascii name).all Text.isPlain
  firm : Firm LineEnd text told fact

namespace Line

/-- The line of a text that is firm wherever it ends. -/
def ofFirm (name : String) {text : Text} {told : Json → Prop} {fact : Prop}
    (firm : Firm Ends text told fact) (plain : (Text.ascii name).all Text.isPlain := by decide) :
    Line :=
  ⟨name, text, told, fact, plain, firm.imp (fun _ => LineEnd.ends) (fun _ => id) id⟩

/-- The line of a value, of which nothing is told. -/
def ofWrites (name : String) {text : Text} {value : Json} (writes : Writes text value)
    (plain : (Text.ascii name).all Text.isPlain := by decide) : Line :=
  .ofFirm name (firm_of_writes writes fun _ => True) plain

def write (indent : Nat) (line : Line) : Text :=
  Expr.dumpMember indent line.name line.text

variable {depth count indent : Nat} {rest behind : Text} {members : List (Text × Json)}

private theorem write_append (line : Line) :
    line.write indent ++ rest =
      Text.blanks indent ++ (Text.quote (Text.ascii line.name) ++ Text.ascii ": " ++
        (line.text ++ (Text.ascii ",\n" ++ rest))) := by
  rw [write, Expr.dumpMember]
  simp only [List.append_assoc]

/-- Lines of members are read one after another. -/
theorem readItems_lines {lines : List Line} (small : ∀ line ∈ lines, line.text.length ≤ depth)
    (apart : (lines.map fun line => Text.ascii line.name).Nodup)
    (read : readItems (readMember (readValue depth)) closeBrace count
      (lines.flatMap (write indent) ++ rest) = some (members, behind))
    (tells : ∀ line ∈ lines, ∀ value, Fields.find? (Text.ascii line.name) members = some value →
      line.told value) :
    (∀ line ∈ lines, line.fact) ∧
      ∃ fewer others,
        (∀ name ∉ lines.map fun line => Text.ascii line.name,
          Fields.find? name members = Fields.find? name others) ∧
        readItems (readMember (readValue depth)) closeBrace fewer rest = some (others, behind) := by
  induction lines generalizing count members with
  | nil => exact ⟨List.forall_mem_nil _, count, members, fun _ _ => rfl, read⟩
  | cons line lines induction =>
      obtain ⟨line_small, others_small⟩ := List.forall_mem_cons.mp small
      obtain ⟨line_apart, others_apart⟩ := List.nodup_cons.mp apart
      obtain ⟨line_tells, others_tells⟩ := List.forall_mem_cons.mp tells
      rw [List.flatMap_cons, List.append_assoc, write_append] at read
      obtain ⟨fewer, member, after, others, member_read, rfl, left⟩ := readItems_inv read
      rw [line.firm.readMember_eq line.plain] at member_read
      obtain ⟨value, value_read, rfl⟩ := map_eq_some member_read
      have told : line.told value := line_tells value (if_pos rfl)
      obtain ⟨rfl, fact⟩ := line.firm.reads line_small ⟨_, rfl⟩ value_read told
      obtain ⟨closing, -⟩ | ⟨more, separating, others_read⟩ := left
      · cases closing
      · obtain rfl : [Text.newline] ++ (lines.flatMap (write indent) ++ rest) = more :=
          (List.cons.inj separating).2
        rw [readItems_skip (by decide)] at others_read
        obtain ⟨facts, fewer, remaining, found_later, remaining_read⟩ :=
          induction others_small others_apart others_read
            fun next listed value found => others_tells next listed value <| by
              rwa [Fields.find?, if_neg]
              exact fun same => line_apart (List.mem_map.mpr ⟨next, listed, same.symm⟩)
        refine ⟨List.forall_mem_cons.mpr ⟨fact, facts⟩, fewer, remaining, fun name absent => ?_,
          remaining_read⟩
        rw [List.map_cons, List.mem_cons, not_or] at absent
        obtain ⟨other_name, later⟩ := absent
        rw [Fields.find?, if_neg (Ne.symm other_name), found_later name later]

/-- Behind a brace, lines of members are read before what comes behind them. -/
theorem readInside_lines {line : Line} {lines : List Line}
    (small : ((line :: lines).flatMap (write indent)).length ≤ depth)
    (apart : ((line :: lines).map fun line => Text.ascii line.name).Nodup)
    (read : readInside (readMember (readValue depth)) closeBrace count
      (Text.newline :: ((line :: lines).flatMap (write indent) ++ rest)) = some (members, behind))
    (tells : ∀ other ∈ line :: lines, ∀ value,
      Fields.find? (Text.ascii other.name) members = some value → other.told value) :
    (∀ other ∈ line :: lines, other.fact) ∧
      ∃ fewer others,
        (∀ name ∉ (line :: lines).map fun line => Text.ascii line.name,
          Fields.find? name members = Fields.find? name others) ∧
        readItems (readMember (readValue depth)) closeBrace fewer rest = some (others, behind) := by
  have newline : Space [Text.newline] := by decide
  have skipped := skip_append newline ((line :: lines).flatMap (write indent) ++ rest)
  rw [List.flatMap_cons, List.append_assoc, write_append, skip_member] at skipped
  rw [List.flatMap_cons, List.append_assoc, write_append, ← List.singleton_append,
    readInside_eq (by decide) skipped (by decide), readItems_skip newline, ← write_append,
    ← List.append_assoc, ← List.flatMap_cons] at read
  refine readItems_lines (fun other listed => ?_) apart read tells
  obtain ⟨front, back, split⟩ := List.append_of_mem listed
  rw [split] at small
  simp only [List.flatMap_append, List.flatMap_cons, List.length_append, write,
    Expr.dumpMember] at small
  omega

end Line

section Nodes

variable {type text : Text} {lines : List Line} {indent : Nat}

/-- The last member of a node, which has no comma behind it. -/
def place (indent : Nat) (token : Token) : Text :=
  Text.blanks (indent + 2) ++ Text.quote (Text.ascii "loc") ++ Text.ascii ": " ++
    Text.quote (Text.escape token.location.toText) ++ Text.ascii "\n" ++ Text.blanks indent

private theorem spaced_place (indent : Nat) (token : Token) :
    Spaced (Member Writes) (place indent token)
      (Text.ascii "loc", .string token.location.toText) := by
  have named : Body (Text.ascii "loc") (Text.ascii "loc") := .of_plain (by decide)
  have newline : Space (Text.ascii "\n") := by decide
  have member := ((Spaced.of_item
    (member_written named (writes_quoted token.location.toText))).behind
      (space_blanks (indent + 2))).before (space_append newline (space_blanks indent))
  simpa only [place, List.append_assoc] using member

theorem Line.plain_type : (Text.ascii "type").all Text.isPlain := by decide

/-- The line of the type of a node, which is written as it is. -/
def Line.ofType (type : Text) : Line :=
  ⟨"type", Text.quote type, (· = string type), type.all Text.isPlain, plain_type, firm_quote type⟩

private theorem dumpNode_eq (same : text = lines.flatMap (Line.write (indent + 2)))
    (token : Token) : Expr.dumpNode indent type text token =
      openBrace :: Text.newline :: ((Line.ofType type :: lines).flatMap (Line.write (indent + 2)) ++
        (place indent token ++ [closeBrace])) := by
  have opening : Text.ascii "\x7b\n" = [openBrace, Text.newline] := rfl
  have closing : Text.ascii "\x7d" = [closeBrace] := rfl
  have type_line : (Line.ofType type).write (indent + 2) =
    Expr.dumpMember (indent + 2) "type" (Text.quote type) := rfl
  rw [Expr.dumpNode, place, same, opening, closing, List.flatMap_cons, type_line]
  simp only [List.append_assoc, List.cons_append, List.nil_append]

/-- Members on lines of their own, of which each has its fact if the type is told. -/
theorem firm_node (same : text = lines.flatMap (Line.write (indent + 2))) (token : Token)
    (apart : (Text.ascii "type" :: lines.map fun line => Text.ascii line.name).Nodup) :
    Firm Ends (Expr.dumpNode indent type text token)
      (fun json => json.member? "type" = some (string type) ∧
        ∀ line ∈ lines, ∀ value, json.member? line.name = some value → line.told value)
      (type.all Text.isPlain ∧ ∀ line ∈ lines, line.fact) where
  starts := ⟨_, _, rfl, by decide⟩
  reads {depth tail behind value} small ends read tells := by
    rw [dumpNode_eq same] at small read
    simp only [List.length_cons, List.length_append, List.length_nil, List.append_assoc,
      List.cons_append, List.nil_append] at small read
    cases depth with
    | zero => omega
    | succ depth =>
        rw [readValue, if_neg (by decide), if_neg (by decide), if_pos rfl] at read
        obtain ⟨members, inside_read, rfl⟩ := map_eq_some read
        obtain ⟨type_tells, lines_tell⟩ := tells
        have members_tell : ∀ line ∈ Line.ofType type :: lines, ∀ value,
            Fields.find? (Text.ascii line.name) members = some value → line.told value :=
          List.forall_mem_cons.mpr
            ⟨fun value found => Option.some.inj (found.symm.trans type_tells), lines_tell⟩
        have inside_small :
            ((Line.ofType type :: lines).flatMap (Line.write (indent + 2))).length ≤ depth := by
          omega
        have names_apart :
            ((Line.ofType type :: lines).map fun line => Text.ascii line.name).Nodup := apart
        obtain ⟨facts, fewer, others, -, others_read⟩ :=
          Line.readInside_lines inside_small names_apart inside_read members_tell
        have closes : ¬ opens closeBrace := by decide
        obtain ⟨after, last_read, last_left⟩ := (spaced_place indent token).read_eq closes
          (by decide) (gets_member (gets_value depth)) (by omega) tail
        obtain ⟨_, _, _, _, again, -, left⟩ := readItems_inv others_read
        rw [last_read] at again
        cases again
        rw [last_left] at left
        obtain ⟨closing, -⟩ | ⟨_, separating, -⟩ := left
        · exact ⟨(List.cons.inj closing).2.symm, List.forall_mem_cons.mp facts⟩
        · cases separating

end Nodes

section Arrays

private theorem join_begins (separator first : Text) (others : List Text) :
    ∃ rest, Text.join separator (first :: others) = first ++ rest := by
  cases others with
  | nil => exact ⟨[], by rw [Text.join, List.intercalate_singleton, List.append_nil]⟩
  | cons second others =>
      exact ⟨_, by rw [Text.join, List.intercalate_cons_cons, List.append_assoc]⟩

variable {β : Type} {part : β → Text} {told : β → Json → Prop} {fact : β → Prop}

/-- Values on one line are read one after another. -/
theorem readItems_join {first : β} {others : List β}
    (firm : ∀ entry ∈ first :: others, Firm Ends (part entry) (told entry) (fact entry))
    {depth count : Nat} {tail behind : Text} {elements : List Json}
    (small : (Text.join (Text.ascii ", ") ((first :: others).map part)).length ≤ depth)
    (read : readItems (readValue depth) closeBracket count
      (Text.join (Text.ascii ", ") ((first :: others).map part) ++ closeBracket :: tail) =
        some (elements, behind))
    (tells : List.Forall₂ told (first :: others) elements) :
    behind = tail ∧ ∀ entry ∈ first :: others, fact entry := by
  induction others generalizing first count elements with
  | nil =>
      have alone := firm first List.mem_cons_self
      simp only [List.map_cons, List.map_nil, Text.join, List.intercalate_singleton] at small read
      obtain ⟨fewer, value, after, more, value_read, rfl, left⟩ := readItems_inv read
      rw [alone.skip_eq] at value_read
      obtain ⟨rfl, holds⟩ := alone.reads small (ends_cons (by decide) tail) value_read
        (List.forall₂_cons.mp tells).1
      obtain ⟨closing, -⟩ | ⟨rest, separating, -⟩ := left
      · cases closing
        exact ⟨rfl, by simpa using holds⟩
      · cases separating
  | cons second others induction =>
      obtain ⟨first_firm, others_firm⟩ := List.forall_mem_cons.mp firm
      have separator : Text.ascii ", " = [comma, Text.blank] := rfl
      simp only [List.map_cons, Text.join, List.intercalate_cons_cons, separator,
        List.append_assoc, List.cons_append, List.nil_append, List.length_append,
        List.length_cons] at small read
      obtain ⟨fewer, value, after, more, value_read, rfl, left⟩ := readItems_inv read
      obtain ⟨first_told, others_told⟩ := List.forall₂_cons.mp tells
      rw [first_firm.skip_eq] at value_read
      obtain ⟨rfl, holds⟩ := first_firm.reads (by omega) (ends_cons (by decide) _) value_read
        first_told
      obtain ⟨closing, -⟩ | ⟨rest, separating, rest_read⟩ := left
      · cases closing
      · cases separating
        rw [← List.singleton_append, readItems_skip (by decide)] at rest_read
        have rest_small :
            (Text.join (Text.ascii ", ") ((second :: others).map part)).length ≤ depth := by
          rw [List.map_cons, Text.join, separator]
          omega
        obtain ⟨same, facts⟩ := induction others_firm rest_small rest_read others_told
        exact ⟨same, List.forall_mem_cons.mpr ⟨holds, facts⟩⟩

/-- Values on one line, of which each has its fact if its own part is told. -/
theorem firm_array {entries : List β}
    (firm : ∀ entry ∈ entries, Firm Ends (part entry) (told entry) (fact entry)) :
    Firm Ends (Text.ascii "[" ++ Text.join (Text.ascii ", ") (entries.map part) ++ Text.ascii "]")
      (fun json => ∃ elements, json = array elements ∧ List.Forall₂ told entries elements)
      (∀ entry ∈ entries, fact entry) where
  starts := ⟨_, _, rfl, by decide⟩
  reads {depth tail behind value} small ends read tells := by
    obtain ⟨elements, rfl, all_told⟩ := tells
    have opening : Text.ascii "[" = [openBracket] := rfl
    have closing : Text.ascii "]" = [closeBracket] := rfl
    rw [opening, closing] at small read
    simp only [List.append_assoc, List.length_append, List.length_cons, List.cons_append,
      List.nil_append] at small read
    cases depth with
    | zero => omega
    | succ depth =>
        rw [readValue, if_neg (by decide), if_pos rfl] at read
        obtain ⟨inner, inside_read, same⟩ := map_eq_some read
        cases same
        cases entries with
        | nil =>
            have empty : Text.join (Text.ascii ", ") (([] : List β).map part) ++
              closeBracket :: tail = [] ++ closeBracket :: tail := rfl
            rw [empty, readInside_space (by decide) space_nil] at inside_read
            cases inside_read
            exact ⟨rfl, List.forall_mem_nil _⟩
        | cons first others =>
            have first_firm := firm first List.mem_cons_self
            obtain ⟨byte, rest, begins, opening⟩ := first_firm.starts
            obtain ⟨more, joined⟩ := join_begins (Text.ascii ", ") (part first) (others.map part)
            have skipped :
                skip (Text.join (Text.ascii ", ") ((first :: others).map part) ++
                  closeBracket :: tail) = byte :: (rest ++ (more ++ closeBracket :: tail)) := by
              rw [List.map_cons, joined, List.append_assoc, first_firm.skip_eq, begins,
                List.cons_append]
            rw [readInside_eq (by decide) skipped opening] at inside_read
            exact readItems_join firm (by omega) inside_read all_told

end Arrays

end Json
end Formulary
