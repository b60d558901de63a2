import Formulary.Expr.Dump
import Formulary.Proofs.Escapes
import Formulary.Proofs.JsonReading
import Formulary.Proofs.NumberCoercion

/-!
# Writing JSON

What stands between quotation marks is the escaped text of the bytes that it denotes, integers and
finite numbers are numerals, and members on lines of their own make up an object.
-/

namespace Formulary

namespace Text

/-- The byte needs no escape. -/
def isPlain (byte : UInt8) : Bool :=
  32 ≤ byte && byte != doubleQuote && byte != backslash

end Text

namespace Json

private theorem pairByte?_hexDigits (byte : UInt8) :
    pairByte? (Text.hexDigit (byte.toNat / 16)) (Text.hexDigit (byte.toNat % 16)) = some byte := by
  have small := byte.toNat_lt
  have high := Text.hexValue?_hexDigit (show byte.toNat / 16 < 16 by omega)
  have low := Text.hexValue?_hexDigit (show byte.toNat % 16 < 16 by omega)
  simp only [pairByte?, high, low, Option.bind_eq_bind, Option.bind_some, Nat.div_add_mod,
    UInt8.ofNat_toNat]
  rfl

theorem Body.of_plain {text : Text} (plain : text.all Text.isPlain) :
    Body text text := by
  induction text with
  | nil => exact .empty
  | cons byte text induction =>
      simp only [List.all_cons, Text.isPlain, Bool.and_eq_true, decide_eq_true_eq,
        bne_iff_ne] at plain
      obtain ⟨⟨⟨no_control, not_quote⟩, not_backslash⟩, more⟩ := plain
      exact .plain no_control not_quote not_backslash (induction more)

private theorem Body.of_escaped {byte : UInt8} {spelling body value : Text}
    (escaped : Text.Escaped byte spelling) (more : Body body value) :
    Body (spelling ++ body) (byte :: value) := by
  cases escaped with
  | marked marks => rcases marks with rfl | rfl <;> exact .escaped (by decide) more
  | newline | tab | carriageReturn => exact .escaped (by decide) more
  | numbered _ => exact .unit (pairByte?_hexDigits byte) more
  | plain no_control not_quote not_backslash =>
      exact .plain no_control not_quote not_backslash more

/-- An escaped text denotes the text. -/
theorem Body.escape (text : Text) : Body (Text.escape text) text := by
  induction text with
  | nil => exact .empty
  | cons byte text induction => exact .of_escaped (Text.escaped_escapeByte byte) induction

end Json

namespace Json

theorem leads_of_nonzero {first : UInt8} (digit : Text.isDigit first)
    (nonzero : first ≠ Text.zeroDigit) (rest : Text) : leads (first :: rest) := by
  simp [leads, digit, nonzero]

end Json

namespace Significand

/-- A layout begins like its digits, or with a zero and a point. -/
theorem leads_layout {significand : Significand} {first : UInt8} {rest : Text}
    (begins : significand.digits = first :: rest) (digit : Text.isDigit first)
    (nonzero : first ≠ Text.zeroDigit) : Json.leads significand.layout := by
  rw [layout, begins]
  split
  · exact Json.leads_of_nonzero digit nonzero _
  · split
    · rename_i inside
      obtain ⟨count, positive⟩ := Nat.exists_eq_add_one_of_ne_zero
        (show significand.point.toNat ≠ 0 by omega)
      rw [positive, List.take_succ_cons]
      exact Json.leads_of_nonzero digit nonzero _
    · split
      · rfl
      · exact Json.leads_of_nonzero digit nonzero _

end Significand

namespace Number

private theorem leads_toText {magnitude : Magnitude} (positive : 0 < magnitude.units) :
    Json.leads (toText (.finite false magnitude)) := by
  have nonzero := Decimal.shortest_coefficient positive
  obtain ⟨count, split, nonempty⟩ := Significand.ofDecimal_split nonzero
  obtain ⟨first, rest, spelled, digit, first_nonzero⟩ :=
    Text.ofNat_begins (Nat.pos_of_ne_zero nonzero)
  obtain ⟨leading, more, digits⟩ := List.exists_cons_of_ne_nil nonempty
  rw [spelled, digits, List.cons_append] at split
  obtain ⟨rfl, -⟩ := List.cons.inj split
  rw [toText, if_neg (Nat.ne_of_gt positive), if_neg Bool.false_ne_true, List.nil_append]
  exact Significand.leads_layout digits digit first_nonzero

/-- The text of a finite number is a JSON numeral. -/
theorem numeral_toText {x : Number} (finite : x.isFinite) : Json.Numeral x.toText := by
  cases x with
  | nan | infinite => cases finite
  | finite negative magnitude =>
      obtain ⟨numeral, written, -⟩ := toText_written magnitude
      rcases Nat.eq_zero_or_pos magnitude.units with zero | positive
      · rw [toText_of_zero negative zero]
        refine ⟨_, .inl rfl, written.numeral, ?_⟩
        rw [toText, if_pos zero]
        rfl
      · rw [toText_of_pos negative positive]
        refine ⟨_, ?_, written.numeral, leads_toText positive⟩
        cases negative with
        | false => exact .inl rfl
        | true => exact .inr rfl

end Number

namespace Json

theorem space_blanks (count : Nat) : Space (Text.blanks count) := by
  intro byte member
  rw [List.eq_of_mem_replicate member]
  rfl

section Sequences

variable {α β : Type} {Item : Text → α → Prop}

theorem Spaced.of_item {text : Text} {value : α} (item : Item text value) :
    Spaced Item text value := by
  have spaced : Spaced Item ([] ++ text ++ []) value := .intro space_nil item space_nil
  rwa [List.nil_append, List.append_nil] at spaced

theorem Spaced.behind {text space : Text} {value : α} (spaced : Spaced Item text value)
    (front : Space space) : Spaced Item (space ++ text) value := by
  obtain ⟨before, item, after⟩ := spaced
  rw [← List.append_assoc, ← List.append_assoc]
  exact .intro (space_append front before) item after

theorem Spaced.before {text space : Text} {value : α} (spaced : Spaced Item text value)
    (back : Space space) : Spaced Item (text ++ space) value := by
  obtain ⟨before, item, after⟩ := spaced
  rw [List.append_assoc]
  exact .intro before item (space_append after back)

theorem Items.behind {text space : Text} {values : List α} (items : Items Item text values)
    (front : Space space) : Items Item (space ++ text) values := by
  cases items with
  | last item => exact .last (item.behind front)
  | more item others =>
      rw [← List.append_assoc]
      exact .more (item.behind front) others

theorem Items.before {text space : Text} {values : List α} (items : Items Item text values)
    (back : Space space) : Items Item (text ++ space) values := by
  induction items with
  | last item => exact .last (item.before back)
  | more item others induction =>
      rw [List.append_assoc, List.cons_append]
      exact .more item induction

/-- Joined texts are items if there is any. -/
theorem Items.join {space : Text} (front : Space space) {part : β → Text} {value : β → α}
    {first : β} {others : List β}
    (written : ∀ entry ∈ first :: others, Spaced Item (part entry) (value entry)) :
    Items Item (Text.join (comma :: space) ((first :: others).map part))
      ((first :: others).map value) := by
  induction others generalizing first with
  | nil =>
      simp only [List.map_cons, List.map_nil, Text.join, List.intercalate_singleton]
      exact .last (written first List.mem_cons_self)
  | cons second others induction =>
      have later := induction fun entry member => written entry (List.mem_cons_of_mem first member)
      simp only [List.map_cons, Text.join, List.intercalate_cons_cons] at later ⊢
      rw [List.append_assoc, List.cons_append]
      exact .more (written first List.mem_cons_self) (later.behind front)

end Sequences

/-- The text is lines of members, behind which others can stand. -/
def Lines (text : Text) (members : List (Text × Json)) : Prop :=
  ∀ rest others, Items (Member Writes) rest others →
    Items (Member Writes) (text ++ rest) (members ++ others)

theorem lines_nil : Lines [] [] :=
  fun _ _ items => items

theorem Lines.append {front back : Text} {members others : List (Text × Json)}
    (before : Lines front members) (after : Lines back others) :
    Lines (front ++ back) (members ++ others) := by
  intro rest more items
  rw [List.append_assoc, List.append_assoc]
  exact before _ _ (after _ _ items)

theorem member_written {body name text : Text} {value : Json} (named : Body body name)
    (written : Writes text value) :
    Member Writes (Text.quote body ++ Text.ascii ": " ++ text) (name, value) := by
  have separator : Text.ascii ": " ++ text = colon :: ([Text.blank] ++ text) := rfl
  have blank : Space [Text.blank] := by decide
  have member : Member Writes
      (Text.quote body ++ [] ++ colon :: ([Text.blank] ++ text)) (name, value) :=
    .intro named space_nil blank written
  rwa [List.append_nil, ← separator, ← List.append_assoc] at member

/-- A member stands on a line of its own. -/
theorem lines_member (name : String) {text : Text} {value : Json} (written : Writes text value)
    (indent : Nat) (plain : (Text.ascii name).all Text.isPlain := by decide) :
    Lines (Expr.dumpMember indent name text) [(Text.ascii name, value)] := by
  intro rest others items
  -- The line ends with the comma that parts its member from those behind, so there must be some.
  have member := Spaced.of_item (member_written (.of_plain plain) written)
  have newline : Space [Text.newline] := by decide
  have both := Items.more (member.behind (space_blanks indent)) (items.behind newline)
  have ending : Text.ascii ",\n" ++ rest = comma :: ([Text.newline] ++ rest) := rfl
  rw [Expr.dumpMember, List.append_assoc _ (Text.ascii ",\n"), ending]
  simpa only [List.append_assoc, List.singleton_append] using both

/-- Lines of members and one more member, behind which there is no comma, make up an object. -/
theorem Lines.object {text : Text} {members : List (Text × Json)} (lines : Lines text members)
    (name : String) {last : Text} {value : Json} (written : Writes last value)
    (indent outer : Nat) (plain : (Text.ascii name).all Text.isPlain := by decide) :
    Writes (Text.ascii "\x7b\n" ++ text ++
        (Text.blanks indent ++ Text.quote (Text.ascii name) ++ Text.ascii ": " ++ last ++
          Text.ascii "\n" ++ Text.blanks outer) ++
        Text.ascii "\x7d")
      (.object (members ++ [(Text.ascii name, value)])) := by
  have newline : Space (Text.ascii "\n") := by decide
  have member := (Spaced.of_item (member_written (.of_plain plain) written)).behind
    (space_blanks indent)
  have items := lines _ _ (.last (member.before (space_append newline (space_blanks outer))))
  have object := Writes.object (items.behind newline)
  have opening : Text.ascii "\x7b\n" = openBrace :: Text.ascii "\n" := rfl
  have closing : Text.ascii "\x7d" = [closeBrace] := rfl
  rw [opening, closing]
  simpa only [List.append_assoc, List.cons_append] using object

/-- Values on one line, with a comma and a blank between them, make up an array. -/
theorem writes_array {β : Type} {part : β → Text} {value : β → Json} {entries : List β}
    (written : ∀ entry ∈ entries, Writes (part entry) (value entry)) :
    Writes (Text.ascii "[" ++ Text.join (Text.ascii ", ") (entries.map part) ++ Text.ascii "]")
      (.array (entries.map value)) := by
  cases entries with
  | nil => exact .emptyArray space_nil
  | cons first others =>
      have blank : Space [Text.blank] := by decide
      exact .array (.join blank fun entry member => .of_item (written entry member))

theorem writes_quoted (text : Text) : Writes (Text.quote (Text.escape text)) (.string text) :=
  .string (.escape text)

end Json
end Formulary
