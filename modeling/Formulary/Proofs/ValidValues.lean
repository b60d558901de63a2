import Formulary.Proofs.Characters
import Formulary.Proofs.Invariants
import Formulary.Proofs.Nesting
import Formulary.Proofs.Reasons
import Formulary.Proofs.Tables
import Formulary.Proofs.ValidTexts

/-!
# UTF-8 values

A formula whose texts are UTF-8, evaluated where only UTF-8 texts are known, has a result whose
texts are UTF-8.  No character is cut apart on the way, since indices count characters and spaces
and letters of both cases are ASCII.
-/

namespace Formulary
namespace Value

/-- The text is in the value: as itself, as a key or in what is kept under a key or an index. -/
inductive Stores (stored : Text) : Value → Prop where
  | itself : Stores stored (text stored)
  | key {tag entries value} (found : Fields.find? stored entries = some value) :
      Stores stored (object tag entries)
  | entry {tag entries key value} (found : Fields.find? key entries = some value)
      (inside : Stores stored value) : Stores stored (object tag entries)
  | element {tag elements element} (listed : element ∈ elements)
      (inside : Stores stored element) : Stores stored (array tag elements)

/-- All texts in the value are UTF-8. -/
def Valid (value : Value) : Prop :=
  ∀ stored, Stores stored value → Text.Utf8.isValid stored

private theorem valid_number (x : Number) : (number x).Valid := nofun

private theorem valid_boolean (truth : Bool) : (boolean truth).Valid := nofun

private theorem valid_null : null.Valid := nofun

private theorem valid_undefined : undefined.Valid := nofun

private theorem valid_text_iff {bytes : Text} : (text bytes).Valid ↔ Text.Utf8.isValid bytes :=
  ⟨fun valid => valid bytes .itself, fun valid stored stores => by cases stores; exact valid⟩

private theorem valid_array_iff {tag : Nat} {elements : List Value} :
    (array tag elements).Valid ↔ ∀ element ∈ elements, element.Valid :=
  ⟨fun valid _ listed stored stores => valid stored (.element listed stores),
    fun valid stored stores => by
      cases stores with
      | element listed inside => exact valid _ listed stored inside⟩

private theorem valid_object_iff {tag : Nat} {entries : Fields Value} :
    (object tag entries).Valid ↔
      ∀ key value, entries.find? key = some value → Text.Utf8.isValid key ∧ value.Valid :=
  ⟨fun valid key _ found =>
      ⟨valid key (.key found), fun stored stores => valid stored (.entry found stores)⟩,
    fun valid stored stores => by
      cases stores with
      | key found => exact (valid _ _ found).1
      | entry found inside => exact (valid _ _ found).2 stored inside⟩

/-- The text of a value is UTF-8 if the texts in it are. -/
theorem Valid.toText {value : Value} (valid : value.Valid) : Text.Utf8.isValid value.toText := by
  induction value using nested with
  | null | undefined => exact Text.Utf8.isValid_word (by decide)
  | number x => exact x.isValid_toText
  | text bytes => exact valid_text_iff.mp valid
  | boolean truth => exact Text.Utf8.isValid_word (by cases truth <;> decide)
  | object tag entries =>
      rw [Value.toText]
      exact Text.Utf8.isValid_word (by decide)
  | array tag elements induction =>
      rw [Value.toText, elementTexts_eq]
      refine Text.Utf8.isValid_join (by decide) (List.forall_mem_map.mpr fun element listed => ?_)
      split
      · rfl
      · exact induction element listed (valid_array_iff.mp valid element listed)

private theorem isValid_braced (colour : Bool) {properties : List (Text × Text)}
    (valid : ∀ entry ∈ properties, Text.Utf8.isValid entry.1 ∧ Text.Utf8.isValid entry.2) :
    Text.Utf8.isValid (braced colour properties) := by
  rw [braced]
  split
  · decide
  · refine Text.Utf8.isValid_concat (Text.Utf8.isValid_concat (by decide) ?_) (by decide)
    refine Text.Utf8.isValid_join (by decide) (List.forall_mem_map.mpr fun entry listed => ?_)
    obtain ⟨key_valid, printed_valid⟩ := valid entry listed
    exact Text.Utf8.isValid_concat
      (Text.Utf8.isValid_concat (Text.Utf8.isValid_paint .cyan colour key_valid) (by decide))
      printed_valid

private theorem Valid.printInner (colour : Bool) {value : Value} (valid : value.Valid) :
    Text.Utf8.isValid (value.printInner colour) := by
  induction value using nested with
  | null | undefined =>
      exact Text.Utf8.isValid_paint _ _ (Text.Utf8.isValid_word (by decide))
  | number x => exact Text.Utf8.isValid_paint _ _ x.isValid_toText
  | text bytes =>
      exact Text.Utf8.isValid_paint _ _ (Text.Utf8.isValid_quote (valid_text_iff.mp valid))
  | boolean truth =>
      exact Text.Utf8.isValid_paint _ _
        (Text.Utf8.isValid_word (by cases truth <;> decide))
  | object tag entries induction =>
      rw [Value.printInner, printEntries_eq]
      refine isValid_braced colour fun (key, printed) listed => ?_
      have shown := Fields.find?_of_mem_normalize listed
      rw [Fields.find?_mapValues, Option.map_eq_some_iff] at shown
      obtain ⟨value, found, rfl⟩ := shown
      obtain ⟨key_valid, value_valid⟩ := valid_object_iff.mp valid key value found
      exact ⟨key_valid, induction (key, value) (Fields.mem_of_find? found) value_valid⟩
  | array tag elements induction =>
      rw [Value.printInner, printElements_eq, bracketed]
      refine Text.Utf8.isValid_concat (Text.Utf8.isValid_concat (by decide) ?_) (by decide)
      refine Text.Utf8.isValid_join (by decide) (List.forall_mem_map.mpr fun element listed => ?_)
      exact induction element listed (valid_array_iff.mp valid element listed)

/-- What is shown of a value is UTF-8 if the texts in it are. -/
theorem Valid.print (colour : Bool) {value : Value} (valid : value.Valid) :
    Text.Utf8.isValid (value.print colour) := by
  cases value with
  | text bytes => exact valid_text_iff.mp valid
  | _ => exact valid.printInner colour

private theorem Valid.property {object : Value} (valid : object.Valid) (key : Value) :
    (object.property key).Valid := by
  rw [Value.property]
  cases object with
  | null | undefined | number | boolean => exact valid_undefined
  | object tag entries =>
      rw [propertyNamed]
      cases found : Fields.find? key.toText entries with
      | none => exact valid_undefined
      | some value => exact (valid_object_iff.mp valid _ value found).2
  | array tag elements =>
      rw [propertyNamed]
      split
      · exact valid_number _
      · cases found : (index? key.toText).bind fun index => elements[index]? with
        | none => exact valid_undefined
        | some element =>
            obtain ⟨index, -, picked⟩ := Option.bind_eq_some_iff.mp found
            exact valid_array_iff.mp valid element (List.mem_of_getElem? picked)
  | text bytes =>
      rw [propertyNamed]
      split
      · exact valid_number _
      · cases found : (index? key.toText).bind (Text.character? bytes) with
        | none => exact valid_undefined
        | some character =>
            obtain ⟨index, -, picked⟩ := Option.bind_eq_some_iff.mp found
            exact valid_text_iff.mpr (Text.Utf8.isValid_of_mem_characters
              (valid_text_iff.mp valid) (List.mem_of_getElem? picked))

end Value

private theorem BinaryOperator.apply_valid (operator : BinaryOperator) {left right : Value}
    (left_valid : left.Valid) (right_valid : right.Valid) : (operator.apply left right).Valid := by
  cases operator with
  | add =>
      rw [apply]
      unfold sum
      split
      · exact Value.valid_number _
      · exact Value.valid_text_iff.mpr
          (Text.Utf8.isValid_concat left_valid.toText right_valid.toText)
  | subtract | multiply | divide | remainder => exact Value.valid_number _
  | equal | notEqual | greater | greaterOrEqual | less | lessOrEqual | and | or =>
      exact Value.valid_boolean _

private theorem UnaryOperator.result_valid {operator : UnaryOperator} {argument value : Value}
    (result : operator.result? argument = some value) : value.Valid := by
  unfold result? at result
  split at result <;> cases result
  · exact Value.valid_boolean _
  · exact Value.valid_number _

private theorem Builtin.apply_valid (builtin : Builtin) {arguments : List Value}
    (valid : ∀ argument ∈ arguments, argument.Valid) : (builtin.apply arguments).Valid := by
  have given (index : Nat) : (argument arguments index).Valid := by
    rw [argument, List.getD_eq_getElem?_getD]
    cases found : arguments[index]? with
    | none => exact Value.valid_undefined
    | some value => exact valid value (List.mem_of_getElem? found)
  cases builtin with
  | sum | min | max | avg | abs | round | floor | ceil | sqrt | pow | len | num =>
      exact Value.valid_number _
  | upper => exact Value.valid_text_iff.mpr (Text.Utf8.isValid_toUpper (given 0).toText)
  | lower => exact Value.valid_text_iff.mpr (Text.Utf8.isValid_toLower (given 0).toText)
  | trim => exact Value.valid_text_iff.mpr (Text.Utf8.isValid_trim (given 0).toText)
  | str => exact Value.valid_text_iff.mpr (given 0).toText
  | coalesce =>
      rw [apply]
      cases found : arguments.find? fun value => !value.isNullish with
      | none => exact Value.valid_null
      | some value => exact valid value (List.mem_of_find?_eq_some found)

/-- In an environment of builtin functions and of variables with UTF-8 texts, values stay such. -/
theorem Environment.OnlyBuiltins.invariant {σ : Type} {environment : Environment σ}
    (only : environment.OnlyBuiltins)
    (bound : ∀ name value, environment.findVariable name = some value → value.Valid) :
    Invariant environment Value.Valid where
  bound found := bound _ _ found
  returned found _ given before after value yields := by
    obtain ⟨builtin, rfl⟩ := only.exists_builtin found
    cases yields.result
    exact builtin.apply_valid given
  property key valid := valid.property key
  binary operator := operator.apply_valid
  unary _ result := UnaryOperator.result_valid result

/--
If the text literals of a formula and the texts of all variables are UTF-8, keys included, and the
functions are the builtin ones, then all texts in the result are UTF-8, and so are its own text and
what is shown of it.
-/
theorem Program.evaluate_valid {σ : Type} {environment : Environment σ}
    (only : environment.OnlyBuiltins)
    (bound : ∀ name value, environment.findVariable name = some value → value.Valid)
    {program : Program}
    (literals : ∀ bytes token, .literal (.text bytes) token ∈ program.body.nodes →
      Text.Utf8.isValid bytes)
    {host : σ} {value : Value} (succeeds : (program.evaluate environment host).result = .ok value) :
    (∀ stored, value.Stores stored → Text.Utf8.isValid stored) ∧
      Text.Utf8.isValid value.toText ∧
      ∀ colour, Text.Utf8.isValid (value.print colour) := by
  have literals_valid : program.body.Literals Value.Valid := by
    intro literal token listed
    cases literal with
    | null => exact Value.valid_null
    | number x => exact Value.valid_number x
    | text bytes => exact Value.valid_text_iff.mpr (literals bytes token listed)
    | boolean truth => exact Value.valid_boolean truth
  have valid : value.Valid :=
    (only.invariant bound).evaluate program.body literals_valid _ _ _ ⟨succeeds, rfl⟩
  exact ⟨valid, valid.toText, fun colour => valid.print colour⟩

/-- A property whose key and text have two bytes each, and whose letters are no ASCII ones. -/
theorem Program.evaluate_valid_upper :
    ∃ environment : Environment Unit, ∃ program : Program,
      environment.OnlyBuiltins ∧
      (∀ name value, environment.findVariable name = some value → value.Valid) ∧
      (∀ bytes token, .literal (.text bytes) token ∈ program.body.nodes →
        Text.Utf8.isValid bytes) ∧
      (program.evaluate environment ()).result = .ok (.text [0xC3, 0xA9, 0x41]) ∧
      ∀ colour, Text.Utf8.isValid ((Value.text [0xC3, 0xA9, 0x41]).print colour) := by
  let environment : Environment Unit := (Environment.withBuiltins .empty).withVariables
    [(Text.ascii "x", .object 0 [([0xC3, 0xA9], .text [0xC3, 0xA9, 0x61])])]
  let property : Expr :=
    .member (.identifier (Text.ascii "x") .none) (.literal (.text [0xC3, 0xA9]) .none) true .none
  let program : Program := ⟨.call (Text.ascii "upper") [property] .none, .none⟩
  have only : environment.OnlyBuiltins := rfl
  have bound : ∀ name value, environment.findVariable name = some value → value.Valid := by
    intro name value found
    obtain ⟨-, rfl⟩ := Prod.mk.inj (List.mem_singleton.mp (Fields.mem_of_find? found))
    refine Value.valid_object_iff.mpr fun key inner inside => ?_
    obtain ⟨rfl, rfl⟩ := Prod.mk.inj (List.mem_singleton.mp (Fields.mem_of_find? inside))
    exact ⟨by decide, Value.valid_text_iff.mpr (by decide)⟩
  have literals : ∀ bytes token, .literal (.text bytes) token ∈ program.body.nodes →
      Text.Utf8.isValid bytes := by
    intro bytes token listed
    simp only [program, property, Expr.nodes, Expr.nodes.nodesOfAll, List.mem_cons,
      List.mem_append, List.not_mem_nil, reduceCtorEq, false_or, or_false, Expr.literal.injEq,
      Literal.text.injEq] at listed
    rw [listed.1]
    decide
  have succeeds : (program.evaluate environment ()).result = .ok (.text [0xC3, 0xA9, 0x41]) := by
    decide +kernel
  exact ⟨environment, program, only, bound, literals, succeeds,
    (Program.evaluate_valid only bound literals succeeds).2.2⟩

end Formulary
