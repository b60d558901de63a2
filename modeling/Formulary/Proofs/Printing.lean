import Formulary.Proofs.EscapeSequences
import Formulary.Proofs.ValidValues

/-!
# Printed values

What is shown of a value is settled by what its keys stand for: an object lists each of its keys
once, in the order of their bytes, so that neither the order of insertion nor a tag can be seen, at
any depth.  Colours are escape sequences around parts of the plain form and nothing else.
-/

namespace Formulary
namespace Value

open Text (Decorates decorates_self escapeMark eraseSequences)

/-- The text is what is shown of a value inside a structure. -/
inductive Shown (colour : Bool) : Value → Text → Prop where
  | null : Shown colour null (Colour.gray.paint colour (Text.ascii "null"))
  | undefined : Shown colour undefined (Colour.gray.paint colour (Text.ascii "undefined"))
  | number (x : Number) : Shown colour (number x) (Colour.yellow.paint colour x.toText)
  | text (bytes : Text) : Shown colour (text bytes) (Colour.green.paint colour (Text.quote bytes))
  | boolean (truth : Bool) :
      Shown colour (boolean truth)
        (Colour.magenta.paint colour (Text.ascii (if truth then "true" else "false")))
  /-- The elements stand between brackets, in their order. -/
  | array {tag : Nat} {elements : List Value} {printed : List Text}
      (lengths : printed.length = elements.length)
      (each : ∀ (index : Nat) element text, elements[index]? = some element →
        printed[index]? = some text → Shown colour element text) :
      Shown colour (array tag elements)
        (Text.ascii "[" ++ List.intercalate (Text.ascii ", ") printed ++ Text.ascii "]")
  | emptyObject {tag : Nat} {entries : Fields Value} (no_keys : ∀ key, ¬ entries.contains key) :
      Shown colour (object tag entries) (Text.ascii "\x7b\x7d")
  /-- The keys stand between braces in increasing order, each with what its value is shown as. -/
  | object {tag : Nat} {entries : Fields Value} {printed : Fields Text} (some_keys : printed ≠ [])
      (sorted : printed.Sorted) (keys : ∀ key, printed.contains key ↔ entries.contains key)
      (each : ∀ key value text, entries.find? key = some value →
        printed.find? key = some text → Shown colour value text) :
      Shown colour (object tag entries)
        (Text.ascii "\x7b " ++
          List.intercalate (Text.ascii ", ")
            (printed.map fun entry =>
              Colour.cyan.paint colour entry.1 ++ Text.ascii ": " ++ entry.2) ++
          Text.ascii " \x7d")

/-- The text is what is shown of a value: on its own, a text is shown as it is. -/
inductive Prints (colour : Bool) : Value → Text → Prop where
  | alone (bytes : Text) : Prints colour (text bytes) bytes
  | shown {value : Value} {printed : Text} (different : ∀ bytes, value ≠ text bytes)
      (shown : Shown colour value printed) : Prints colour value printed

private theorem printInner_object (colour : Bool) (tag : Nat) (entries : Fields Value) :
    (object tag entries).printInner colour =
      braced colour (Fields.mapValues (printInner colour) (Fields.normalize entries)) := by
  rw [printInner, printEntries_eq, Fields.normalize_mapValues]

private theorem printInner_array (colour : Bool) (tag : Nat) (elements : List Value) :
    (array tag elements).printInner colour = bracketed (elements.map (printInner colour)) := by
  rw [printInner, printElements_eq]

private theorem braced_of_ne_nil {colour : Bool} {printed : Fields Text}
    (some_keys : printed ≠ []) : braced colour printed =
      Text.ascii "\x7b " ++
        List.intercalate (Text.ascii ", ")
          (printed.map fun entry =>
            Colour.cyan.paint colour entry.1 ++ Text.ascii ": " ++ entry.2) ++
        Text.ascii " \x7d" := by
  rw [braced, if_neg (by simpa using some_keys)]
  rfl

/-- A table in increasing order, with the same keys and the right texts, is the printed one. -/
theorem eq_of_printed {colour : Bool} {entries : Fields Value} {α : Type} {table : Fields α}
    {text : α → Text} (sorted : table.Sorted)
    (keys : ∀ key, table.contains key ↔ entries.contains key)
    (each : ∀ key value held, entries.find? key = some value → table.find? key = some held →
      text held = value.printInner colour) :
    Fields.mapValues text table =
      Fields.mapValues (printInner colour) (Fields.normalize entries) := by
  refine (sorted.mapValues text).ext ((Fields.sorted_normalize entries).mapValues _) fun key => ?_
  rw [Fields.find?_mapValues, Fields.find?_mapValues, Fields.find?_normalize]
  exact Fields.find?_map_congr (keys key) fun held value there found =>
    each key value held found there

private theorem Shown.eq_printInner {colour : Bool} {value : Value} {printed : Text}
    (shown : Shown colour value printed) : printed = value.printInner colour := by
  induction shown with
  | null | undefined | number | text | boolean => rw [printInner]
  | @array tag elements printed lengths each induction =>
      rw [printInner_array]
      refine congrArg bracketed (List.ext_getElem (by rw [lengths, List.length_map]) ?_)
      intro index below also
      rw [List.getElem_map]
      exact induction index _ _ (List.getElem?_eq_getElem _) (List.getElem?_eq_getElem below)
  | @emptyObject tag entries no_keys =>
      rw [printInner_object, Fields.normalize_eq_nil_iff.mpr no_keys]
      rfl
  | @object tag entries printed some_keys sorted keys each induction =>
      have same : Fields.mapValues id printed = _ := eq_of_printed sorted keys induction
      rw [printInner_object, ← same, ← braced_of_ne_nil some_keys]
      exact congrArg (braced colour) (List.map_id printed).symm

private theorem shown_printInner (colour : Bool) (value : Value) :
    Shown colour value (value.printInner colour) := by
  induction value using nested with
  | null => exact .null
  | undefined => exact .undefined
  | number x => exact .number x
  | text bytes => exact .text bytes
  | boolean truth => exact .boolean truth
  | object tag entries induction =>
      rw [printInner_object]
      by_cases empty : Fields.normalize entries = []
      · rw [empty]
        exact .emptyObject (Fields.normalize_eq_nil_iff.mp empty)
      have some_keys : Fields.mapValues (printInner colour) (Fields.normalize entries) ≠ [] :=
        fun none => empty (List.map_eq_nil_iff.mp none)
      rw [braced_of_ne_nil some_keys]
      refine .object some_keys ((Fields.sorted_normalize entries).mapValues _) (fun key => ?_)
        fun key value printed found listed => ?_
      · rw [Fields.contains_mapValues, Fields.contains_normalize]
      · rw [Fields.find?_mapValues, Fields.find?_normalize, found, Option.map_some] at listed
        cases listed
        exact induction (key, value) (Fields.mem_of_find? found)
  | array tag elements induction =>
      rw [printInner_array]
      refine .array (List.length_map _) fun index element printed found listed => ?_
      rw [List.getElem?_map, found, Option.map_some] at listed
      cases listed
      exact induction element (List.mem_of_getElem? found)

/-- A value is shown in exactly one way, which is the printed one. -/
theorem prints_iff {colour : Bool} {value : Value} {printed : Text} :
    Prints colour value printed ↔ printed = value.print colour := by
  have inside (different : ∀ bytes, value ≠ text bytes) :
      value.print colour = value.printInner colour := by
    cases value with
    | text bytes => exact absurd rfl (different bytes)
    | _ => rfl
  constructor
  · rintro (bytes | ⟨different, shown⟩)
    · rfl
    · rw [inside different, shown.eq_printInner]
  · rintro rfl
    by_cases alone : ∃ bytes, value = text bytes
    · obtain ⟨bytes, rfl⟩ := alone
      exact .alone bytes
    · have different : ∀ bytes, value ≠ text bytes := fun bytes same => alone ⟨bytes, same⟩
      rw [inside different]
      exact .shown different (shown_printInner colour value)

/--
The values are the same up to tags and to the order in which entries were inserted, at any depth.
-/
inductive Alike : Value → Value → Prop where
  | same (value : Value) : Alike value value
  | array {tag tag' : Nat} {elements others : List Value}
      (lengths : elements.length = others.length)
      (each : ∀ (index : Nat) element other, elements[index]? = some element →
        others[index]? = some other → Alike element other) :
      Alike (array tag elements) (array tag' others)
  | object {tag tag' : Nat} {entries others : Fields Value}
      (keys : ∀ key, entries.contains key ↔ others.contains key)
      (each : ∀ key value other, entries.find? key = some value →
        others.find? key = some other → Alike value other) :
      Alike (object tag entries) (object tag' others)

private theorem Alike.printInner_eq {value other : Value} (alike : Alike value other)
    (colour : Bool) : value.printInner colour = other.printInner colour := by
  induction alike with
  | same value => rfl
  | @array tag tag' elements others lengths each induction =>
      rw [printInner_array, printInner_array]
      refine congrArg bracketed (List.ext_getElem (by simpa using lengths) ?_)
      intro index below also
      rw [List.getElem_map, List.getElem_map]
      exact induction index _ _ (List.getElem?_eq_getElem _) (List.getElem?_eq_getElem _)
  | @object tag tag' entries others keys each induction =>
      rw [printInner_object, printInner_object]
      refine congrArg (braced colour)
        (eq_of_printed (Fields.sorted_normalize entries) (fun key => ?_) ?_)
      · rw [Fields.contains_normalize, keys]
      · intro key other value there found
        rw [Fields.find?_normalize] at found
        exact induction key value other found there

private theorem Alike.print_eq {value other : Value} (alike : Alike value other) (colour : Bool) :
    value.print colour = other.print colour := by
  have inside := alike.printInner_eq colour
  cases alike with
  | same value => rfl
  | array | object => exact inside

/-- The entries have the same key and values that look alike. -/
def AlikeEntries (entry other : Text × Value) : Prop :=
  entry.1 = other.1 ∧ Alike entry.2 other.2

/-- The entries are the same in another order, each with a value that looks alike. -/
def Reordered (entries others : Fields Value) : Prop :=
  ∃ moved, entries.Perm moved ∧ List.Forall₂ AlikeEntries moved others

private theorem Reordered.there {entries others : Fields Value}
    (reordered : Reordered entries others)
    {key : Text} {value : Value} (listed : (key, value) ∈ entries) :
    ∃ other, (key, other) ∈ others := by
  obtain ⟨moved, permuted, paired⟩ := reordered
  have turned : List.Forall₂ (flip AlikeEntries) others moved := .flip paired
  obtain ⟨⟨name, other⟩, there, same, -⟩ := exists_partner turned (permuted.mem_iff.mp listed)
  cases same
  exact ⟨other, there⟩

private theorem Reordered.back {entries others : Fields Value}
    (reordered : Reordered entries others)
    {key : Text} {other : Value} (listed : (key, other) ∈ others) :
    ∃ value, (key, value) ∈ entries ∧ Alike value other := by
  obtain ⟨moved, permuted, paired⟩ := reordered
  obtain ⟨⟨name, value⟩, there, same, alike⟩ := exists_partner paired listed
  cases same
  exact ⟨value, permuted.mem_iff.mpr there, alike⟩

/-- Objects that the same entries were inserted into look alike. -/
theorem alike_of_reordered {entries others : Fields Value} (single : entries.SingleValued)
    (reordered : Reordered entries others) (tag tag' : Nat) :
    Alike (object tag (Fields.ofList entries)) (object tag' (Fields.ofList others)) := by
  refine .object (fun key => ?_) fun key value other found there => ?_
  · rw [Fields.contains_ofList_iff, Fields.contains_ofList_iff]
    constructor
    · rintro ⟨value, listed⟩
      exact reordered.there listed
    · rintro ⟨other, listed⟩
      obtain ⟨value, there, -⟩ := reordered.back listed
      exact ⟨value, there⟩
  · obtain ⟨held, listed, alike⟩ := reordered.back (Fields.mem_of_find?_ofList there)
    rwa [single key value held (Fields.mem_of_find?_ofList found) listed]

private theorem escapeMark_notMem_comma : escapeMark ∉ Text.ascii ", " := by decide

private theorem decorates_bracketed {elements : List Value}
    (each : ∀ element ∈ elements,
      Decorates (element.printInner true) (element.printInner false)) :
    Decorates (bracketed (elements.map (printInner true)))
      (bracketed (elements.map (printInner false))) := by
  have joined := Text.decorates_join escapeMark_notMem_comma each
  exact ((decorates_self (by decide)).append joined).append (decorates_self (by decide))

private theorem decorates_braced {entries : Fields Value}
    (each : ∀ entry ∈ entries, escapeMark ∉ entry.1 ∧
      Decorates (entry.2.printInner true) (entry.2.printInner false)) :
    Decorates (braced true (entries.mapValues (printInner true)))
      (braced false (entries.mapValues (printInner false))) := by
  let listed (colour : Bool) (entry : Text × Value) : Text :=
    Colour.cyan.paint colour entry.1 ++ Text.ascii ": " ++ entry.2.printInner colour
  have one (entry : Text × Value) (listed_entry : entry ∈ entries) :
      Decorates (listed true entry) (listed false entry) := by
    obtain ⟨no_mark, inside⟩ := each entry listed_entry
    have key := Colour.cyan.decorates_paint (decorates_self no_mark)
    exact (key.append (decorates_self (by decide))).append inside
  have all := Text.decorates_join escapeMark_notMem_comma one
  have parts (colour : Bool) : (entries.mapValues (printInner colour)).map
      (fun entry => Colour.cyan.paint colour entry.1 ++ Text.ascii ": " ++ entry.2) =
        entries.map (listed colour) := List.map_map
  have empty (colour : Bool) :
      (entries.mapValues (printInner colour)).isEmpty = entries.isEmpty := List.isEmpty_map
  rw [braced, braced, empty, empty, parts, parts]
  split
  · exact decorates_self (by decide)
  · exact ((decorates_self (by decide)).append all).append (decorates_self (by decide))

/-- The texts and keys in the value have no escape marks. -/
def Unmarked (value : Value) : Prop :=
  ∀ stored, value.Stores stored → escapeMark ∉ stored

private theorem Unmarked.decorates {value : Value} (unmarked : value.Unmarked) :
    Decorates (value.printInner true) (value.printInner false) := by
  induction value using nested with
  | null | undefined => exact Colour.gray.decorates_paint (decorates_self (by decide))
  | number x =>
      exact Colour.yellow.decorates_paint (decorates_self x.escapeMark_notMem_toText)
  | text bytes =>
      refine Colour.green.decorates_paint (decorates_self ?_)
      have quoted : Text.quote bytes = [Text.doubleQuote] ++ bytes ++ [Text.doubleQuote] := rfl
      rw [quoted, List.mem_append, List.mem_append, or_assoc]
      exact not_or.mpr ⟨by decide, not_or.mpr ⟨unmarked bytes .itself, by decide⟩⟩
  | boolean truth =>
      exact Colour.magenta.decorates_paint (decorates_self (by cases truth <;> decide))
  | object tag entries induction =>
      rw [printInner_object, printInner_object]
      refine decorates_braced fun (key, value) listed => ?_
      have found := Fields.find?_of_mem_normalize listed
      exact ⟨unmarked key (.key found), induction (key, value) (Fields.mem_of_find? found)
        fun stored inside => unmarked stored (.entry found inside)⟩
  | array tag elements induction =>
      rw [printInner_array, printInner_array]
      exact decorates_bracketed fun element listed => induction element listed
        fun stored inside => unmarked stored (.element listed inside)

private theorem Unmarked.eraseSequences_print {value : Value} (unmarked : value.Unmarked) :
    eraseSequences (value.print true) = value.print false := by
  cases value with
  | text bytes => exact (decorates_self (unmarked bytes .itself)).erased
  | _ => exact unmarked.decorates.erased

/--
What is shown of a value is exactly this: an object lists its keys once each in increasing order,
each with its value.  So values that look alike are shown alike, as objects do that the same
entries were inserted into, in any order and at any depth; and colours can be erased, if neither a
text nor a key has an escape mark in it.
-/
theorem print_canonical (value : Value) :
    (∀ colour printed, value.Prints colour printed ↔ printed = value.print colour) ∧
    (∀ other, Alike value other → ∀ colour, value.print colour = other.print colour) ∧
    (∀ tag tag' entries others, entries.SingleValued → Reordered entries others →
      Alike (object tag (Fields.ofList entries)) (object tag' (Fields.ofList others))) ∧
    (value.Unmarked → eraseSequences (value.print true) = value.print false) :=
  ⟨fun _ _ => prints_iff, fun _ alike => alike.print_eq,
    fun tag tag' _ _ single reordered => alike_of_reordered single reordered tag tag',
    Unmarked.eraseSequences_print⟩

/-- A key that begins with a byte above the ASCII ones comes last. -/
example :
    let inner : Fields Value := [([0xC3, 0xA9], null), (Text.ascii "z", boolean true)]
    (array 0 [object 1 (Fields.ofList inner)]).print false =
      Text.ascii "[\x7b z: true, " ++ [0xC3, 0xA9] ++ Text.ascii ": null \x7d]" := by
  decide

end Value
end Formulary
