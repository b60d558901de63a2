import Mathlib.Data.List.Basic
import Formulary.Command.Options

/-!
# Command lines

Options are written as groups of arguments, one group for every option that is given, with
expressions among them and more expressions behind `--`.  Whatever the order of the groups, and
whatever the texts of files, values and expressions look like, the arguments are read as the options
that they write.
-/

namespace Formulary
namespace Options

/-- The options that stand alone. -/
def Switch.all : List Switch :=
  [.help, .version, .json, .noBuiltins, .tokens, .tree]

/-- The options that are followed by a file. -/
def FileOption.all : List FileOption :=
  [.context, .source, .tree]

/-- An option that stands alone is given. -/
def has (options : Options) : Switch → Bool
  | .help => options.showHelp
  | .version => options.showVersion
  | .json => options.jsonOutput
  | .noBuiltins => options.noBuiltins
  | .tokens => options.showTokens
  | .tree => options.showTree

/-- The file of an option, empty if it is not given. -/
def file (options : Options) : FileOption → Text
  | .context => options.contextFile
  | .source => options.sourceFile
  | .tree => options.treeFile

/-- Arguments that are read together. -/
inductive Group where
  /-- An option that stands alone, in one of its spellings. -/
  | switch (given : Switch) (spelling : Text) (spelled : (spelling, given) ∈ switches)
  /-- An option in one of its spellings, and the file behind it. -/
  | file (option : FileOption) (path spelling : Text) (spelled : (spelling, option) ∈ fileOptions)
  /-- A definition in the argument of its mark, or in the one behind it. -/
  | definition (name value : Text) (attached : Bool)
  /-- An expression that does not begin with a minus sign. -/
  | expression (text : Text) (plain : text.head? ≠ some Text.minusSign)

/-- The text of a definition. -/
def definitionText (name value : Text) : Text :=
  name ++ equalsSign :: value

/-- A name that can be given a value on a command line. -/
def IsName (name : Text) : Prop :=
  name ≠ [] ∧ equalsSign ∉ name

namespace Group

/-- The arguments of a group. -/
def arguments : Group → List Text
  | .switch _ spelling _ => [spelling]
  | .file _ path spelling _ => [spelling, path]
  | .definition name value true => [definitionMark ++ definitionText name value]
  | .definition name value false => [definitionMark, definitionText name value]
  | .expression text _ => [text]

/-- The option that stands alone in a group. -/
def switch? : Group → Option Switch
  | .switch given _ _ => some given
  | _ => none

/-- The option of a group with its file. -/
def file? : Group → Option (FileOption × Text)
  | .file option path _ _ => some (option, path)
  | _ => none

/-- The name and the value of a group. -/
def definition? : Group → Option (Text × Text)
  | .definition name value _ => some (name, value)
  | _ => none

/-- The expression of a group. -/
def expression? : Group → Option Text
  | .expression text _ => some text
  | _ => none

end Group

/-- The arguments of some groups and, behind `--`, the expressions that follow them, if any do. -/
def commandLine (groups : List Group) : Option (List Text) → List Text
  | none => groups.flatMap Group.arguments
  | some behind => groups.flatMap Group.arguments ++ Text.ascii "--" :: behind

/-- The options that can be written: names are names, and at most one source is given. -/
structure Writable (options : Options) : Prop where
  names : ∀ definition ∈ options.definitions, IsName definition.1
  one_source : options.sourceCount ≤ 1

/--
The groups and the expressions behind them write the options: one group for every option that is
given, in any order, and definitions and expressions in their own order.
-/
structure Writes (options : Options) (groups : List Group) (behind : Option (List Text)) :
    Prop where
  switches : (groups.filterMap Group.switch?).Perm (Switch.all.filter options.has)
  files : (groups.filterMap Group.file?).Perm
    ((FileOption.all.filter fun option => !(options.file option).isEmpty).map fun option =>
      (option, options.file option))
  definitions : groups.filterMap Group.definition? = options.definitions
  expressions : groups.filterMap Group.expression? ++ behind.getD [] = options.expressions

section Arguments

variable (options : Options) (rest : List Text)

private theorem parseFrom_of_expression {argument : Text} (unmarked : isOption argument = false) :
    parseFrom options (argument :: rest) = parseFrom (options.withExpression argument) rest := by
  rw [parseFrom.eq_def]
  simp only [unmarked, Bool.not_false, if_true]

/-- Behind `--` all arguments are expressions. -/
theorem parseFrom_end :
    parseFrom options (Text.ascii "--" :: rest) =
      .ok { options with expressions := options.expressions ++ rest } := by
  rw [parseFrom.eq_def]
  simp only [show isOption (Text.ascii "--") = true by decide, Bool.not_true, Bool.false_eq_true,
    if_false, if_true]

/-- Every option that stands alone is read by its spelling. -/
theorem switch_spelled : ∀ entry ∈ switches, isOption entry.1 ∧ entry.1 ≠ Text.ascii "--" ∧
    spelled? entry.1 switches = some entry.2 := by
  decide

private theorem parseFrom_of_switch {spelling : Text} {given : Switch}
    (spelled : (spelling, given) ∈ switches) :
    parseFrom options (spelling :: rest) = parseFrom (options.withSwitch given) rest := by
  obtain ⟨marked, not_end, found⟩ := switch_spelled _ spelled
  rw [parseFrom.eq_def]
  simp only [marked, found, Bool.not_true, Bool.false_eq_true, if_false, if_neg not_end]

/-- Every option that is followed by a file is read by its spelling. -/
theorem fileOption_spelled : ∀ entry ∈ fileOptions, isOption entry.1 ∧
    entry.1 ≠ Text.ascii "--" ∧ spelled? entry.1 switches = none ∧
      spelled? entry.1 fileOptions = some entry.2 := by
  decide

private theorem parseFrom_of_file {spelling : Text} {option : FileOption}
    (spelled : (spelling, option) ∈ fileOptions) (path : Text) :
    parseFrom options (spelling :: path :: rest) =
      parseFrom (options.withFile path option) rest := by
  obtain ⟨marked, not_end, no_switch, found⟩ := fileOption_spelled _ spelled
  rw [parseFrom.eq_def]
  simp only [marked, no_switch, found, Bool.not_true, Bool.false_eq_true, if_false, if_neg not_end]

/-- No argument that begins with the mark of a definition is the spelling of another option. -/
theorem spelled?_definitionMark {α : Type} {spellings : List (Text × α)}
    (apart : ∀ entry ∈ spellings, ¬ definitionMark <+: entry.1) (text : Text) :
    spelled? (definitionMark ++ text) spellings = none := by
  rw [spelled?, List.lookup_eq_none_iff]
  intro entry listed
  rw [bne_iff_ne]
  intro same
  exact apart entry listed (same ▸ List.prefix_append definitionMark text)

private theorem switch_definitionMark (text : Text) :
    spelled? (definitionMark ++ text) switches = none :=
  spelled?_definitionMark (by decide) text

private theorem fileOption_definitionMark (text : Text) :
    spelled? (definitionMark ++ text) fileOptions = none :=
  spelled?_definitionMark (by decide) text

private theorem parseFrom_of_definition {definition : Text} {further : Options}
    (added : options.withDefinition definition = .ok further) :
    parseFrom options (definitionMark :: definition :: rest) = parseFrom further rest := by
  have no_switch := switch_definitionMark []
  have no_file := fileOption_definitionMark []
  rw [List.append_nil] at no_switch no_file
  rw [parseFrom.eq_def]
  simp only [show isOption definitionMark = true by decide, no_switch, no_file, Bool.not_true,
    Bool.false_eq_true, if_false, if_true, if_neg (show definitionMark ≠ Text.ascii "--" by decide),
    added]
  rfl

private theorem parseFrom_of_attached {definition : Text} {further : Options}
    (some_text : definition ≠ []) (added : options.withDefinition definition = .ok further) :
    parseFrom options ((definitionMark ++ definition) :: rest) = parseFrom further rest := by
  have no_switch := switch_definitionMark definition
  have no_file := fileOption_definitionMark definition
  have marked : isOption (definitionMark ++ definition) = true := rfl
  have not_end : definitionMark ++ definition ≠ Text.ascii "--" := fun same =>
    absurd (congrArg (·[1]?) same) (by decide : some (68 : UInt8) ≠ some 45)
  have longer : definitionMark ++ definition ≠ definitionMark := fun same =>
    some_text (List.append_right_eq_self.mp same)
  have begins : definitionMark.isPrefixOf (definitionMark ++ definition) = true :=
    List.isPrefixOf_iff_prefix.mpr (List.prefix_append ..)
  rw [parseFrom.eq_def]
  simp only [marked, no_switch, no_file, begins, Bool.not_true, Bool.false_eq_true, if_false,
    if_true, if_neg not_end, if_neg longer, List.drop_left, added]
  rfl

end Arguments

/-- The options with what a group adds to them. -/
def withGroup (options : Options) : Group → Options
  | .switch given _ _ => options.withSwitch given
  | .file option path _ _ => options.withFile path option
  | .definition name value _ =>
      { options with definitions := options.definitions ++ [(name, value)] }
  | .expression text _ => options.withExpression text

/-- A definition is split behind its name, whatever its value is. -/
theorem withDefinition_definitionText (options : Options) {name : Text} (is_name : IsName name)
    (value : Text) (attached : Bool) :
    options.withDefinition (definitionText name value) =
      .ok (options.withGroup (.definition name value attached)) := by
  have different : ∀ byte ∈ name, (byte != equalsSign) = true := fun byte member =>
    bne_iff_ne.mpr fun same => is_name.2 (same ▸ member)
  have front : (definitionText name value).takeWhile (· != equalsSign) = name := by
    rw [definitionText, List.takeWhile_append_of_pos different]
    simp
  have longer : (name.length == (definitionText name value).length) = false := by
    simp [definitionText]
  have some_byte : name.isEmpty = false := List.isEmpty_eq_false_iff.mpr is_name.1
  have behind : (definitionText name value).drop (name.length + 1) = value := by
    rw [definitionText, ← List.drop_drop, List.drop_left, List.drop_one, List.tail_cons]
  simp only [withDefinition, front, longer, some_byte, behind, Bool.or_self, Bool.false_eq_true,
    if_false, withGroup]

/-- The arguments of a group are read together, whatever follows them. -/
theorem parseFrom_group (options : Options) (group : Group) (rest : List Text)
    (names : ∀ definition ∈ group.definition?, IsName definition.1) :
    parseFrom options (group.arguments ++ rest) = parseFrom (options.withGroup group) rest := by
  cases group with
  | switch given spelling spelled => exact options.parseFrom_of_switch rest spelled
  | file option path spelling spelled => exact options.parseFrom_of_file rest spelled path
  | definition name value attached =>
      have added := options.withDefinition_definitionText (names _ rfl) value attached
      cases attached with
      | true => exact options.parseFrom_of_attached rest (by simp [definitionText]) added
      | false => exact options.parseFrom_of_definition rest added
  | expression text plain =>
      have unmarked : isOption text = false := by
        rw [isOption, Bool.and_eq_false_iff, beq_eq_false_iff_ne]
        exact .inl plain
      exact options.parseFrom_of_expression rest unmarked

/-- The options with what some groups add to them, and with more expressions behind. -/
def withGroups (options : Options) (groups : List Group) (behind : List Text) : Options :=
  let grouped := groups.foldl withGroup options
  { grouped with expressions := grouped.expressions ++ behind }

private theorem withGroups_cons (options : Options) (group : Group) (groups : List Group)
    (behind : List Text) :
    options.withGroups (group :: groups) behind =
      (options.withGroup group).withGroups groups behind := rfl

private theorem parseFrom_commandLine (options : Options) (groups : List Group)
    (behind : Option (List Text))
    (names : ∀ definition ∈ groups.filterMap Group.definition?, IsName definition.1) :
    parseFrom options (commandLine groups behind) =
      .ok (options.withGroups groups (behind.getD [])) := by
  induction groups generalizing options with
  | nil =>
      cases behind with
      | none =>
          rw [commandLine, Option.getD_none, withGroups, List.foldl_nil, List.append_nil]
          exact parseFrom.eq_1 options
      | some texts => exact options.parseFrom_end texts
  | cons group groups induction =>
      have here : ∀ definition ∈ group.definition?, IsName definition.1 := fun definition found =>
        names definition (List.mem_filterMap.mpr ⟨group, List.mem_cons_self, found⟩)
      have later : ∀ definition ∈ groups.filterMap Group.definition?, IsName definition.1 := by
        intro definition listed
        obtain ⟨other, member, found⟩ := List.mem_filterMap.mp listed
        exact names definition
          (List.mem_filterMap.mpr ⟨other, List.mem_cons_of_mem group member, found⟩)
      have split : commandLine (group :: groups) behind =
          group.arguments ++ commandLine groups behind := by
        cases behind with
        | none => exact List.flatMap_cons
        | some texts => rw [commandLine, commandLine, List.flatMap_cons, List.append_assoc]
      rw [split, parseFrom_group options group _ here, induction (options.withGroup group) later,
        withGroups_cons]

section Parts

variable (options : Options)

@[simp]
theorem has_withSwitch (given switch : Switch) :
    (options.withSwitch given).has switch = (options.has switch || decide (switch = given)) := by
  cases given <;> cases switch <;> simp [withSwitch, has]

@[simp]
theorem file_withSwitch (given : Switch) (option : FileOption) :
    (options.withSwitch given).file option = options.file option := by
  cases given <;> rfl

@[simp]
theorem definitions_withSwitch (given : Switch) :
    (options.withSwitch given).definitions = options.definitions := by
  cases given <;> rfl

@[simp]
theorem expressions_withSwitch (given : Switch) :
    (options.withSwitch given).expressions = options.expressions := by
  cases given <;> rfl

@[simp]
theorem has_withFile (path : Text) (option : FileOption) (switch : Switch) :
    (options.withFile path option).has switch = options.has switch := by
  cases option <;> rfl

@[simp]
theorem file_withFile (path : Text) (given option : FileOption) :
    (options.withFile path given).file option =
      if option = given then path else options.file option := by
  cases given <;> cases option <;> rfl

@[simp]
theorem definitions_withFile (path : Text) (option : FileOption) :
    (options.withFile path option).definitions = options.definitions := by
  cases option <;> rfl

@[simp]
theorem expressions_withFile (path : Text) (option : FileOption) :
    (options.withFile path option).expressions = options.expressions := by
  cases option <;> rfl

/-- Options are made of their expressions, their definitions, their files and their switches. -/
theorem eq_of_parts {options other : Options}
    (expressions : options.expressions = other.expressions)
    (definitions : options.definitions = other.definitions)
    (files : ∀ option, options.file option = other.file option)
    (switches : ∀ switch, options.has switch = other.has switch) : options = other := by
  obtain ⟨_, _, _, _, _, _, _, _, _, _, _⟩ := options
  obtain ⟨_, _, _, _, _, _, _, _, _, _, _⟩ := other
  obtain rfl := expressions
  obtain rfl := definitions
  obtain rfl := files .context
  obtain rfl := files .source
  obtain rfl := files .tree
  obtain rfl := switches .help
  obtain rfl := switches .version
  obtain rfl := switches .json
  obtain rfl := switches .noBuiltins
  obtain rfl := switches .tokens
  obtain rfl := switches .tree
  rfl

end Parts

section Groups

variable (options : Options) (groups : List Group) (behind : List Text)

private theorem has_withGroups (switch : Switch) :
    (options.withGroups groups behind).has switch =
      (options.has switch || (groups.filterMap Group.switch?).contains switch) := by
  induction groups generalizing options with
  | nil => cases switch <;> simp [withGroups, has]
  | cons group groups induction =>
      rw [withGroups_cons, induction]
      cases group with
      | switch given _ _ => simp [withGroup, Group.switch?, Bool.or_assoc]
      | file option path _ _ => simp [withGroup, Group.switch?, List.filterMap_cons]
      | definition | expression => cases switch <;> rfl

/-- The file of an option is listed, or the option is not listed and keeps its file. -/
theorem file_withGroups (option : FileOption) :
    (option, (options.withGroups groups behind).file option) ∈ groups.filterMap Group.file? ∨
      ((options.withGroups groups behind).file option = options.file option ∧
        ∀ path, (option, path) ∉ groups.filterMap Group.file?) := by
  induction groups generalizing options with
  | nil => exact .inr ⟨by cases option <;> rfl, by simp⟩
  | cons group groups induction =>
      rw [withGroups_cons]
      obtain listed | ⟨kept, absent⟩ := induction (options.withGroup group)
      · left
        obtain ⟨other, member, found⟩ := List.mem_filterMap.mp listed
        exact List.mem_filterMap.mpr ⟨other, List.mem_cons_of_mem group member, found⟩
      · rw [kept]
        cases group with
        | file given path _ _ =>
            by_cases same : option = given
            · subst same
              left
              simp [withGroup, Group.file?]
            · right
              simpa [withGroup, Group.file?, same] using absent
        | switch given _ _ => exact .inr ⟨options.file_withSwitch given option, absent⟩
        | definition | expression => exact .inr ⟨by cases option <;> rfl, absent⟩

private theorem definitions_withGroups :
    (options.withGroups groups behind).definitions =
      options.definitions ++ groups.filterMap Group.definition? := by
  induction groups generalizing options with
  | nil => exact (List.append_nil _).symm
  | cons group groups induction =>
      rw [withGroups_cons, induction]
      cases group <;> simp [withGroup, Group.definition?, withExpression, List.filterMap_cons]

private theorem expressions_withGroups :
    (options.withGroups groups behind).expressions =
      options.expressions ++ groups.filterMap Group.expression? ++ behind := by
  induction groups generalizing options with
  | nil => simp [withGroups]
  | cons group groups induction =>
      rw [withGroups_cons, induction]
      cases group <;> simp [withGroup, Group.expression?, withExpression, List.filterMap_cons]

end Groups

namespace Writes

variable {options : Options} {groups : List Group} {behind : Option (List Text)}
variable (writes : options.Writes groups behind)

include writes

private theorem switch_listed (switch : Switch) :
    (groups.filterMap Group.switch?).contains switch = options.has switch := by
  have every : switch ∈ Switch.all := by cases switch <;> decide
  rw [Bool.eq_iff_iff, List.contains_iff_mem, writes.switches.mem_iff, List.mem_filter]
  exact and_iff_right every

private theorem file_listed (option : FileOption) (path : Text) :
    (option, path) ∈ groups.filterMap Group.file? ↔
      options.file option ≠ [] ∧ path = options.file option := by
  have every : option ∈ FileOption.all := by cases option <;> decide
  rw [writes.files.mem_iff, List.mem_map]
  constructor
  · rintro ⟨other, listed, same⟩
    obtain ⟨rfl, rfl⟩ := Prod.mk.inj same
    exact ⟨by simpa using (List.mem_filter.mp listed).2, rfl⟩
  · rintro ⟨given, rfl⟩
    exact ⟨option, List.mem_filter.mpr ⟨every, by simpa using given⟩, rfl⟩

/-- On top of no options the groups add up to the options that they write. -/
theorem withGroups_empty : empty.withGroups groups (behind.getD []) = options := by
  refine eq_of_parts ?expressions ?definitions (fun option => ?file) (fun switch => ?switch)
  case expressions =>
    rw [expressions_withGroups, List.append_assoc, writes.expressions]
    rfl
  case definitions =>
    rw [definitions_withGroups, writes.definitions]
    rfl
  case file =>
    obtain listed | ⟨kept, absent⟩ := file_withGroups empty groups (behind.getD []) option
    · exact ((writes.file_listed option _).mp listed).2
    · have none_given : options.file option = [] := Decidable.not_not.mp fun given =>
        absent _ ((writes.file_listed option _).mpr ⟨given, rfl⟩)
      rw [kept, none_given]
      cases option <;> rfl
  case switch =>
    have none_given : empty.has switch = false := by cases switch <;> rfl
    rw [has_withGroups, none_given, Bool.false_or, writes.switch_listed]

end Writes

/-- The shortest spelling of an option that stands alone. -/
def Switch.spelling : Switch → Text
  | .help => Text.ascii "-h"
  | .version => Text.ascii "-v"
  | .json => Text.ascii "-j"
  | .noBuiltins => Text.ascii "--no-builtins"
  | .tokens => Text.ascii "--tokens"
  | .tree => Text.ascii "--print-ast"

private theorem Switch.spelled (switch : Switch) : (switch.spelling, switch) ∈ switches := by
  cases switch <;> decide

/-- The shortest spelling of an option that is followed by a file. -/
def FileOption.spelling : FileOption → Text
  | .context => Text.ascii "-c"
  | .source => Text.ascii "-f"
  | .tree => Text.ascii "-a"

private theorem FileOption.spelled (option : FileOption) :
    (option.spelling, option) ∈ fileOptions := by
  cases option <;> decide

/-- A group for every option that is given and for every definition. -/
def groupsOf (options : Options) : List Group :=
  (Switch.all.filter options.has).map (fun given => .switch given given.spelling given.spelled) ++
    (FileOption.all.filter fun option => !(options.file option).isEmpty).map (fun option =>
      .file option (options.file option) option.spelling option.spelled) ++
    options.definitions.map fun definition => .definition definition.1 definition.2 false

private theorem writes_groupsOf (options : Options) :
    options.Writes (groupsOf options) (some options.expressions) where
  switches := by simp [groupsOf, Function.comp_def, Group.switch?]
  files := by simp [groupsOf, Function.comp_def, Group.file?]
  definitions := by simp [groupsOf, Function.comp_def, Group.definition?]
  expressions := by simp [groupsOf, Function.comp_def, Group.expression?]

/--
All options that name at most one source and give values to names only can be written as arguments,
and they are read back from every way to write them: from groups in any order, with expressions that
do not begin with a minus sign between them, and with any other expressions behind `--`.
-/
theorem parse_commandLine {options : Options} (writable : options.Writable) :
    (∃ groups behind, options.Writes groups behind) ∧
    ∀ groups behind, options.Writes groups behind →
      parse (commandLine groups behind) = .ok options := by
  refine ⟨⟨_, _, options.writes_groupsOf⟩, fun groups behind writes => ?_⟩
  have names : ∀ definition ∈ groups.filterMap Group.definition?, IsName definition.1 := by
    rw [writes.definitions]
    exact writable.names
  have one_source : ¬ 1 < options.sourceCount := Nat.not_lt.mpr writable.one_source
  rw [parse, parseFrom_commandLine empty groups behind names, writes.withGroups_empty]
  simp only [bind, Except.bind, if_neg one_source]

/-- Texts that look like options are read as a file, as values and as an expression. -/
theorem parse_commandLine_of_marked :
    ∃ (options : Options) (groups : List Group) (behind : Option (List Text)),
      options.Writable ∧ options.Writes groups behind ∧
      commandLine groups behind =
        [Text.ascii "a", Text.ascii "-Dx=-c=", Text.ascii "--context", Text.ascii "--",
          Text.ascii "-D", Text.ascii "y=", Text.ascii "-j", Text.ascii "--", Text.ascii "-x"] ∧
      parse (commandLine groups behind) = .ok options := by
  let options : Options :=
    { empty with
      expressions := [Text.ascii "a", Text.ascii "-x"]
      contextFile := Text.ascii "--"
      definitions := [(Text.ascii "x", Text.ascii "-c="), (Text.ascii "y", [])]
      jsonOutput := true }
  let groups : List Group :=
    [.expression (Text.ascii "a") (by decide),
      .definition (Text.ascii "x") (Text.ascii "-c=") true,
      .file .context (Text.ascii "--") (Text.ascii "--context") (by decide),
      .definition (Text.ascii "y") [] false, .switch .json (Text.ascii "-j") (by decide)]
  have writable : options.Writable := ⟨by unfold IsName; decide, by decide⟩
  have writes : options.Writes groups (some [Text.ascii "-x"]) :=
    ⟨by decide, by decide, by decide, by decide⟩
  exact ⟨options, groups, _, writable, writes, by decide,
    (parse_commandLine writable).2 groups _ writes⟩

end Options
end Formulary
