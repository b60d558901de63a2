import Formulary.Command.Execute
import Formulary.Proofs.CommandLines

/-!
# Requested sources

Arguments ask for formulas from sources of three kinds: expressions, files and trees.  The options
keep of them the expressions and the last path of each option, and an option whose path is empty is
as good as not given.  So of the sources that count at most one is asked for, and standard input is
left alone if one is; but an option with an empty path keeps neither others nor standard input away.
-/

namespace Formulary
namespace Options

/-- An expression among some arguments, or an option with the path behind it. -/
inductive Request where
  | expression (text : Text)
  | file (option : FileOption) (path : Text)
  deriving DecidableEq

/--
What some arguments ask for, in order.  An option in front of `--` that is followed by a file takes
the argument behind it, and so does the mark of a definition alone; an argument that is taken is
nothing else.
-/
def requests : List Text → List Request
  | [] => []
  | argument :: rest =>
      if !isOption argument then .expression argument :: requests rest
      else if argument = Text.ascii "--" then rest.map .expression
      else
        match spelled? argument fileOptions with
        | some option =>
            match rest with
            | [] => []
            | path :: rest => .file option path :: requests rest
        | none =>
            if argument = definitionMark then
              match rest with
              | [] => []
              | _ :: rest => requests rest
            else requests rest

namespace Request

/-- The expression of a request. -/
def expression? : Request → Option Text
  | expression text => some text
  | file _ _ => none

/-- The path that a request has for an option. -/
def path? (option : FileOption) : Request → Option Text
  | expression _ => none
  | file given path => if given = option then some path else none

end Request

/-- The expressions among some arguments, in order. -/
def requestedExpressions (arguments : List Text) : List Text :=
  (requests arguments).filterMap Request.expression?

/-- The paths that some arguments give for an option, in order. -/
def requestedPaths (option : FileOption) (arguments : List Text) : List Text :=
  (requests arguments).filterMap (Request.path? option)

/-- The path that some arguments give last for an option, empty if they give none. -/
def lastPath (option : FileOption) (arguments : List Text) : Text :=
  (requestedPaths option arguments).getLastD []

/-- The kinds of source that formulas are asked for from. -/
inductive SourceKind where
  | expressions
  | file
  | tree
  deriving DecidableEq

/-- A source of the kind occurs among the arguments. -/
def Occurs (arguments : List Text) : SourceKind → Prop
  | .expressions => requestedExpressions arguments ≠ []
  | .file => requestedPaths .source arguments ≠ []
  | .tree => requestedPaths .tree arguments ≠ []

instance (arguments : List Text) : DecidablePred (Occurs arguments)
  | .expressions => inferInstanceAs (Decidable (requestedExpressions arguments ≠ []))
  | .file => inferInstanceAs (Decidable (requestedPaths .source arguments ≠ []))
  | .tree => inferInstanceAs (Decidable (requestedPaths .tree arguments ≠ []))

/-- A source of the kind counts: the last path of its option is not empty. -/
def Counts (arguments : List Text) : SourceKind → Prop
  | .expressions => requestedExpressions arguments ≠ []
  | .file => lastPath .source arguments ≠ []
  | .tree => lastPath .tree arguments ≠ []

section Requests

variable {options : Options}

/-- Options that keep what some arguments ask for, on top of others. -/
structure Keeps (options : Options) (arguments : List Text) (further : Options) : Prop where
  expressions : further.expressions = options.expressions ++ requestedExpressions arguments
  file (option : FileOption) :
    further.file option = (requestedPaths option arguments).getLastD (options.file option)

private theorem Keeps.of_requests_eq {other further : Options} {arguments rest : List Text}
    (keeps : other.Keeps rest further) (asked : requests arguments = requests rest)
    (expressions : other.expressions = options.expressions)
    (file : ∀ option, other.file option = options.file option) :
    options.Keeps arguments further where
  expressions := by
    rw [keeps.expressions, expressions, requestedExpressions, requestedExpressions, asked]
  file option := by
    rw [keeps.file, file, requestedPaths, requestedPaths, asked]

private theorem Keeps.of_expression {further : Options} {arguments rest : List Text} {text : Text}
    (keeps : (options.withExpression text).Keeps rest further)
    (asked : requests arguments = .expression text :: requests rest) :
    options.Keeps arguments further where
  expressions := by
    rw [keeps.expressions, requestedExpressions, requestedExpressions, asked]
    exact List.append_assoc ..
  file option := by
    rw [keeps.file, requestedPaths, requestedPaths, asked]
    cases option <;> rfl

/-- The path of an option takes the place of the one before it. -/
theorem Keeps.of_file {further : Options} {arguments rest : List Text} {given : FileOption}
    {path : Text} (keeps : (options.withFile path given).Keeps rest further)
    (asked : requests arguments = .file given path :: requests rest) :
    options.Keeps arguments further where
  expressions := by
    rw [keeps.expressions, expressions_withFile, requestedExpressions, requestedExpressions, asked]
    rfl
  file option := by
    rw [keeps.file, file_withFile, requestedPaths, requestedPaths, asked, List.filterMap_cons]
    by_cases same : option = given
    · simp only [Request.path?, same, if_true, List.getLastD_cons]
    · simp only [Request.path?, Ne.symm same, same, if_false]

/-- A definition asks for no source. -/
theorem Keeps.of_definition {definition : Text} {arguments rest : List Text} {further : Options}
    (read : (options.withDefinition definition >>= fun added => parseFrom added rest) = .ok further)
    (later : ∀ added, parseFrom added rest = .ok further → Keeps added rest further)
    (asked : requests arguments = requests rest) : options.Keeps arguments further := by
  rw [withDefinition] at read
  split at read
  · cases read
  · exact (later _ read).of_requests_eq asked rfl fun option => by cases option <;> rfl

/-- Behind `--` nothing but expressions is asked for. -/
theorem keeps_end (options : Options) (rest : List Text) :
    options.Keeps (Text.ascii "--" :: rest)
      { options with expressions := options.expressions ++ rest } := by
  have asked : requests (Text.ascii "--" :: rest) = rest.map .expression := by
    rw [requests.eq_def]
    rfl
  refine ⟨?_, fun option => ?_⟩
  · simp [requestedExpressions, asked, Function.comp_def, Request.expression?]
  · have none_given : requestedPaths option (Text.ascii "--" :: rest) = [] := by
      simp [requestedPaths, asked, Request.path?]
    rw [none_given]
    cases option <;> rfl

/-- What stands alone is followed by no file. -/
theorem fileOption_of_switch {argument : Text} {switch : Switch}
    (spelled : spelled? argument switches = some switch) :
    spelled? argument fileOptions = none ∧ argument ≠ definitionMark := by
  have apart : ∀ entry ∈ switches, spelled? entry.1 fileOptions = none ∧
      entry.1 ≠ definitionMark := by decide
  obtain ⟨before, after, split, -⟩ := List.lookup_eq_some_iff.mp spelled
  exact apart (argument, switch) (by rw [split]; exact List.mem_append_right _ List.mem_cons_self)

/-- Options that are read keep exactly what their arguments ask for. -/
theorem keeps_of_parseFrom {arguments : List Text} {further : Options}
    (read : parseFrom options arguments = .ok further) : options.Keeps arguments further := by
  induction options, arguments using parseFrom.induct with
  | case1 options =>
      rw [parseFrom] at read
      cases read
      exact ⟨(List.append_nil _).symm, fun _ => rfl⟩
  | case2 options argument rest plain induction =>
      rw [parseFrom.eq_def] at read
      simp only [if_pos plain] at read
      refine (induction read).of_expression ?_
      rw [requests.eq_def]
      simp only [if_pos plain]
  | case3 options rest marked =>
      rw [parseFrom_end] at read
      cases read
      exact keeps_end options rest
  | case4 options argument rest marked not_end switch spelled induction =>
      obtain ⟨no_file, not_definition⟩ := fileOption_of_switch spelled
      rw [parseFrom.eq_def] at read
      simp only [if_neg marked, if_neg not_end, spelled] at read
      refine (induction read).of_requests_eq ?_ (options.expressions_withSwitch switch)
        (options.file_withSwitch switch)
      rw [requests.eq_def]
      simp only [if_neg marked, if_neg not_end, no_file, if_neg not_definition]
  | case5 options argument marked not_end no_switch option spelled =>
      rw [parseFrom.eq_def] at read
      simp only [if_neg marked, if_neg not_end, no_switch, spelled] at read
      cases read
  | case6 options argument marked not_end no_switch option spelled path rest induction =>
      rw [parseFrom.eq_def] at read
      simp only [if_neg marked, if_neg not_end, no_switch, spelled] at read
      refine (induction read).of_file ?_
      rw [requests.eq_def]
      simp only [if_neg marked, if_neg not_end, spelled]
  | case7 options marked not_end no_switch no_file =>
      rw [parseFrom.eq_def] at read
      simp only [if_neg marked, if_neg not_end, no_switch, no_file, if_true] at read
      cases read
  | case8 options definition rest marked not_end no_switch no_file induction =>
      rw [parseFrom.eq_def] at read
      simp only [if_neg marked, if_neg not_end, no_switch, no_file, if_true] at read
      refine .of_definition read induction ?_
      rw [requests.eq_def]
      simp only [if_neg marked, if_neg not_end, no_file, if_true]
  | case9 options argument rest marked not_end no_switch no_file longer begins induction =>
      rw [parseFrom.eq_def] at read
      simp only [if_neg marked, if_neg not_end, no_switch, no_file, if_neg longer,
        if_pos begins] at read
      refine .of_definition read induction ?_
      rw [requests.eq_def]
      simp only [if_neg marked, if_neg not_end, no_file, if_neg longer]
  | case10 options argument rest marked not_end no_switch no_file longer other =>
      rw [parseFrom.eq_def] at read
      simp only [if_neg marked, if_neg not_end, no_switch, no_file, if_neg longer,
        if_neg other] at read
      cases read

end Requests

section Accepted

variable {arguments : List Text} {options : Options} (accepted : parse arguments = .ok options)

include accepted

private theorem parse_eq_ok : empty.Keeps arguments options ∧ options.sourceCount ≤ 1 := by
  cases read : parseFrom empty arguments with
  | error error => simp [parse, read, bind, Except.bind] at accepted
  | ok further =>
      simp only [parse, read, bind, Except.bind] at accepted
      split at accepted
      · cases accepted
      · rename_i few
        cases accepted
        exact ⟨keeps_of_parseFrom read, Nat.le_of_not_lt few⟩

private theorem expressions_of_parse : options.expressions = requestedExpressions arguments :=
  (parse_eq_ok accepted).1.expressions

private theorem file_of_parse (option : FileOption) :
    options.file option = lastPath option arguments := by
  rw [(parse_eq_ok accepted).1.file option, lastPath]
  cases option <;> rfl

/-- At most one source counts. -/
theorem counts_unique {kind other : SourceKind} (counts : Counts arguments kind)
    (also : Counts arguments other) : kind = other := by
  have few := (parse_eq_ok accepted).2
  have expressions := expressions_of_parse accepted
  have source : options.sourceFile = lastPath .source arguments := file_of_parse accepted .source
  have tree : options.treeFile = lastPath .tree arguments := file_of_parse accepted .tree
  simp only [sourceCount, expressions, source, tree, List.isEmpty_iff] at few
  cases kind <;> cases other <;> grind [Counts]

end Accepted

/-- The paths of sources have at least one byte each. -/
def NamesSources (arguments : List Text) : Prop :=
  [] ∉ requestedPaths .source arguments ∧ [] ∉ requestedPaths .tree arguments

instance (arguments : List Text) : Decidable (NamesSources arguments) :=
  inferInstanceAs (Decidable ([] ∉ requestedPaths .source arguments ∧ _))

private theorem lastPath_ne_nil {option : FileOption} {arguments : List Text}
    (given : requestedPaths option arguments ≠ []) (named : [] ∉ requestedPaths option arguments) :
    lastPath option arguments ≠ [] := by
  rw [lastPath, List.getLastD_eq_getLast?, List.getLast?_eq_some_getLast given]
  exact fun empty => named (empty ▸ List.getLast_mem given)

private theorem NamesSources.counts {arguments : List Text} (named : NamesSources arguments)
    {kind : SourceKind} (occurs : Occurs arguments kind) : Counts arguments kind := by
  cases kind with
  | expressions => exact occurs
  | file => exact lastPath_ne_nil occurs named.1
  | tree => exact lastPath_ne_nil occurs named.2

end Options

namespace Command

open Options (Counts NamesSources Occurs SourceKind lastPath requestedExpressions)

variable {arguments : List Text} {options : Options}

private theorem runSource_input {around : Surroundings} (session : Session Unit) (input : Text)
    (given : options.expressions ≠ [] ∨ options.sourceFile ≠ [] ∨ options.treeFile ≠ []) :
    runSource options { around with input } session = runSource options around session := by
  simp only [runSource]
  grind

/-- The formulas of a source that counts are run without a look at standard input. -/
theorem execute_input (accepted : Options.parse arguments = .ok options) {kind : SourceKind}
    (counts : Counts arguments kind) (around : Surroundings) (input : Text) :
    execute options { around with input } = execute options around := by
  have expressions := Options.expressions_of_parse accepted
  have source : options.sourceFile = lastPath .source arguments :=
    Options.file_of_parse accepted .source
  have tree : options.treeFile = lastPath .tree arguments := Options.file_of_parse accepted .tree
  have given : options.expressions ≠ [] ∨ options.sourceFile ≠ [] ∨ options.treeFile ≠ [] := by
    rw [expressions, source, tree]
    cases kind with
    | expressions => exact .inl counts
    | file => exact .inr (.inl counts)
    | tree => exact .inr (.inr counts)
  rw [execute, execute]
  simp only [runSource_input _ input given]
  rfl

private theorem runSource_of_none (accepted : Options.parse arguments = .ok options)
    (none_counts : ∀ kind, ¬ Counts arguments kind) (around : Surroundings)
    (session : Session Unit) :
    runSource options around session = .ok (session.runStream around.input ()).1 := by
  have expressions : options.expressions = [] :=
    (Options.expressions_of_parse accepted).trans (not_not.mp (none_counts .expressions))
  have source : options.sourceFile = [] :=
    (Options.file_of_parse accepted .source).trans (not_not.mp (none_counts .file))
  have tree : options.treeFile = [] :=
    (Options.file_of_parse accepted .tree).trans (not_not.mp (none_counts .tree))
  simp [runSource, expressions, source, tree]

/--
The options that are read keep the expressions among their arguments and the last path of each
option.  At most one source counts: the expressions, or an option whose last path is not empty.  A
source that counts is the one that is run, and nothing depends on standard input; if none counts,
standard input is run.  So where no source has an empty path, sources of one kind occur at most, and
no line of standard input is evaluated if any occurs.
-/
theorem requested_source_used (accepted : Options.parse arguments = .ok options) :
    options.expressions = requestedExpressions arguments ∧
    (∀ option, options.file option = lastPath option arguments) ∧
    (∀ kind other, Counts arguments kind → Counts arguments other → kind = other) ∧
    (∀ kind, Counts arguments kind → ∀ around input,
      execute options { around with input } = execute options around) ∧
    ((∀ kind, ¬ Counts arguments kind) → ∀ around session,
      runSource options around session = .ok (session.runStream around.input ()).1) ∧
    (NamesSources arguments →
      (∀ kind other, Occurs arguments kind → Occurs arguments other → kind = other) ∧
      ∀ kind, Occurs arguments kind → ∀ around input,
        execute options { around with input } = execute options around) := by
  refine ⟨Options.expressions_of_parse accepted, Options.file_of_parse accepted,
    fun kind other => Options.counts_unique accepted, fun kind => execute_input accepted,
    runSource_of_none accepted, fun named => ⟨fun kind other occurs also => ?unique,
      fun kind occurs => execute_input accepted (named.counts occurs)⟩⟩
  case unique => exact Options.counts_unique accepted (named.counts occurs) (named.counts also)

/-- A file with the name of an option keeps standard input away. -/
theorem requested_source_used_of_file :
    ∃ options, Options.parse [Text.ascii "-f", Text.ascii "-a", Text.ascii "--"] = .ok options ∧
      Occurs [Text.ascii "-f", Text.ascii "-a", Text.ascii "--"] .file ∧
      ∀ around input, execute options { around with input } = execute options around := by
  let arguments := [Text.ascii "-f", Text.ascii "-a", Text.ascii "--"]
  have accepted : Options.parse arguments =
      .ok { Options.empty with sourceFile := Text.ascii "-a" } := rfl
  obtain ⟨-, -, -, -, -, named⟩ := requested_source_used accepted
  exact ⟨_, accepted, by decide, (named (by decide)).2 .file (by decide)⟩

/-- An empty path leaves the expressions beside it, and without them standard input is run. -/
theorem emptyPath_reads_input :
    (∃ options, Options.parse [Text.ascii "-f", [], Text.ascii "1"] = .ok options) ∧
      Occurs [Text.ascii "-f", [], Text.ascii "1"] .file ∧
      Occurs [Text.ascii "-f", [], Text.ascii "1"] .expressions ∧
      Options.parse [Text.ascii "-f", []] = .ok Options.empty ∧
      Occurs [Text.ascii "-f", []] .file ∧
      (execute Options.empty
        { json := JsonLibrary.absent, read? := fun _ => none, input := Text.ascii "1 + 1\n",
          terminal := false, directory := [], projectRoot := none }).toOption =
        some ⟨true, Text.ascii "2\n", []⟩ := by
  refine ⟨⟨_, rfl⟩, by decide, by decide, rfl, by decide, ?_⟩
  decide +kernel

end Command
end Formulary
