import Formulary.Command.Execute
import Formulary.Proofs.FormulaResults

/-!
# What a command writes

A command whose arguments are rejected, or that names a file which cannot be opened, ends with
status two and writes no output.  Every other command writes what its formulas come to, one behind
the other, and its status says whether all of them have a result.
-/

namespace Formulary

namespace Options

/-- The files that a command names; an empty path stands for no file. -/
def files (options : Options) : List Text :=
  [options.contextFile, options.sourceFile, options.treeFile].filter (· ≠ [])

private theorem mem_files_iff {options : Options} {path : Text} :
    path ∈ options.files ↔
      (path = options.contextFile ∨ path = options.sourceFile ∨ path = options.treeFile) ∧
        path ≠ [] := by
  simp [files]

/-- The command asks for formulas to be run, and for neither tokens nor trees. -/
structure RunsOnly (options : Options) : Prop where
  help : options.showHelp = false
  version : options.showVersion = false
  tokens : options.showTokens = false
  tree : options.showTree = false

end Options

namespace Command

/-- The variables and the functions that formulas see without a context. -/
def environment (options : Options) : Environment Unit :=
  if options.noBuiltins then Environment.empty else Environment.empty.withBuiltins

/-- The session of a command without a project and without variables. -/
def session (options : Options) (around : Surroundings) : Session Unit where
  environment := environment options
  jsonOutput := options.jsonOutput
  writeJson := around.json.dump
  colour := around.terminal
  showTokens := options.showTokens
  showTree := options.showTree

/--
The formulas of a command: the lines of a file, the expressions among its arguments or the lines of
standard input.
-/
def formulas (options : Options) (around : Surroundings) : List Formula :=
  if options.sourceFile ≠ [] then
    Formula.ofLines options.sourceFile 1 ((around.read? options.sourceFile).getD []).lines
  else if options.expressions ≠ [] then
    options.expressions.map (⟨Text.ascii "<expr>", 1, ·⟩)
  else Formula.ofLines Session.streamName 1 around.input.lines

/-- The results of a command's formulas, or the messages in their place. -/
def results (options : Options) (around : Surroundings) : List (Except Text Value) :=
  (formulas options around).map (Formula.result (environment options))

/--
The command reads and writes no JSON: there are no settings and no file of variables; without such
a file that cannot be opened, there are no definitions and no tree; and no result is shown as JSON.
-/
structure NeedsNoJson (options : Options) (around : Surroundings) : Prop where
  settings : ∀ directory ∈ around.projectRoot,
    around.read? (Project.settingsPath directory) = none
  context : options.contextFile ≠ [] → around.read? options.contextFile = none
  definitions : options.contextFile = [] → options.definitions = []
  tree : options.contextFile = [] → options.treeFile ≠ [] → around.read? options.treeFile = none
  shown : options.contextFile = [] → options.treeFile = [] → options.jsonOutput →
    ∀ result ∈ results options around, ∀ value, result ≠ .ok value

/-- A file that the command names cannot be opened. -/
def Unreadable (options : Options) (around : Surroundings) : Prop :=
  ∃ path ∈ options.files, around.read? path = none

section Commands

variable {options : Options} {around : Surroundings}

private theorem configuration_eq (needs_none : NeedsNoJson options around) :
    configuration around = pure none := by
  have settings := needs_none.settings
  rw [configuration]
  cases root : around.projectRoot with
  | none => rfl
  | some directory =>
      rw [root] at settings
      simp only [Configuration.load, settings directory rfl]

private theorem contextFile_none (options : Options) :
    Session.contextFile options none = options.contextFile := by
  rw [Session.contextFile]
  cases options.contextFile <;> rfl

private theorem prepare_of_context (needs_none : NeedsNoJson options around)
    (named : options.contextFile ≠ []) :
    prepare options around = throw (.unreadableContext options.contextFile) := by
  have some_path : options.contextFile.isEmpty = false := by simpa using named
  rw [prepare, configuration_eq needs_none, pure_bind, Session.ofOptions, contextFile_none,
    some_path, Session.loadContext, needs_none.context named]
  rfl

private theorem prepare_of_no_context (needs_none : NeedsNoJson options around)
    (none_named : options.contextFile = []) :
    prepare options around = pure (session options around) := by
  have builtins : (!options.noBuiltins && Configuration.default.builtins) = !options.noBuiltins :=
    Bool.and_true _
  have json : (options.jsonOutput || Configuration.default.jsonOutput) = options.jsonOutput :=
    Bool.or_false _
  have colour : (around.terminal && Configuration.default.colour) = around.terminal :=
    Bool.and_true _
  simp only [prepare, configuration_eq needs_none, Session.ofOptions, contextFile_none, none_named,
    needs_none.definitions none_named, List.isEmpty_nil, if_true, pure_bind,
    Session.loadDefinitions, Option.getD_none, builtins, json, colour]
  cases chosen : options.noBuiltins <;> simp only [session, environment, chosen] <;> rfl

/-- What a command writes about some results. -/
def written (terminal : Bool) (results : List (Except Text Value)) : Report where
  succeeded := results.all Except.isOk
  out := results.flatMap (Formula.shown terminal)
  err := results.flatMap (Formula.told terminal)

private theorem runSource_of_tree (needs_none : NeedsNoJson options around)
    (none_named : options.contextFile = []) (named : options.treeFile ≠ [])
    (session : Session Unit) :
    runSource options around session = .error (.unreadableTree options.treeFile) := by
  have some_tree : (!options.treeFile.isEmpty) = true := by simpa using named
  rw [runSource, if_pos some_tree, needs_none.tree none_named named]

private theorem runSource_of_unreadable (no_tree : options.treeFile = [])
    (named : options.sourceFile ≠ [])
    (unread : around.read? options.sourceFile = none) (session : Session Unit) :
    runSource options around session = .error (.unreadableFormulas options.sourceFile) := by
  have some_file : (!options.sourceFile.isEmpty) = true := by simpa using named
  rw [runSource, if_neg (by simp [no_tree]), if_pos some_file, unread]

/-- The formulas of a source that can be opened are reported in order. -/
theorem runSource_of_readable {session : Session Unit} (undumped : session.Undumped)
    (same : session.environment = environment options) (no_tree : options.treeFile = [])
    (readable : options.sourceFile ≠ [] → around.read? options.sourceFile ≠ none) :
    runSource options around session = .ok (session.reportOf (results options around)) := by
  rw [runSource, if_neg (by simp [no_tree]), results, formulas, ← same]
  by_cases named : options.sourceFile = []
  · rw [if_neg (by simp [named]), if_neg (not_not_intro named)]
    by_cases given : options.expressions = []
    · rw [if_neg (by simp [given]), if_neg (not_not_intro given),
        Session.runStream_eq undumped]
    · rw [if_pos (by simpa using given), if_pos given, Session.runExpressions_eq undumped,
        List.map_map]
      rfl
  · obtain ⟨content, read⟩ := Option.ne_none_iff_exists'.mp (readable named)
    rw [if_pos (by simpa using named), if_pos named, read, Option.getD_some]
    simp only [Session.runFile_eq undumped]

private theorem execute_of_context (needs_none : NeedsNoJson options around)
    (named : options.contextFile ≠ []) :
    execute options around = .error (.unreadableContext options.contextFile) := by
  rw [execute, prepare_of_context needs_none named]
  rfl

private theorem execute_of_no_context (needs_none : NeedsNoJson options around)
    (none_named : options.contextFile = []) :
    execute options around = runSource options around (session options around) := by
  rw [execute, prepare_of_no_context needs_none none_named]
  rfl

/-- A command fails if it names a file that cannot be opened, and otherwise reports its results. -/
theorem execute_cases (runs : options.RunsOnly) (needs_none : NeedsNoJson options around) :
    (Unreadable options around ∧ ∃ error, execute options around = .error error) ∨
      (¬ Unreadable options around ∧
        execute options around = .ok (written around.terminal (results options around))) := by
  by_cases no_context : options.contextFile = []
  case neg =>
    exact .inl ⟨⟨_, Options.mem_files_iff.mpr ⟨.inl rfl, no_context⟩,
      needs_none.context no_context⟩, _, execute_of_context needs_none no_context⟩
  case pos =>
    rw [execute_of_no_context needs_none no_context]
    by_cases no_tree : options.treeFile = []
    case neg =>
      exact .inl ⟨⟨_, Options.mem_files_iff.mpr ⟨.inr (.inr rfl), no_tree⟩,
        needs_none.tree no_context no_tree⟩, _, runSource_of_tree needs_none no_context no_tree _⟩
    case pos =>
      by_cases unread : options.sourceFile ≠ [] ∧ around.read? options.sourceFile = none
      case pos =>
        exact .inl ⟨⟨_, Options.mem_files_iff.mpr ⟨.inr (.inl rfl), unread.1⟩, unread.2⟩, _,
          runSource_of_unreadable no_tree unread.1 unread.2 _⟩
      case neg =>
        right
        constructor
        · rintro ⟨path, listed, path_unread⟩
          obtain ⟨rfl | rfl | rfl, named⟩ := Options.mem_files_iff.mp listed
          · exact named no_context
          · exact unread ⟨named, path_unread⟩
          · exact named no_tree
        · have undumped : (session options around).Undumped := ⟨runs.tokens, runs.tree⟩
          rw [runSource_of_readable undumped rfl no_tree fun named none => unread ⟨named, none⟩,
            Session.reportOf_eq (needs_none.shown no_context no_tree)]
          rfl

private theorem run_of_parsed {arguments : List Text}
    (parsed : Options.parse arguments = .ok options)
    (runs : options.RunsOnly) (errorTerminal : Bool) :
    run arguments around errorTerminal =
      match execute options around with
      | .ok report => ⟨status report, report.out, report.err⟩
      | .error error =>
          ⟨2, [],
            Colour.red.paint errorTerminal (Text.ascii "Error: ") ++ error.message ++
              Text.ascii "\n"⟩ := by
  cases executed : execute options around <;>
    simp only [run, parsed, runs.help, runs.version, executed, Bool.false_eq_true, if_false]

private theorem status_ne_two (report : Report) : status report ≠ 2 := by
  rw [status]
  split <;> decide

end Commands

/--
A command that only runs formulas, without JSON, ends with status two exactly if its arguments are
rejected or it names a file that cannot be opened, and then it writes no output.  Every other
command writes the results of its formulas and the messages in their places, each of them as the
formula has it on its own, and ends with status zero if all formulas have results and one if some
have none.
-/
theorem run_results {arguments : List Text} {around : Surroundings} (errorTerminal : Bool)
    (within : ∀ options, Options.parse arguments = .ok options →
      options.RunsOnly ∧ NeedsNoJson options around) :
    ((run arguments around errorTerminal).status = 2 ↔
      (∃ error, Options.parse arguments = .error error) ∨
        ∃ options, Options.parse arguments = .ok options ∧ Unreadable options around) ∧
    ((run arguments around errorTerminal).status = 2 →
      (run arguments around errorTerminal).out = []) ∧
    ∀ options, Options.parse arguments = .ok options →
      (run arguments around errorTerminal).status ≠ 2 →
        (run arguments around errorTerminal).out =
          (results options around).flatMap (Formula.shown around.terminal) ∧
        (run arguments around errorTerminal).err =
          (results options around).flatMap (Formula.told around.terminal) ∧
        (run arguments around errorTerminal).status =
          if ∀ result ∈ results options around, result.isOk then 0 else 1 := by
  cases parsed : Options.parse arguments with
  | error error =>
      have rejected : run arguments around errorTerminal = ⟨2, [], rejection error⟩ := by
        rw [run, parsed]
      rw [rejected]
      exact ⟨⟨fun _ => .inl ⟨error, rfl⟩, fun _ => rfl⟩, fun _ => rfl, by simp⟩
  | ok options =>
      obtain ⟨runs, needs_none⟩ := within options parsed
      rw [run_of_parsed parsed runs]
      obtain ⟨unreadable, error, failed⟩ | ⟨readable, reported⟩ := execute_cases runs needs_none
      · rw [failed]
        exact ⟨⟨fun _ => .inr ⟨options, rfl, unreadable⟩, fun _ => rfl⟩, fun _ => rfl,
          fun _ _ other => absurd rfl other⟩
      · rw [reported]
        have ran := status_ne_two (written around.terminal (results options around))
        refine ⟨⟨fun two => absurd two ran, ?opened⟩, fun two => absurd two ran, ?reports⟩
        case opened =>
          rintro (⟨_, ⟨⟩⟩ | ⟨_, ⟨⟩, unreadable⟩)
          exact absurd unreadable readable
        case reports =>
          rintro _ ⟨⟩ -
          refine ⟨rfl, rfl, ?_⟩
          simp only [status, written, List.all_eq_true]

/-- A file with a result, a comment, a syntax error and a name that stands for nothing. -/
theorem run_results_of_file :
    ∃ (arguments : List Text) (around : Surroundings) (options : Options),
      Options.parse arguments = .ok options ∧
      around.read? options.sourceFile = some (Text.ascii "1 + 2\n# note\n1 +\nx\n") ∧
      (run arguments around false).status ≠ 2 ∧
      (run arguments around false).out =
        (results options around).flatMap (Formula.shown around.terminal) ∧
      (run arguments around false).err =
        (results options around).flatMap (Formula.told around.terminal) := by
  let options : Options := { Options.empty with sourceFile := Text.ascii "f" }
  let around : Surroundings :=
    ⟨.absent, fun _ => some (Text.ascii "1 + 2\n# note\n1 +\nx\n"), [], false, [], none⟩
  have parsed : Options.parse [Text.ascii "-f", Text.ascii "f"] = .ok options := rfl
  have within : ∀ options, Options.parse [Text.ascii "-f", Text.ascii "f"] = .ok options →
      options.RunsOnly ∧ NeedsNoJson options around := by
    rintro _ ⟨⟩
    exact ⟨⟨rfl, rfl, rfl, rfl⟩, ⟨fun _ => nofun, fun named => absurd rfl named, fun _ => rfl,
      fun _ named => absurd rfl named, fun _ _ => nofun⟩⟩
  obtain ⟨status, -, ran⟩ := run_results false within
  have opened : (run [Text.ascii "-f", Text.ascii "f"] around false).status ≠ 2 := by
    rw [Ne, status]
    rintro (⟨_, ⟨⟩⟩ | ⟨_, ⟨⟩, path, -, unread⟩)
    cases unread
  obtain ⟨out, err, -⟩ := ran options parsed opened
  exact ⟨_, around, options, parsed, rfl, opened, out, err⟩

/-- A formula behind others that have no result is shown as if it stood alone. -/
example :
    (run [Text.ascii "1 +", Text.ascii "x", Text.ascii "'a'"]
      ⟨.absent, fun _ => none, [], false, [], none⟩ false).out = Text.ascii "a\n" := by
  decide +kernel

end Command
end Formulary
