import Formulary.Command.Session

/-!
# Commands

A command runs the formulas of one source: a tree, a file, the expressions among its arguments, or
else standard input.  Its status is zero if every formula has a result, one if some have none, and
two if the command itself could not be carried out.
-/

namespace Formulary

/-- What a command did. -/
structure CommandResult where
  status : Nat
  out : Text
  err : Text
  deriving DecidableEq

namespace Command

/-- What a command finds around it. -/
structure Surroundings where
  json : JsonLibrary
  /-- What can be read under a path. -/
  read? : Text → Option Text
  /-- Standard input. -/
  input : Text
  /-- Standard output is a terminal. -/
  terminal : Bool
  /-- The absolute path of the current directory. -/
  directory : Text
  /-- The directory of the project. -/
  projectRoot : Option Text

/-- The settings of the project around a command. -/
def configuration (around : Surroundings) : Loading (Option Configuration) :=
  match around.projectRoot with
  | none => pure none
  | some root =>
      Configuration.load around.json around.read? around.directory (Project.settingsPath root)

/-- The session of a command, with nothing but what is loaded for it. -/
def prepare (options : Options) (around : Surroundings) : Loading (Session Unit) := do
  let configuration ← configuration around
  Session.ofOptions around.json options configuration around.terminal around.read?

/-- The options name no source of formulas, so that they are read from standard input. -/
def readsInput (options : Options) : Bool :=
  options.sourceCount == 0

/-- Runs the formulas of the source that some options name. -/
def runSource (options : Options) (around : Surroundings) (session : Session Unit) :
    Except UsageError Report :=
  if !options.treeFile.isEmpty then
    match around.read? options.treeFile with
    | none => .error (.unreadableTree options.treeFile)
    | some content => .ok (session.runTree around.json options.treeFile content ()).1
  else if !options.sourceFile.isEmpty then
    match around.read? options.sourceFile with
    | none => .error (.unreadableFormulas options.sourceFile)
    | some content => .ok (session.runFile options.sourceFile content ()).1
  else if !options.expressions.isEmpty then
    .ok (session.runExpressions options.expressions ()).1
  else .ok (session.runStream around.input ()).1

/-- Runs the formulas of a command. -/
def execute (options : Options) (around : Surroundings) : Except UsageError Report := do
  let session ← (prepare options around).run' 0
  runSource options around session

/-- The status of a command that ran its formulas. -/
def status (report : Report) : Nat :=
  if report.succeeded then 0 else 1

/-- How the command is used. -/
def usage : Text :=
  Text.ascii <|
    "Usage: formula [options] [expression...]\n" ++
    "Options:\n" ++
    "  -c, --context FILE   JSON object used as the evaluation context\n" ++
    "  -f, --file FILE      Evaluate each non-empty, non-'#' line of FILE\n" ++
    "  -a, --ast FILE       Evaluate an ESTree-shaped JSON AST\n" ++
    "  -D name=value        Add or override one context variable (JSON, else string)\n" ++
    "  -j, --json           Print results as JSON\n" ++
    "      --no-builtins    Do not register the builtin functions\n" ++
    "      --tokens         Dump tokens before evaluating\n" ++
    "      --print-ast      Dump the parsed AST before evaluating\n" ++
    "  -v, --version        Print version and exit\n" ++
    "  -h, --help           Show this help message\n" ++
    "\n" ++
    "Without an expression, --file or --ast, formulas are read from stdin one per line.\n" ++
    "Settings may also come from a formula.json in this or any parent directory.\n" ++
    "If an expression starts with '-', use `--` to end options:\n" ++
    "  formula -- '-price * qty'\n"

/-- The version of the command. -/
def version : Text := Text.ascii "formula v0.1.0\n"

/-- What the command writes about arguments it rejects. -/
def rejection (error : UsageError) : Text :=
  Text.ascii "formula: " ++ error.message ++
    Text.ascii "\nTry 'formula --help' for more information.\n"

/-- The whole command; `errorTerminal` tells that standard error is a terminal. -/
def run (arguments : List Text) (around : Surroundings) (errorTerminal : Bool) : CommandResult :=
  match Options.parse arguments with
  | .error error => ⟨2, [], rejection error⟩
  | .ok options =>
      if options.showHelp then ⟨0, usage, []⟩
      else if options.showVersion then ⟨0, version, []⟩
      else
        match execute options around with
        | .ok report => ⟨status report, report.out, report.err⟩
        | .error error =>
            ⟨2, [],
              Colour.red.paint errorTerminal (Text.ascii "Error: ") ++ error.message ++
                Text.ascii "\n"⟩

end Command
end Formulary
