import Formulary.Builtin
import Formulary.Command.Options
import Formulary.Command.Project
import Formulary.Document.Programs
import Formulary.Evaluation.Evaluate
import Formulary.Expr.Dump
import Formulary.Token.Listing
import Formulary.Value.Printer

/-!
# Sessions

A session is an environment with the way in which results are shown.  It runs formulas one by one;
each of them writes a result to the output or a message to the error output, and none of them
changes what another one writes.
-/

namespace Formulary

/-- What some formulas wrote, and whether all of them have a result. -/
structure Report where
  succeeded : Bool
  out : Text
  err : Text
  deriving DecidableEq

namespace Report

/-- The report of no formulas. -/
def empty : Report := ⟨true, [], []⟩

/-- Two reports as one. -/
def append (first second : Report) : Report :=
  ⟨first.succeeded && second.succeeded, first.out ++ second.out, first.err ++ second.err⟩

/-- A report behind a text that was written before. -/
def afterOutput (written : Text) (report : Report) : Report :=
  { report with out := written ++ report.out }

end Report

/-- An environment and the way in which results are shown. -/
structure Session (σ : Type) where
  environment : Environment σ
  /-- Results are shown as JSON. -/
  jsonOutput : Bool
  /-- The writer of JSON. -/
  writeJson : Document → Except Text Text
  colour : Bool
  /-- The tokens of a formula are listed before it is evaluated. -/
  showTokens : Bool
  /-- The tree of a formula is dumped before it is evaluated. -/
  showTree : Bool

namespace Session

variable {σ : Type}

/-- The file of variables that a command names, or else the project. -/
def contextFile (options : Options) (configuration : Option Configuration) : Text :=
  if options.contextFile.isEmpty then
    (configuration.map Configuration.contextFile).getD []
  else options.contextFile

section Loading

variable (json : JsonLibrary)

/-- The variables in a file, which are the members of a JSON object. -/
def loadContext (read? : Text → Option Text) (path : Text) : Loading (List (Text × Value)) :=
  match read? path with
  | none => throw (.unreadableContext path)
  | some content =>
      match json.parse content with
      | .error reason => throw (.malformedJson path reason)
      | .ok (.object members) => modifyGet (Document.toValue.toEntries members).run
      | .ok document => throw (.contextNotObject path document.typeName)

/-- The value of a definition: what its text denotes as JSON, or else the text itself. -/
def loadDefinition (text : Text) : Loading Value :=
  match json.parse text with
  | .error _ => pure (.text text)
  | .ok document => modifyGet document.toValue.run

/-- The values of definitions in order. -/
def loadDefinitions : List (Text × Text) → Loading (List (Text × Value))
  | [] => pure []
  | (name, text) :: rest => do
      let value ← loadDefinition json text
      return (name, value) :: (← loadDefinitions rest)

/--
The session of a command in a project.  Options win over settings, and colours need a terminal.  The
variables of a project are laid over those in a file, and definitions over both.
-/
def ofOptions (options : Options) (configuration : Option Configuration) (terminal : Bool)
    (read? : Text → Option Text) : Loading (Session σ) := do
  let path := contextFile options configuration
  let context ← if path.isEmpty then pure [] else loadContext json read? path
  let definitions ← loadDefinitions json options.definitions
  let settings := configuration.getD Configuration.default
  let environment := Environment.ofLists (context ++ settings.bindings ++ definitions) []
  return {
    environment :=
      if !options.noBuiltins && settings.builtins then environment.withBuiltins else environment
    jsonOutput := options.jsonOutput || settings.jsonOutput
    writeJson := json.dump
    colour := terminal && settings.colour
    showTokens := options.showTokens
    showTree := options.showTree }

end Loading

/-- The report of a formula that has no result. -/
def failed (session : Session σ) (message : Text) : Report where
  succeeded := false
  out := []
  err := Colour.red.paint session.colour (Text.ascii "Error: ") ++ message ++ Text.ascii "\n"

/-- The text that shows a result, or the reason, up to a NUL byte, why there is none. -/
def rendered (session : Session σ) (value : Value) : Except Text Text :=
  if session.jsonOutput then (session.writeJson value.toDocument).mapError Text.beforeNul
  else .ok (value.print session.colour)

/-- The report of a formula that has a result. -/
def succeeded (session : Session σ) (value : Value) : Report :=
  match session.rendered value with
  | .ok text => ⟨true, text ++ Text.ascii "\n", []⟩
  | .error reason => session.failed reason

/-- Runs a formula. -/
def runProgram (session : Session σ) (program : Program) : StateM σ Report := fun host =>
  let outcome := program.evaluate session.environment host
  let report :=
    match outcome.result with
    | .ok value => session.succeeded value
    | .error failure => session.failed failure.message
  (report.afterOutput (if session.showTree then program.dump 0 else []), outcome.host)

/-- Runs the program that a file holds as a JSON document of its tree. -/
def runTree (session : Session σ) (json : JsonLibrary) (path content : Text) : StateM σ Report :=
  match json.parse content with
  | .error reason =>
      pure (session.failed
        (Text.ascii "JSON parse error in " ++ path ++ Text.ascii ": " ++ reason.beforeNul))
  | .ok document =>
      match Program.ofDocument document with
      | .error fault =>
          pure (session.failed
            (Text.ascii "Malformed AST in " ++ path ++ Text.ascii ": " ++ fault.message))
      | .ok program => session.runProgram program

/-- Runs a text that begins on a line of a source. -/
def runText (session : Session σ) (source : Source) (file : Text) (line : Int) (text : Text) :
    StateM σ Report :=
  match Token.sequence file line text with
  | .error error => pure (session.failed (error.message (some source)))
  | .ok tokens => do
      let report ←
        match Program.ofTokens tokens with
        | .error error => pure (session.failed (error.message (some source)))
        | .ok program => session.runProgram program
      return report.afterOutput (if session.showTokens then Token.listing tokens else [])

/-- Runs a text that is a source of its own. -/
def runLine (session : Session σ) (file text : Text) : StateM σ Report :=
  session.runText (Source.ofText text) file 1 text

/-- Runs expressions in order. -/
def runExpressions (session : Session σ) : List Text → StateM σ Report
  | [] => pure Report.empty
  | text :: rest => do
      let first ← session.runLine (Text.ascii "<expr>") text
      let others ← runExpressions session rest
      return first.append others

/-- The byte that begins a comment. -/
def commentMark : UInt8 := 35

/-- The spaces in front of which a comment may stand. -/
def isMargin (byte : UInt8) : Bool :=
  byte == Text.blank || byte == Text.tab || byte == Text.carriageReturn

/-- Lines that hold nothing but blanks, tabs and carriage returns, or a comment behind them. -/
def isSkipped (line : Text) : Bool :=
  match line.dropWhile isMargin with
  | [] => true
  | byte :: _ => byte == commentMark

/-- Runs a line of a file or a stream, unless it is skipped. -/
def runNumbered (session : Session σ) (source : Source) (file : Text) (number : Nat)
    (line : Text) : StateM σ Report :=
  if isSkipped line then pure Report.empty else session.runText source file number line

/-- Runs the lines of a source in order, from a number on. -/
def runLinesFrom (session : Session σ) (source : Source) (file : Text) :
    Nat → List Text → StateM σ Report
  | _, [] => pure Report.empty
  | number, line :: rest => do
      let first ← session.runNumbered source file number line
      let others ← runLinesFrom session source file (number + 1) rest
      return first.append others

/-- Runs the lines of a file. -/
def runFile (session : Session σ) (path content : Text) : StateM σ Report :=
  session.runLinesFrom (Source.ofText content) path 1 content.lines

/-- The name of standard input in locations. -/
def streamName : Text := Text.ascii "<stdin>"

/-- Runs the lines of a stream as they arrive, behind those that have arrived before. -/
def runStreamFrom (session : Session σ) : Source → List Text → StateM σ Report
  | _, [] => pure Report.empty
  | source, line :: rest => do
      let (number, source) := source.append line
      let first ← session.runNumbered source streamName number line
      let others ← runStreamFrom session source rest
      return first.append others

/-- Runs the lines of a stream. -/
def runStream (session : Session σ) (content : Text) : StateM σ Report :=
  session.runStreamFrom Source.empty content.lines

end Session
end Formulary
