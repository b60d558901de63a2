import Formulary.Proofs.Relocation
import Formulary.Proofs.Streams

/-!
# The results of formulas

Whether a formula stands alone, on a line of a file or on a line of a stream, it has the result that
it has alone.  If it has none, it has the message that it has alone, told of its own file and line.
So a session reports its formulas one by one, whatever stands around them.
-/

namespace Formulary

/-- Why a text has no result. -/
inductive Problem where
  /-- It is no formula. -/
  | syntactic (error : SyntaxError)
  /-- It is a formula that fails. -/
  | failed (failure : Failure)

namespace Problem

/-- The message of a problem; that of an error quotes its line from a source. -/
def message (source : Source) : Problem → Text
  | syntactic error => error.message (some source)
  | failed failure => failure.message

/-- The problem of a text that begins so many lines further down. -/
def movedDown (count : Int) : Problem → Problem
  | syntactic error => syntactic (error.movedDown count)
  | failed failure => failed failure

end Problem

/--
The result of a text that is read and evaluated.  A text of its own begins on line one of its file.
-/
def Program.resultOf (environment : Environment Unit) (file : Text) (firstLine : Int)
    (text : Text) : Except Problem Value :=
  match ofText file firstLine text with
  | .error error => .error (.syntactic error)
  | .ok program => (program.evaluate environment ()).result.mapError .failed

/-- On which line a text begins changes no result, and of a problem it changes the line only. -/
theorem Program.resultOf_movedDown (environment : Environment Unit) (file : Text)
    (firstLine count : Int) (text : Text) :
    resultOf environment file (firstLine + count) text =
      (resultOf environment file firstLine text).mapError (Problem.movedDown count) := by
  have moved : Moved Unit count (ofText file firstLine text)
      (ofText file (firstLine + count) text) := ofText_movedDown count file firstLine text
  rw [resultOf, resultOf]
  generalize ofText file firstLine text = parsed at moved ⊢
  generalize ofText file (firstLine + count) text = also_parsed at moved ⊢
  cases moved with
  | error => rfl
  | @ok program other same =>
      simp only [evaluate, same.evaluate]
      cases (other.body.evaluate environment ()).result <;> rfl

/-- A formula with the name of its source and the number of the line that it begins on. -/
structure Formula where
  file : Text
  number : Nat
  text : Text

namespace Formula

/--
The result of a formula, or the message in its place: what the text comes to on its own, with the
number of its line in place of line one.
-/
def result (environment : Environment Unit) (formula : Formula) : Except Text Value :=
  (Program.resultOf environment formula.file 1 formula.text).mapError fun problem =>
    (problem.movedDown (formula.number - 1)).message
      (Source.beginningOn formula.number formula.text)

/-- The formulas on lines from a number on, which are the lines that are not skipped. -/
def ofLines (file : Text) : Nat → List Text → List Formula
  | _, [] => []
  | number, line :: rest =>
      if Session.isSkipped line then ofLines file (number + 1) rest
      else ⟨file, number, line⟩ :: ofLines file (number + 1) rest

/-- What is written to the output about a formula. -/
def shown (colour : Bool) : Except Text Value → Text
  | .ok value => value.print colour ++ Text.ascii "\n"
  | .error _ => []

/-- What is written to the error output about a formula. -/
def told (colour : Bool) : Except Text Value → Text
  | .ok _ => []
  | .error message => Colour.red.paint colour (Text.ascii "Error: ") ++ message ++ Text.ascii "\n"

end Formula

namespace Session

/-- The report of a result, or of the message in its place. -/
def reported (session : Session Unit) : Except Text Value → Report
  | .ok value => session.succeeded value
  | .error message => session.failed message

/-- The report of some results in order. -/
def reportOf (session : Session Unit) (results : List (Except Text Value)) : Report :=
  results.foldr (fun result rest => (session.reported result).append rest) Report.empty

/-- The session dumps neither tokens nor trees. -/
structure Undumped (session : Session Unit) : Prop where
  tokens : session.showTokens = false
  tree : session.showTree = false

section Undumped

variable {session : Session Unit} (undumped : session.Undumped)

include undumped

private theorem runProgram_eq (program : Program) :
    session.runProgram program () =
      (session.reported
        ((program.evaluate session.environment ()).result.mapError Failure.message), ()) := by
  simp only [runProgram, undumped.tree, Bool.false_eq_true, if_false]
  cases (program.evaluate session.environment ()).result <;> rfl

private theorem runText_eq (source : Source) (file : Text) (firstLine : Int) (text : Text) :
    session.runText source file firstLine text () =
      (session.reported
        ((Program.resultOf session.environment file firstLine text).mapError
          (Problem.message source)), ()) := by
  rw [session.runText_eq_of_ofText undumped.tokens, Program.resultOf]
  cases Program.ofText file firstLine text with
  | error error => rfl
  | ok program =>
      simp only [runProgram_eq undumped]
      cases (program.evaluate session.environment ()).result <;> rfl

/-- A text that begins on a line is reported with its result as a formula on this line. -/
theorem runText_beginningOn (file : Text) (number : Nat) (text : Text) :
    session.runText (Source.beginningOn number text) file number text () =
      (session.reported (Formula.result session.environment ⟨file, number, text⟩), ()) := by
  have further : (number : Int) = 1 + ((number : Int) - 1) := by omega
  rw [runText_eq undumped, Formula.result]
  conv_lhs => rw [further, Program.resultOf_movedDown]
  cases Program.resultOf session.environment file 1 text <;> rfl

theorem runExpressions_eq (texts : List Text) :
    session.runExpressions texts () =
      (session.reportOf (texts.map fun text =>
        Formula.result session.environment ⟨Text.ascii "<expr>", 1, text⟩), ()) := by
  induction texts with
  | nil => rfl
  | cons text rest induction =>
      have first : session.runLine (Text.ascii "<expr>") text () =
          (session.reported
            (Formula.result session.environment ⟨Text.ascii "<expr>", 1, text⟩), ()) :=
        runText_beginningOn undumped (Text.ascii "<expr>") 1 text
      simp only [runExpressions, bind, StateT.bind, first, induction]
      rfl

private theorem runAlone_eq (file : Text) (before rest : List Text) :
    runEach (session.runAlone file) before rest () =
      (session.reportOf ((Formula.ofLines file (before.length + 1) rest).map
        (Formula.result session.environment)), ()) := by
  induction rest generalizing before with
  | nil => rfl
  | cons line rest induction =>
      have later := induction (before ++ [line])
      have first := runText_beginningOn undumped file (before.length + 1) line
      rw [List.length_append, List.length_singleton] at later
      simp only [runEach, bind, StateT.bind, later]
      rw [runAlone, runNumbered, Formula.ofLines]
      by_cases skipped : isSkipped line
      · rw [if_pos skipped, if_pos skipped]
        rfl
      · rw [if_neg skipped, if_neg skipped, first]
        rfl

/-- The report of a file is that of the formulas on its lines. -/
theorem runFile_eq (path content : Text) :
    session.runFile path content () =
      (session.reportOf ((Formula.ofLines path 1 content.lines).map
        (Formula.result session.environment)), ()) := by
  rw [runFile_eq_alone]
  exact runAlone_eq undumped path [] content.lines

/-- The report of a stream is that of the formulas on its lines. -/
theorem runStream_eq (content : Text) :
    session.runStream content () =
      (session.reportOf ((Formula.ofLines streamName 1 content.lines).map
        (Formula.result session.environment)), ()) := by
  rw [runStream_eq_alone]
  exact runAlone_eq undumped streamName [] content.lines

end Undumped

/-- The outputs of a report are those of its results, if it shows results as text. -/
theorem reportOf_eq {session : Session Unit} {results : List (Except Text Value)}
    (textual : session.jsonOutput → ∀ result ∈ results, ∀ value, result ≠ .ok value) :
    session.reportOf results =
      ⟨results.all Except.isOk, results.flatMap (Formula.shown session.colour),
        results.flatMap (Formula.told session.colour)⟩ := by
  induction results with
  | nil => rfl
  | cons result rest induction =>
      have later := induction fun json result listed =>
        textual json result (List.mem_cons_of_mem _ listed)
      have here : session.reported result =
          ⟨result.isOk, Formula.shown session.colour result,
            Formula.told session.colour result⟩ := by
        cases result with
        | error message => rfl
        | ok value =>
            have not_json : ¬ session.jsonOutput := fun json =>
              textual json _ List.mem_cons_self value rfl
            rw [reported, succeeded, rendered, if_neg not_json]
            rfl
      rw [reportOf] at later ⊢
      rw [List.foldr_cons, later, here]
      rfl

end Session
end Formulary
