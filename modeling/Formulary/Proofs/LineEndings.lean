import Formulary.Proofs.ByteOrderMarks
import Formulary.Proofs.TrailingSpaces

/-!
# Line endings

What a session writes about the lines of a source is accounted for as its output and its
diagnostics, in order.  A carriage return in front of a newline is a space behind a line, so that
the account of a source has the same output and the same faults whichever way its lines end.
-/

namespace Formulary

namespace Text

/-- The text with a carriage return in front of every newline. -/
def withCarriageReturns (text : Text) : Text :=
  text.flatMap fun byte => if byte = newline then [carriageReturn, newline] else [byte]

/-- The line as it is, or with a carriage return behind it. -/
def MayReturn (line other : Text) : Prop :=
  other = line ∨ other = line ++ [carriageReturn]

private theorem MayReturn.cons {line other : Text} (returns : MayReturn line other) (byte : UInt8) :
    MayReturn (byte :: line) (byte :: other) := by
  rcases returns with rfl | rfl
  · exact .inl rfl
  · exact .inr rfl

/-- With the carriage returns there are the same lines, but for the returns behind them. -/
theorem lines_withCarriageReturns (text : Text) :
    List.Forall₂ MayReturn (lines text) (lines (withCarriageReturns text)) := by
  induction text with
  | nil => exact .nil
  | cons byte rest induction =>
      by_cases ends : byte = newline
      · subst ends
        have returned : withCarriageReturns (newline :: rest) =
            [carriageReturn] ++ newline :: withCarriageReturns rest := rfl
        rw [lines_newline, returned, lines_append_newline _ _ (by decide)]
        exact .cons (.inr rfl) induction
      · have kept : withCarriageReturns (byte :: rest) = byte :: withCarriageReturns rest := by
          simp [withCarriageReturns, ends]
        rw [kept, lines_cons ends, lines_cons ends]
        generalize lines rest = below at induction ⊢
        generalize lines (withCarriageReturns rest) = also_below at induction ⊢
        cases induction with
        | nil => exact .cons (.inl rfl) .nil
        | cons first others => exact .cons (first.cons byte) others

end Text

/-- Why a formula has no result that is shown. -/
inductive Diagnostic where
  /-- The text is no formula; the source has the line of the error. -/
  | syntactic (source : Source) (error : SyntaxError)
  /-- The formula fails. -/
  | evaluation (failure : Failure)
  /-- The writer of JSON refuses the result, for this reason. -/
  | unwritable (reason : Text)

namespace Diagnostic

/-- The message of a diagnostic. -/
def message : Diagnostic → Text
  | syntactic source error => error.message (some source)
  | evaluation failure => failure.message
  | unwritable reason => reason

/-- The message without the location and the line that it quotes. -/
def subject : Diagnostic → Text
  | syntactic _ error => error.fault.message
  | evaluation failure => failure.message
  | unwritable reason => reason

end Diagnostic

/-- What is written to the output about some lines, and their diagnostics in order. -/
structure Account where
  out : Text
  diagnostics : List Diagnostic

namespace Account

/-- The account of no lines. -/
def empty : Account := ⟨[], []⟩

/-- Two accounts as one. -/
def append (first second : Account) : Account :=
  ⟨first.out ++ second.out, first.diagnostics ++ second.diagnostics⟩

/-- What the diagnostics are about, in order. -/
def subjects (account : Account) : List Text :=
  account.diagnostics.map Diagnostic.subject

end Account

namespace Session

variable {σ : Type}

/-- The report that an account comes to: each diagnostic is written behind the one before it. -/
def report (session : Session σ) (account : Account) : Report where
  succeeded := account.diagnostics.isEmpty
  out := account.out
  err := account.diagnostics.flatMap fun diagnostic => (session.failed diagnostic.message).err

private theorem report_append (session : Session σ) (first second : Account) :
    session.report (first.append second) =
      (session.report first).append (session.report second) := by
  simp only [report, Account.append, Report.append, List.flatMap_append, Report.mk.injEq, and_true]
  cases first.diagnostics <;> rfl

/-- The account of a formula. -/
def tellProgram (session : Session σ) (program : Program) : StateM σ Account := fun host =>
  let outcome := program.evaluate session.environment host
  let dump := if session.showTree then program.dump 0 else []
  let account : Account :=
    match outcome.result with
    | .error failure => ⟨dump, [.evaluation failure]⟩
    | .ok value =>
        match session.rendered value with
        | .ok text => ⟨dump ++ (text ++ Text.ascii "\n"), []⟩
        | .error reason => ⟨dump, [.unwritable reason]⟩
  (account, outcome.host)

/-- The account of a line with its number. -/
def tellLine (session : Session σ) (file : Text) (number : Nat) (line : Text) :
    StateM σ Account :=
  if isSkipped line then pure Account.empty
  else
    match Program.ofText file number line with
    | .error error => pure ⟨[], [.syntactic (Source.beginningOn number line) error]⟩
    | .ok program => session.tellProgram program

/-- The account of lines in order, from a number on. -/
def tellLinesFrom (session : Session σ) (file : Text) : Nat → List Text → StateM σ Account
  | _, [] => pure Account.empty
  | number, line :: rest => do
      let first ← session.tellLine file number line
      let others ← tellLinesFrom session file (number + 1) rest
      return first.append others

/-- The account of the lines of a source. -/
def tell (session : Session σ) (file content : Text) : StateM σ Account :=
  session.tellLinesFrom file 1 content.lines

private theorem runProgram_eq_tell (session : Session σ) (program : Program) :
    session.runProgram program = session.report <$> session.tellProgram program := by
  funext host
  change _ = (session.report (session.tellProgram program host).1, _)
  simp only [runProgram, tellProgram, Report.afterOutput]
  cases (program.evaluate session.environment host).result with
  | error failure => simp [report, Diagnostic.message, failed]
  | ok value =>
      cases rendered : session.rendered value with
      | error reason => simp [succeeded, rendered, report, Diagnostic.message, failed]
      | ok text => simp [succeeded, rendered, report]

section Undumped

variable {session : Session σ} (undumped : session.showTokens = false)

include undumped

private theorem runAlone_eq_tell (file : Text) (before : List Text) (line : Text) :
    session.runAlone file before line =
      session.report <$> session.tellLine file (before.length + 1) line := by
  rw [runAlone, runNumbered, tellLine]
  split
  · rfl
  · rw [session.runText_eq_of_ofText undumped]
    cases Program.ofText file (before.length + 1 : Nat) line with
    | error error => simp [report, Diagnostic.message, failed]
    | ok program => exact session.runProgram_eq_tell program

private theorem runEach_eq_tell (file : Text) (before rest : List Text) :
    runEach (session.runAlone file) before rest =
      session.report <$> session.tellLinesFrom file (before.length + 1) rest := by
  induction rest generalizing before with
  | nil => rfl
  | cons line rest induction =>
      have later := induction (before ++ [line])
      rw [List.length_append, List.length_singleton] at later
      rw [runEach, runAlone_eq_tell undumped, later, tellLinesFrom]
      simp only [map_eq_pure_bind, bind_assoc, pure_bind, report_append]

/-- What is reported of a file is what its account comes to. -/
theorem runFile_eq_tell (path content : Text) :
    session.runFile path content = session.report <$> session.tell path content := by
  rw [session.runFile_eq_alone, runEach_eq_tell undumped]
  rfl

/-- What is reported of a stream is what its account comes to. -/
theorem runStream_eq_tell (content : Text) :
    session.runStream content = session.report <$> session.tell streamName content := by
  rw [session.runStream_eq_alone, runEach_eq_tell undumped]
  rfl

end Undumped

/-- Two accounts tell the same, apart from locations and the lines that are quoted. -/
structure ToldAlike (told other : Account × σ) : Prop where
  host : other.2 = told.2
  out : other.1.out = told.1.out
  subjects : other.1.subjects = told.1.subjects

private theorem ToldAlike.refl (told : Account × σ) : ToldAlike told told := ⟨rfl, rfl, rfl⟩

/-- Accounts that tell the same come to the same success. -/
theorem ToldAlike.succeeded {told other : Account × σ} (alike : ToldAlike told other)
    (session : Session σ) :
    (session.report other.1).succeeded = (session.report told.1).succeeded := by
  have same := congrArg List.isEmpty alike.subjects
  rwa [Account.subjects, Account.subjects, List.isEmpty_map, List.isEmpty_map] at same

private theorem isSkipped_append_return (line : Text) :
    isSkipped (line ++ [Text.carriageReturn]) = isSkipped line := by
  simp only [isSkipped, List.dropWhile_append]
  cases line.dropWhile isMargin <;> rfl

private theorem toldAlike_tellLine (session : Session σ) (file : Text) (number : Nat)
    {line other : Text} (returns : Text.MayReturn line other) (host : σ) :
    ToldAlike (session.tellLine file number line host)
      (session.tellLine file number other host) := by
  rcases returns with rfl | rfl
  · exact .refl _
  · have blank : Text.isSpace Text.carriageReturn := rfl
    have same := Program.ofText_append_space file number line blank
    rw [tellLine, tellLine, isSkipped_append_return]
    split
    · exact .refl _
    · generalize Program.ofText file number line = read at same ⊢
      generalize Program.ofText file number (line ++ [Text.carriageReturn]) = also_read at same ⊢
      cases same with
      | formula => exact .refl _
      | faults message => exact ⟨rfl, rfl, congrArg (fun subject => [subject]) message⟩

private theorem tellLinesFrom_cons_apply (session : Session σ) (file : Text) (number : Nat)
    (line : Text) (rest : List Text) (host : σ) :
    session.tellLinesFrom file number (line :: rest) host =
      let first := session.tellLine file number line host
      let others := session.tellLinesFrom file (number + 1) rest first.2
      (first.1.append others.1, others.2) := rfl

private theorem toldAlike_tellLinesFrom (session : Session σ) (file : Text) (number : Nat)
    {lines others : List Text} (returns : List.Forall₂ Text.MayReturn lines others) (host : σ) :
    ToldAlike (session.tellLinesFrom file number lines host)
      (session.tellLinesFrom file number others host) := by
  induction returns generalizing number host with
  | nil => exact .refl _
  | @cons line other _ _ first _ induction =>
      have here := session.toldAlike_tellLine file number first host
      have later := induction (number + 1) (session.tellLine file number line host).2
      rw [tellLinesFrom_cons_apply, tellLinesFrom_cons_apply]
      dsimp only
      rw [here.host]
      refine ⟨later.host, ?_, ?_⟩
      · simp only [Account.append, here.out, later.out]
      · have subjects := congrArg₂ (· ++ ·) here.subjects later.subjects
        simpa only [Account.subjects, Account.append, List.map_append] using subjects

private theorem toldAlike_tell (session : Session σ) (file text : Text) (host : σ) :
    ToldAlike (session.tell file text host) (session.tell file text.withCarriageReturns host) :=
  session.toldAlike_tellLinesFrom file 1 text.lines_withCarriageReturns host

/--
Two runs of a session are the reports of accounts, and the accounts tell the same, apart from
locations and the lines that are quoted.
-/
structure RunAlike (session : Session σ) (run other : StateM σ Report)
    (told also_told : StateM σ Account) : Prop where
  run_eq : run = session.report <$> told
  other_eq : other = session.report <$> also_told
  out (host : σ) : (other host).1.out = (run host).1.out
  subjects (host : σ) : (also_told host).1.subjects = (told host).1.subjects
  succeeded (host : σ) : (other host).1.succeeded = (run host).1.succeeded
  host (host : σ) : (other host).2 = (run host).2

private theorem runAlike_of_toldAlike (session : Session σ) {told also_told : StateM σ Account}
    (alike : ∀ host, ToldAlike (told host) (also_told host)) :
    session.RunAlike (session.report <$> told) (session.report <$> also_told) told also_told where
  run_eq := rfl
  other_eq := rfl
  out host := (alike host).out
  subjects host := (alike host).subjects
  succeeded host := (alike host).succeeded session
  host host := (alike host).host

/--
Line endings do not matter.  A session that does not list tokens runs a source with a carriage
return in front of every newline as it runs the source itself, as a file and as standard input: the
output, the success and the host are the same, and there are as many diagnostics in the same order
with the same messages, apart from locations and the lines that are quoted.
-/
theorem lineEndings_immaterial (session : Session σ) (undumped : session.showTokens = false)
    (text : Text) :
    (∀ path, session.RunAlike (session.runFile path text)
      (session.runFile path text.withCarriageReturns)
      (session.tell path text) (session.tell path text.withCarriageReturns)) ∧
    session.RunAlike (session.runStream text) (session.runStream text.withCarriageReturns)
      (session.tell streamName text) (session.tell streamName text.withCarriageReturns) := by
  simp only [runFile_eq_tell undumped, runStream_eq_tell undumped]
  exact ⟨fun path => session.runAlike_of_toldAlike (session.toldAlike_tell path text),
    session.runAlike_of_toldAlike (session.toldAlike_tell streamName text)⟩

/-- A string that a line leaves open is told of alike in front of a carriage return. -/
theorem lineEndings_immaterial_of_openString :
    bare.showTokens = false ∧
      ((bare.tell streamName (Text.ascii "1\n'a\n").withCarriageReturns ()).1.subjects =
        [Text.ascii "Unterminated string literal"]) ∧
      (bare.runStream (Text.ascii "1\n'a\n").withCarriageReturns ()).1.out = Text.ascii "1\n" := by
  have alike := (lineEndings_immaterial bare rfl (Text.ascii "1\n'a\n")).2
  refine ⟨rfl, (alike.subjects ()).trans ?_, (alike.out ()).trans ?_⟩
  · decide +kernel
  · decide +kernel

end Session
end Formulary
