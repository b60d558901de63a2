import Formulary.Proofs.Excerpts

/-!
# Files and streams

The source of a file has all of its lines from the start, and the source of a stream grows by one
line at a time.  A formula on one line can only fail on that line, which both sources have by then
under the same number, so that every line is run as if it alone were known.
-/

namespace Formulary

/-- Of its source a message quotes the line of the error only. -/
theorem SyntaxError.message_congr {source other : Source} {error : SyntaxError}
    (same : source.line error.location.line = other.line error.location.line) :
    error.message (some source) = error.message (some other) := by
  simp only [message, trace, Source.excerpt, same]

/-- A formula on one line has its error on the line that it begins on. -/
theorem Program.line_of_ofText {file text : Text} {firstLine : Int}
    (no_newline : Text.newline ∉ text) {error : SyntaxError}
    (failed : Program.ofText file firstLine text = .error error) :
    error.location.line = firstLine := by
  obtain ⟨offset, -, -, marks⟩ := faultAt_of_ofText failed
  have front : Text.newline ∉ text.take offset := fun listed =>
    no_newline (List.mem_of_mem_take listed)
  rw [marks.line, List.count_eq_zero.mpr front]
  exact Int.add_zero _

namespace Source

/-- The source of a text that begins on a line of this number, with nothing in front. -/
def beginningOn (number : Nat) (text : Text) : Source where
  content := text
  lines := List.replicate (number - 1) [] ++ text.lines

private theorem line_of_lines_eq {source : Source} {line : Text} {before after : List Text}
    (split : source.lines = before ++ line :: after) :
    source.line (before.length + 1 : Nat) = line := by
  have number : ((before.length + 1 : Nat) : Int) = 1 + before.length := by omega
  rw [number, line_succ, split]
  simp

/-- The line that has arrived last has the number that is counted for it. -/
theorem line_received (before : List Text) (line : Text) :
    (received (before ++ [line])).line (before.length + 1 : Nat) = line :=
  line_of_lines_eq (lines_received _)

private theorem line_beginningOn (count : Nat) {line : Text} (no_newline : Text.newline ∉ line) :
    (beginningOn (count + 1) line).line (count + 1 : Nat) = line := by
  have first := Text.firstLine_append no_newline []
  rw [List.append_nil, ← Text.headD_lines] at first
  cases lines : Text.lines line with
  | nil =>
      have number : ((count + 1 : Nat) : Int) = 1 + count := by omega
      rw [Text.eq_nil_of_lines lines, number, line_succ, beginningOn, Nat.add_sub_cancel]
      simp
  | cons head rest =>
      rw [lines] at first
      obtain rfl : head = line := first.trans (List.append_nil line)
      have split : (beginningOn (count + 1) head).lines =
          List.replicate count [] ++ head :: rest := by
        rw [beginningOn, lines, Nat.add_sub_cancel]
      have found := line_of_lines_eq split
      rwa [List.length_replicate] at found

end Source

namespace Session

variable {σ : Type}

/-- What a session without dumps does about a text that is a formula, and about one that is none. -/
theorem runText_eq_of_ofText (session : Session σ) (undumped : session.showTokens = false)
    (source : Source) (file : Text) (firstLine : Int) (text : Text) :
    session.runText source file firstLine text =
      match Program.ofText file firstLine text with
      | .error error => pure (session.failed (error.message (some source)))
      | .ok program => session.runProgram program := by
  rw [runText, Program.ofText]
  cases Token.sequence file firstLine text with
  | error error => rfl
  | ok tokens =>
      simp only [undumped, Bool.false_eq_true, if_false, bind, Except.bind]
      cases Program.ofTokens tokens <;> rfl

/-- Runs depend on the messages of errors only, and not on the source beyond them. -/
theorem runText_congr (session : Session σ) {source other : Source} {file text : Text}
    {firstLine : Int}
    (same : ∀ error, Program.ofText file firstLine text = .error error →
      error.message (some source) = error.message (some other)) :
    session.runText source file firstLine text = session.runText other file firstLine text := by
  rw [runText, runText]
  cases sequenced : Token.sequence file firstLine text with
  | error error =>
      have failed : Program.ofText file firstLine text = .error error := by
        rw [Program.ofText, sequenced]
        rfl
      simp only [same error failed]
  | ok tokens =>
      cases parsed : Program.ofTokens tokens with
      | ok program => simp only [parsed]
      | error error =>
          have failed : Program.ofText file firstLine text = .error error := by
            rw [Program.ofText, sequenced]
            exact parsed
          simp only [parsed, same error failed]

/-- A line is run alike with every source that has it under its number. -/
theorem runNumbered_congr (session : Session σ) {source other : Source} (file : Text)
    {number : Nat} {line : Text} (no_newline : Text.newline ∉ line)
    (same : source.line number = other.line number) :
    session.runNumbered source file number line = session.runNumbered other file number line := by
  have alike : session.runText source file number line =
      session.runText other file number line := by
    refine session.runText_congr fun error failed => SyntaxError.message_congr ?_
    rw [Program.line_of_ofText no_newline failed, same]
  rw [runNumbered, runNumbered, alike]

private theorem runEach_congr {run other : List Text → Text → StateM σ Report}
    {before rest : List Text} (same : ∀ front line after, rest = front ++ line :: after →
      run (before ++ front) line = other (before ++ front) line) :
    runEach run before rest = runEach other before rest := by
  induction rest generalizing before with
  | nil => rfl
  | cons line rest induction =>
      have here := same [] line rest rfl
      rw [List.append_nil] at here
      have later : runEach run (before ++ [line]) rest = runEach other (before ++ [line]) rest := by
        refine induction fun front next after split => ?_
        have there := same (line :: front) next after (by rw [split, List.cons_append])
        rwa [List.append_cons] at there
      rw [runEach, runEach, here, later]

/-- Runs a line behind others as if it alone were known. -/
def runAlone (session : Session σ) (file : Text) (before : List Text) (line : Text) :
    StateM σ Report :=
  session.runNumbered (Source.beginningOn (before.length + 1) line) file (before.length + 1) line

/-- A line is run as if it alone were known, with every source that has it under its number. -/
theorem runEach_eq_alone (session : Session σ) (file : Text) {content : Text}
    (source : List Text → Text → Source)
    (has_line : ∀ before line after, content.lines = before ++ line :: after →
      (source before line).line (before.length + 1 : Nat) = line) :
    runEach (fun before line =>
        session.runNumbered (source before line) file (before.length + 1) line)
        [] content.lines =
      runEach (session.runAlone file) [] content.lines := by
  refine runEach_congr fun front line after split => ?_
  rw [List.nil_append]
  obtain ⟨-, no_newline, -⟩ := Text.eq_of_lines split
  refine session.runNumbered_congr file no_newline ?_
  rw [has_line front line after split, Source.line_beginningOn _ no_newline]

theorem runFile_eq_alone (session : Session σ) (path content : Text) :
    session.runFile path content = runEach (session.runAlone path) [] content.lines :=
  (session.runLinesFrom_eq (Source.ofText content) path [] content.lines).trans
    (session.runEach_eq_alone path _ fun _ _ _ split => Source.line_of_lines_eq split)

theorem runStream_eq_alone (session : Session σ) (content : Text) :
    session.runStream content = runEach (session.runAlone streamName) [] content.lines :=
  (session.runStreamFrom_eq [] content.lines).trans
    (session.runEach_eq_alone streamName _ fun before line _ _ => Source.line_received before line)

/--
A session reports the formulas of standard input exactly as those of a file that holds the same
bytes under the name of standard input: the output, the messages, whether all of them have a result
and what the functions of the host did.
-/
theorem runFile_streamName (session : Session σ) (content : Text) :
    session.runFile streamName content = session.runStream content := by
  rw [runFile_eq_alone, runStream_eq_alone]

end Session
end Formulary
