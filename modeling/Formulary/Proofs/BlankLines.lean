import Formulary.Proofs.ByteOrderMarks
import Formulary.Proofs.Seams

/-!
# Blank lines

A line without tokens is blank: it holds nothing but spaces, behind a byte order mark if there is
one.  A session passes over the lines that hold nothing but blanks, tabs and carriage returns, and
over comments.  The other blank lines, with a mark, a vertical tab or a form feed, are read as
formulas that end before they begin.
-/

namespace Formulary

namespace Lexicon

variable {file : Text} {position last : Position} {text : Text} {firstLine : Int}

/-- Nothing but spaces, behind a byte order mark if there is one. -/
def Blank (text : Text) : Prop :=
  ∃ blanks, text = mark text ++ blanks ∧ ∀ byte ∈ blanks, Text.isSpace byte

/-- A text that is tiled by no token is a text of spaces. -/
theorem Tiles.spaces_of_no_tokens {tokens : List Token} {remaining : Text}
    (tiles : Tiles file position text tokens last remaining) (none : tokens = [])
    (whole : remaining = []) : ∀ byte ∈ text, Text.isSpace byte := by
  induction tiles with
  | stop => simp [whole]
  | space blank _ induction => exact List.forall_mem_cons.mpr ⟨blank, induction none whole⟩
  | lexeme => cases none

private theorem tilesText_nil_iff (file : Text) (firstLine : Int) :
    (∃ last, TilesText file firstLine text [] last []) ↔ Blank text := by
  constructor
  · rintro ⟨last, body, split, tiles⟩
    exact ⟨body, split, tiles.spaces_of_no_tokens rfl rfl⟩
  · rintro ⟨blanks, split, spaces⟩
    let last := Position.afterText (Position.afterText ⟨firstLine, 1⟩ (mark text)) blanks
    have ends : Tiles (Token.fileName file) last [] [] last [] := .stop
    have tiles := Tiles.spaces spaces ends
    rw [List.append_nil] at tiles
    exact ⟨_, blanks, split, tiles⟩

/-- A text has no token but the end of input exactly if it is blank. -/
theorem sequence_eq_singleton_iff :
    (∃ token, Token.sequence file firstLine text = .ok [token]) ↔ Blank text := by
  rw [← tilesText_nil_iff file firstLine]
  constructor
  · rintro ⟨token, sequenced⟩
    obtain ⟨lexemes, last, tiles, ends⟩ := sequence_eq_ok_iff.mp sequenced
    have alone : lexemes = [] := (List.append_eq_singleton_iff.mp ends.symm).elim And.left
      fun both => absurd both.2 (List.cons_ne_nil _ _)
    exact ⟨last, alone ▸ tiles⟩
  · rintro ⟨last, tiles⟩
    exact ⟨_, sequence_eq_ok_iff.mpr ⟨[], last, tiles, rfl⟩⟩

end Lexicon

/-- A blank text ends where its expression should begin. -/
theorem Program.ofText_of_blank (file : Text) (firstLine : Int) {text : Text}
    (blank : Lexicon.Blank text) :
    ∃ error, ofText file firstLine text = .error error ∧
      error.fault.message = Text.ascii "Expected an expression (found end of input)" := by
  obtain ⟨last, tiles⟩ := (Lexicon.tilesText_nil_iff file firstLine).mpr blank
  have sequenced := Lexicon.sequence_eq_ok_iff.mpr ⟨[], last, tiles, rfl⟩
  rw [ofText, sequenced]
  exact ⟨_, rfl, rfl⟩

namespace Report

private theorem append_assoc (first second third : Report) :
    (first.append second).append third = first.append (second.append third) := by
  simp only [append, Bool.and_assoc, List.append_assoc]

theorem empty_append (report : Report) : empty.append report = report := rfl

private theorem append_empty (report : Report) : report.append empty = report := by
  simp only [append, empty, Bool.and_true, List.append_nil]

end Report

namespace Session

variable {σ : Type}

/-- Some lines are run, and then the others behind them. -/
theorem runEach_append (run : List Text → Text → StateM σ Report) (before lines rest : List Text) :
    runEach run before (lines ++ rest) = (do
      let first ← runEach run before lines
      let others ← runEach run (before ++ lines) rest
      return first.append others) := by
  induction lines generalizing before with
  | nil => simp only [runEach, List.nil_append, List.append_nil, pure_bind, Report.empty_append,
      bind_pure]
  | cons line lines induction =>
      simp only [List.cons_append, runEach, induction, bind_assoc, pure_bind,
        Report.append_assoc, List.append_assoc, List.nil_append]

/-- A line that reports nothing can be left out between the others. -/
theorem runEach_of_silent {run : List Text → Text → StateM σ Report} {before : List Text}
    {line : Text} (silent : run before line = pure Report.empty) (rest : List Text) :
    runEach run [] (before ++ line :: rest) = (do
      let first ← runEach run [] before
      let others ← runEach run (before ++ [line]) rest
      return first.append others) := by
  simp only [runEach_append, runEach, List.nil_append, silent, pure_bind, Report.empty_append,
    bind_pure]

/--
Files and streams are run as if the line were not among theirs: what is reported of the lines in
front of it is followed by what is reported of the lines behind it, which keep their numbers.
-/
structure PassesOver (session : Session σ) (line : Text) : Prop where
  file {path content : Text} {before after : List Text}
      (split : content.lines = before ++ line :: after) :
    session.runFile path content = (do
      let first ← session.runLinesFrom (Source.ofText content) path 1 before
      let others ← session.runLinesFrom (Source.ofText content) path (before.length + 2) after
      return first.append others)
  stream {content : Text} {before after : List Text}
      (split : content.lines = before ++ line :: after) :
    session.runStream content = (do
      let first ← session.runStreamFrom Source.empty before
      let others ← session.runStreamFrom (Source.received (before ++ [line])) after
      return first.append others)

private theorem passesOver_of_isSkipped (session : Session σ) {line : Text}
    (skipped : isSkipped line) : session.PassesOver line where
  file {path content before after} split := by
    let source := Source.ofText content
    have front := session.runLinesFrom_eq source path [] before
    have back := session.runLinesFrom_eq source path (before ++ [line]) after
    have whole := session.runLinesFrom_eq source path [] (before ++ line :: after)
    rw [List.length_append, List.length_singleton] at back
    rw [runFile, split]
    refine whole.trans ((runEach_of_silent ?_ after).trans ?_)
    · rw [runNumbered, if_pos skipped]
    · rw [← front, ← back]
      rfl
  stream {content before after} split := by
    have front := session.runStreamFrom_eq [] before
    have back := session.runStreamFrom_eq (before ++ [line]) after
    have whole := session.runStreamFrom_eq [] (before ++ line :: after)
    rw [runStream, split]
    refine whole.trans ((runEach_of_silent ?_ after).trans ?_)
    · rw [runNumbered, if_pos skipped]
    · rw [← front, ← back]
      rfl

private theorem runText_eq_of_error (session : Session σ) (source : Source) {file text : Text}
    {firstLine : Int} {error : SyntaxError}
    (failed : Program.ofText file firstLine text = .error error) (host : σ) :
    (session.runText source file firstLine text host).1.succeeded = false ∧
      (session.runText source file firstLine text host).2 = host := by
  rw [runText]
  cases sequenced : Token.sequence file firstLine text with
  | error error => exact ⟨rfl, rfl⟩
  | ok tokens =>
      rw [Program.ofText, sequenced] at failed
      simp only [bind, Except.bind] at failed
      simp only [failed]
      exact ⟨rfl, rfl⟩

/-- Of every formula something is told: that it has failed, or its result. -/
theorem tells_runProgram (session : Session σ) (program : Program) (host : σ) :
    (session.runProgram program host).1.succeeded = true →
      (session.runProgram program host).1.out ≠ [] := by
  rw [runProgram]
  dsimp only [Report.afterOutput]
  cases (program.evaluate session.environment host).result with
  | error failure => exact fun succeeds => absurd succeeds Bool.false_ne_true
  | ok value =>
      dsimp only
      rw [succeeded]
      cases session.rendered value with
      | error reason => exact fun succeeds => absurd succeeds Bool.false_ne_true
      | ok text => simp [Text.ascii]

private theorem tells_runText (session : Session σ) (source : Source) (file : Text)
    (firstLine : Int) (text : Text) (host : σ) :
    (session.runText source file firstLine text host).1.succeeded = true →
      (session.runText source file firstLine text host).1.out ≠ [] := by
  rw [runText]
  cases Token.sequence file firstLine text with
  | error error => exact fun succeeds => absurd succeeds Bool.false_ne_true
  | ok tokens =>
      dsimp only
      cases Program.ofTokens tokens with
      | error error => exact fun succeeds => absurd succeeds Bool.false_ne_true
      | ok program =>
          intro succeeds empty
          exact session.tells_runProgram program host succeeds (List.append_eq_nil_iff.mp empty).2

/-- Exactly the skipped lines are passed over. -/
theorem passesOver_iff (session : Session σ) (host : σ) {line : Text}
    (no_newline : Text.newline ∉ line) : session.PassesOver line ↔ isSkipped line := by
  refine ⟨fun passes => ?_, session.passesOver_of_isSkipped⟩
  by_contra read
  -- In a file of its own the line is reported alone, and so nothing would be told of it.
  have lines : Text.lines (line ++ [Text.newline]) = [] ++ line :: [] :=
    Text.lines_append_newline line [] no_newline
  have silent : (session.runFile [] (line ++ [Text.newline]) host).1 = Report.empty := by
    rw [passes.file lines]
    rfl
  have told := session.tells_runText (Source.ofText (line ++ [Text.newline])) [] 1 line host
  have alone : (session.runFile [] (line ++ [Text.newline]) host).1 =
      (session.runText (Source.ofText (line ++ [Text.newline])) [] 1 line host).1 := by
    rw [runFile, lines, List.nil_append, runLinesFrom, runNumbered, if_neg read]
    exact Report.append_empty _
  rw [← alone, silent] at told
  exact told rfl rfl

private theorem isSkipped_iff {line : Text} :
    isSkipped line ↔
      (∀ byte ∈ line, isMargin byte) ∨ (line.dropWhile isMargin).head? = some commentMark := by
  rw [← List.dropWhile_eq_nil_iff, isSkipped]
  split
  · rename_i nothing
    simp [nothing]
  · rename_i byte rest behind
    simp [behind]

private theorem blank_of_margin {line : Text} (margin : ∀ byte ∈ line, isMargin byte) :
    Lexicon.Blank line := by
  have spaces : ∀ byte ∈ line, Text.isSpace byte := fun byte member =>
    isSpace_of_isMargin (margin byte member)
  have unmarked : Lexicon.mark line = [] := Lexicon.mark_eq_nil fun byte first =>
    Lexicon.ascii_of_space (spaces byte (List.mem_of_mem_head? first))
  exact ⟨line, by rw [unmarked, List.nil_append], spaces⟩

/-- No comment begins in a blank line. -/
theorem commentMark_notMem_of_blank {line : Text} (blank : Lexicon.Blank line) :
    commentMark ∉ line := by
  obtain ⟨blanks, split, spaces⟩ := blank
  rw [split, List.mem_append, not_or]
  constructor
  · rw [Lexicon.mark]
    split <;> decide
  · exact fun member => absurd (spaces commentMark member) (by decide)

/-- A skipped line is blank, or its first byte that is no space begins a comment. -/
theorem blank_or_comment_of_isSkipped {line : Text} (skipped : isSkipped line) :
    Lexicon.Blank line ∨ (line.dropWhile Text.isSpace).head? = some commentMark := by
  rcases isSkipped_iff.mp skipped with margin | comment
  · exact .inl (blank_of_margin margin)
  · right
    have spaces : ∀ byte ∈ line.takeWhile isMargin, Text.isSpace byte := fun byte member =>
      isSpace_of_isMargin (List.mem_takeWhile_imp member)
    obtain ⟨rest, behind⟩ := List.head?_eq_some_iff.mp comment
    rw [← List.takeWhile_append_dropWhile (p := isMargin) (l := line),
      List.dropWhile_append_of_pos spaces, behind]
    rfl

/--
A line has no token but the end of input exactly if it is blank.  A session passes over a blank line
exactly if nothing but blanks, tabs and carriage returns is in it, so that files and streams are run
as if the line were not among theirs.  Every other blank line, with a byte order mark, a vertical
tab or a form feed, is told to have no expression, and the run has failed.  Whatever a session
passes over is blank or a comment.
-/
theorem blank_lines_passed_over (session : Session σ) (host : σ) {line : Text}
    (no_newline : Text.newline ∉ line) :
    (∀ file firstLine, (∃ token, Token.sequence file firstLine line = .ok [token]) ↔
      Lexicon.Blank line) ∧
    (Lexicon.Blank line → (session.PassesOver line ↔ ∀ byte ∈ line, isMargin byte)) ∧
    (Lexicon.Blank line → ¬ session.PassesOver line → ∀ source file number, ∃ error : SyntaxError,
      error.fault.message = Text.ascii "Expected an expression (found end of input)" ∧
      (session.runNumbered source file number line host).1.err =
        (session.failed (error.message (some source))).err ∧
      (session.runNumbered source file number line host).1.succeeded = false ∧
      (session.runNumbered source file number line host).2 = host) ∧
    (session.PassesOver line →
      Lexicon.Blank line ∨ (line.dropWhile Text.isSpace).head? = some commentMark) := by
  rw [session.passesOver_iff host no_newline]
  refine ⟨fun file firstLine => Lexicon.sequence_eq_singleton_iff, fun blank => ?passed,
    fun blank read source file number => ?told, blank_or_comment_of_isSkipped⟩
  case passed =>
    refine ⟨fun skipped => (isSkipped_iff.mp skipped).resolve_right fun comment => ?_,
      fun margin => isSkipped_iff.mpr (.inl margin)⟩
    have listed := (List.dropWhile_sublist _).subset (List.mem_of_mem_head? comment)
    exact commentMark_notMem_of_blank blank listed
  case told =>
    obtain ⟨error, failed, message⟩ := Program.ofText_of_blank file number blank
    rw [runNumbered, if_neg read]
    exact ⟨error, message, session.err_runText source failed host,
      session.runText_eq_of_error source failed host⟩

/-- A form feed behind a tab is blank, and is not passed over. -/
theorem blank_lines_passed_over_of_formFeed :
    Text.newline ∉ [Text.tab, 12] ∧ Lexicon.Blank [Text.tab, 12] ∧
      ¬ bare.PassesOver [Text.tab, 12] ∧
      ∃ error : SyntaxError,
        error.fault.message = Text.ascii "Expected an expression (found end of input)" ∧
        (bare.runNumbered Source.empty [] 1 [Text.tab, 12] ()).1.err =
          (bare.failed (error.message (some Source.empty))).err := by
  have no_newline : Text.newline ∉ [Text.tab, 12] := by decide
  have blank : Lexicon.Blank [Text.tab, 12] :=
    ⟨[Text.tab, 12], rfl, by simp [Text.isSpace, Text.tab]⟩
  obtain ⟨-, passed, told, -⟩ := blank_lines_passed_over bare () no_newline
  have read : ¬ bare.PassesOver [Text.tab, 12] := fun passes =>
    absurd ((passed blank).mp passes) (by decide)
  obtain ⟨error, message, err, -⟩ := told blank read Source.empty [] 1
  exact ⟨no_newline, blank, read, error, message, err⟩

/-- A line with a vertical tab has no token, and a file that holds nothing else fails. -/
theorem verticalTab_not_passed_over :
    Text.newline ∉ [(11 : UInt8)] ∧
      (∃ token, Token.sequence (Text.ascii "f") 1 [11] = .ok [token]) ∧
      (bare.runFile (Text.ascii "f") [11, Text.newline] ()).1.succeeded = false ∧
      (bare.runFile (Text.ascii "f") [11, Text.newline] ()).1.err ≠ [] := by
  refine ⟨by decide, ⟨_, rfl⟩, rfl, ?_⟩
  decide +kernel

end Session
end Formulary
