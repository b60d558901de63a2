import Formulary.Proofs.Parsing
import Formulary.Proofs.Relocation
import Formulary.Proofs.Streams

/-!
# Byte order marks

A byte order mark in front of a text moves its tokens and changes none of them, so that the text has
the same tree apart from the places in it, and the same run.  Among the lines of a source the mark
matters where the first line is skipped otherwise: behind the mark it is read, and is no formula.
-/

namespace Formulary

/-- Tokens that are the same but for the places where they stand. -/
structure Token.Alike (token other : Token) : Prop where
  kind : other.kind = token.kind
  value : other.value = token.value

namespace Token

/-- Two readings of a text give tokens that differ in their places only, or both of them fail. -/
inductive ReadAlike :
    Except SyntaxError (List Token) → Except SyntaxError (List Token) → Prop where
  | tokens {tokens others} (alike : List.Forall₂ Alike tokens others) :
      ReadAlike (.ok tokens) (.ok others)
  | fault {error other} : ReadAlike (.error error) (.error other)

/-- From another position a text has tokens in other places. -/
theorem sequenceFrom_alike (file : Text) (pending : Nat) (position other : Position)
    (text : Text) :
    ReadAlike (sequenceFrom file pending position text) (sequenceFrom file pending other text) := by
  induction text generalizing pending position other with
  | nil => cases pending <;> exact .tokens (.cons ⟨rfl, rfl⟩ .nil)
  | cons byte rest induction =>
      cases pending with
      | succ pending => exact induction pending (position.after byte) (other.after byte)
      | zero =>
          rw [sequenceFrom, sequenceFrom]
          split
          · exact induction 0 (position.after byte) (other.after byte)
          · cases Lexeme.scan byte rest with
            | error failure => exact .fault
            | ok lexeme =>
                have later :=
                  induction (lexeme.width - 1) (position.after byte) (other.after byte)
                dsimp only
                generalize sequenceFrom file (lexeme.width - 1) (position.after byte) rest =
                  read at later ⊢
                generalize sequenceFrom file (lexeme.width - 1) (other.after byte) rest =
                  also_read at later ⊢
                cases later with
                | tokens alike => exact .tokens (.cons ⟨rfl, rfl⟩ alike)
                | fault => exact .fault

private theorem map_relocate_of_alike {tokens others : List Token}
    (alike : List.Forall₂ Alike tokens others) (place : Location) :
    others.map (relocate fun _ => place) = tokens.map (relocate fun _ => place) := by
  induction alike with
  | nil => rfl
  | cons same _ induction =>
      rw [List.map_cons, List.map_cons, induction, relocate, relocate, same.kind, same.value]

/-- A mark is dropped in front of a text that does not begin with one itself. -/
theorem sequence_byteOrderMark (file : Text) (firstLine : Int) {text : Text}
    (unmarked : ¬ byteOrderMark.isPrefixOf text) :
    ReadAlike (sequence file firstLine text) (sequence file firstLine (byteOrderMark ++ text)) := by
  have marked : byteOrderMark.isPrefixOf (byteOrderMark ++ text) :=
    List.isPrefixOf_iff_prefix.mpr (List.prefix_append _ _)
  rw [sequence, sequence, if_neg unmarked, if_pos marked, List.drop_left]
  exact sequenceFrom_alike ..

end Token

namespace Program

variable {σ : Type}

/-- Two texts are formulas with the same run in every environment, or neither is a formula. -/
inductive SameRun (σ : Type) : Except SyntaxError Program → Except SyntaxError Program → Prop where
  | formulas {program other}
      (same : ∀ environment : Environment σ,
        program.evaluate environment = other.evaluate environment) :
      SameRun σ (.ok program) (.ok other)
  | faults {error other} : SameRun σ (.error error) (.error other)

private theorem SameOutcome.sameRun {read other : Except SyntaxError Program}
    (same : SameOutcome σ read other) : SameRun σ read other := by
  cases same with
  | formulas same => exact .formulas same
  | faults _ => exact .faults

private theorem ofTokens_alike {tokens others : List Token}
    (ends : ∃ token ∈ tokens, token.kind = .endOfInput)
    (also_ends : ∃ token ∈ others, token.kind = .endOfInput)
    (alike : List.Forall₂ Token.Alike tokens others) :
    SameRun σ (ofTokens tokens) (ofTokens others) := by
  refine (sameOutcome_of_relocate (fun _ => Token.none.location) ?_).sameRun
  rw [← ofTokens_relocate ends, ← ofTokens_relocate also_ends, Token.map_relocate_of_alike alike]

/-- A mark in front of a text changes neither whether it is a formula nor the run of the formula. -/
theorem ofText_byteOrderMark (file : Text) (firstLine : Int) {text : Text}
    (unmarked : ¬ Token.byteOrderMark.isPrefixOf text) :
    SameRun σ (ofText file firstLine text)
      (ofText file firstLine (Token.byteOrderMark ++ text)) := by
  have read := Token.sequence_byteOrderMark file firstLine unmarked
  rw [ofText, ofText]
  cases sequenced : Token.sequence file firstLine text with
  | error error =>
      rw [sequenced] at read
      generalize Token.sequence file firstLine (Token.byteOrderMark ++ text) = others at read ⊢
      cases read
      exact .faults
  | ok tokens =>
      rw [sequenced] at read
      cases also_sequenced : Token.sequence file firstLine (Token.byteOrderMark ++ text) with
      | error error =>
          rw [also_sequenced] at read
          cases read
      | ok others =>
          rw [also_sequenced] at read
          cases read with
          | tokens alike =>
              exact ofTokens_alike (Token.sequence_ends sequenced)
                (Token.sequence_ends also_sequenced) alike

end Program

/-- What stands in front of a text without ending a line stands in front of its first line. -/
theorem Text.lines_behind {front : Text} (some_byte : front ≠ []) (no_newline : newline ∉ front)
    (rest : Text) :
    lines (front ++ rest) = (front ++ (lines rest).headD []) :: (lines rest).tail := by
  induction front with
  | nil => exact absurd rfl some_byte
  | cons byte front induction =>
      obtain ⟨byte_ne, front_plain⟩ := not_or.mp (mt List.mem_cons.mpr no_newline)
      rw [List.cons_append, lines_cons (Ne.symm byte_ne)]
      cases front with
      | nil => rfl
      | cons next front =>
          rw [induction (List.cons_ne_nil next front) front_plain]
          rfl

namespace Session

variable {σ : Type}

private theorem runProgram_eq_of_evaluate (session : Session σ)
    (undumped : session.showTree = false) {program other : Program}
    (same : program.evaluate session.environment = other.evaluate session.environment) :
    session.runProgram program = session.runProgram other := by
  funext host
  simp only [runProgram, undumped, same, Bool.false_eq_true, if_false]

theorem isSpace_of_isMargin {byte : UInt8} (margin : isMargin byte) : Text.isSpace byte := by
  have one_of : (byte = Text.blank ∨ byte = Text.tab) ∨ byte = Text.carriageReturn := by
    simpa [isMargin] using margin
  obtain (rfl | rfl) | rfl := one_of <;> decide

private theorem sequenceFrom_margin (file : Text) (position : Position) {margin : Text}
    (blank : ∀ byte ∈ margin, isMargin byte) (rest : Text) :
    Token.sequenceFrom file 0 position (margin ++ rest) =
      Token.sequenceFrom file 0 (position.afterText margin) rest := by
  induction margin generalizing position with
  | nil => rfl
  | cons byte margin induction =>
      obtain ⟨first, others⟩ := List.forall_mem_cons.mp blank
      rw [List.cons_append, Lexicon.sequenceFrom_space file position (isSpace_of_isMargin first)]
      exact induction (position.after byte) others

private theorem isSkipped_byteOrderMark (line : Text) :
    isSkipped (Token.byteOrderMark ++ line) = false :=
  rfl

/-- A line that is skipped is no formula. -/
theorem ofText_of_isSkipped (file : Text) (firstLine : Int) {line : Text}
    (skipped : isSkipped line) : ∃ error, Program.ofText file firstLine line = .error error := by
  have unmarked : ¬ Token.byteOrderMark.isPrefixOf line := fun marked => by
    obtain ⟨rest, rfl⟩ := List.isPrefixOf_iff_prefix.mp marked
    rw [isSkipped_byteOrderMark] at skipped
    cases skipped
  have blank : ∀ byte ∈ line.takeWhile isMargin, isMargin byte := fun byte member =>
    List.mem_takeWhile_imp member
  have read := sequenceFrom_margin (Token.fileName file) ⟨firstLine, 1⟩ blank
    (line.dropWhile isMargin)
  rw [List.takeWhile_append_dropWhile] at read
  rw [Program.ofText, Token.sequence, if_neg unmarked, read]
  rw [isSkipped] at skipped
  split at skipped
  · rename_i nothing
    rw [nothing]
    exact ⟨_, rfl⟩
  · rename_i byte comment behind
    obtain rfl : byte = commentMark := beq_iff_eq.mp skipped
    rw [behind]
    exact ⟨_, rfl⟩

/--
The run of a marked source beside the one of the source itself: both leave the same host and write
the same results, and the marked one has succeeded if the other one has and nothing fails behind
the mark alone.
-/
structure Marked (fails : Bool) (plain marked : Report × σ) : Prop where
  host : marked.2 = plain.2
  out : marked.1.out = plain.1.out
  succeeded : marked.1.succeeded = (plain.1.succeeded && !fails)

section Undumped

variable {session : Session σ} (no_tokens : session.showTokens = false)
  (no_tree : session.showTree = false)

include no_tokens no_tree

private theorem marked_runNumbered (source also : Source) (file : Text) (number : Nat) {line : Text}
    (unmarked : ¬ Token.byteOrderMark.isPrefixOf line) (host : σ) :
    Marked (isSkipped line) (session.runNumbered source file number line host)
      (session.runNumbered also file number (Token.byteOrderMark ++ line) host) := by
  have same : Program.SameRun σ _ _ := Program.ofText_byteOrderMark file number unmarked
  rw [runNumbered, runNumbered, isSkipped_byteOrderMark, if_neg Bool.false_ne_true,
    session.runText_eq_of_ofText no_tokens, session.runText_eq_of_ofText no_tokens]
  by_cases skipped : isSkipped line
  · obtain ⟨error, failed⟩ := ofText_of_isSkipped file number skipped
    rw [if_pos skipped, skipped]
    rw [failed] at same
    generalize Program.ofText file number (Token.byteOrderMark ++ line) = parsed at same ⊢
    cases same
    exact ⟨rfl, rfl, rfl⟩
  · rw [if_neg skipped, Bool.eq_false_iff.mpr skipped]
    generalize Program.ofText file number line = parsed at same ⊢
    generalize Program.ofText file number (Token.byteOrderMark ++ line) = also_parsed at same ⊢
    cases same with
    | formulas same =>
        dsimp only
        rw [session.runProgram_eq_of_evaluate no_tree (same session.environment)]
        exact ⟨rfl, rfl, (Bool.and_true _).symm⟩
    | faults => exact ⟨rfl, rfl, rfl⟩

end Undumped

/-- Of the lines in front of a line only their number matters. -/
theorem runEach_runAlone_congr (session : Session σ) (file : Text) {before other : List Text}
    (same : before.length = other.length) (rest : List Text) :
    runEach (session.runAlone file) before rest = runEach (session.runAlone file) other rest := by
  induction rest generalizing before other with
  | nil => rfl
  | cons line rest induction =>
      have lengthened : (before ++ [line]).length = (other ++ [line]).length := by simp [same]
      rw [runEach, runEach, runAlone, runAlone, same, induction lengthened]

private theorem runEach_cons_apply (run : List Text → Text → StateM σ Report) (before : List Text)
    (line : Text) (rest : List Text) (host : σ) :
    runEach run before (line :: rest) host =
      ((run before line host).1.append
        (runEach run (before ++ [line]) rest (run before line host).2).1,
      (runEach run (before ++ [line]) rest (run before line host).2).2) := rfl

private theorem marked_runEach {session : Session σ} {file : Text} {fails : Bool}
    {line other : Text} {host : σ} (first : Marked fails (session.runAlone file [] line host)
      (session.runAlone file [] other host)) (rest : List Text) :
    Marked fails (runEach (session.runAlone file) [] (line :: rest) host)
      (runEach (session.runAlone file) [] (other :: rest) host) := by
  have same_number : ([] ++ [other]).length = ([] ++ [line]).length := rfl
  rw [runEach_cons_apply, runEach_cons_apply, first.host,
    runEach_runAlone_congr session file same_number]
  refine ⟨rfl, ?_, ?_⟩
  · simp only [Report.append, first.out]
  · simp only [Report.append, first.succeeded, Bool.and_right_comm]

/-- A line that is skipped can be put in front of no lines. -/
theorem runEach_lines (session : Session σ) (file content : Text) :
    runEach (session.runAlone file) [] content.lines =
      runEach (session.runAlone file) [] (content.lines.headD [] :: content.lines.tail) := by
  cases lines : content.lines with
  | nil => rfl
  | cons line rest => rfl

/--
A byte order mark in front of a text that does not begin with one is transparent, but for a first
line that is skipped without it.  Text and marked text are formulas with the same run, or neither is
a formula; and as sources of a session without dumps they leave the same host and have the same
results written, and the marked one succeeds as the other one does, unless the first line is blank
or a comment, or there is none: then it fails.
-/
theorem byteOrderMark_transparent {text : Text}
    (unmarked : ¬ Token.byteOrderMark.isPrefixOf text) :
    (∀ file firstLine, Program.SameRun σ (Program.ofText file firstLine text)
      (Program.ofText file firstLine (Token.byteOrderMark ++ text))) ∧
    ∀ session : Session σ, session.showTokens = false → session.showTree = false → ∀ host,
      (∀ path, Marked (isSkipped (text.lines.headD [])) (session.runFile path text host)
        (session.runFile path (Token.byteOrderMark ++ text) host)) ∧
      Marked (isSkipped (text.lines.headD [])) (session.runStream text host)
        (session.runStream (Token.byteOrderMark ++ text) host) := by
  refine ⟨fun file firstLine => Program.ofText_byteOrderMark file firstLine unmarked, ?_⟩
  intro session no_tokens no_tree host
  have line_unmarked : ¬ Token.byteOrderMark.isPrefixOf (text.lines.headD []) := by
    rw [Text.headD_lines, List.isPrefixOf_iff_prefix]
    exact fun marked => unmarked (List.isPrefixOf_iff_prefix.mpr
      (marked.trans (List.takeWhile_prefix _)))
  have some_byte : Token.byteOrderMark ≠ [] := by decide
  have no_newline : Text.newline ∉ Token.byteOrderMark := by decide
  have each (file : Text) : Marked (isSkipped (text.lines.headD []))
      (runEach (session.runAlone file) [] text.lines host)
      (runEach (session.runAlone file) [] (Token.byteOrderMark ++ text).lines host) := by
    rw [runEach_lines, Text.lines_behind some_byte no_newline]
    exact marked_runEach (marked_runNumbered no_tokens no_tree _ _ file 1 line_unmarked host) _
  simp only [runFile_eq_alone, runStream_eq_alone]
  exact ⟨each, each streamName⟩

/-- A session without variables and functions that shows nothing but results. -/
def bare : Session Unit where
  environment := Environment.empty
  jsonOutput := false
  writeJson := JsonLibrary.absent.dump
  colour := false
  showTokens := false
  showTree := false

theorem byteOrderMark_transparent_of_name :
    ¬ Token.byteOrderMark.isPrefixOf (Text.ascii "a") ∧ bare.showTokens = false ∧
      bare.showTree = false ∧
      Marked false (bare.runFile (Text.ascii "f") (Text.ascii "a") ())
        (bare.runFile (Text.ascii "f") (Token.byteOrderMark ++ Text.ascii "a") ()) := by
  have unmarked : ¬ Token.byteOrderMark.isPrefixOf (Text.ascii "a") := by decide
  exact ⟨unmarked, rfl, rfl,
    ((byteOrderMark_transparent unmarked).2 bare rfl rfl ()).1 (Text.ascii "f")⟩

/-- A file that holds nothing but a comment succeeds, and fails behind a mark. -/
theorem marked_comment_fails :
    ¬ Token.byteOrderMark.isPrefixOf (Text.ascii "# none") ∧
      (bare.runFile (Text.ascii "f") (Text.ascii "# none") ()).1.succeeded = true ∧
      (bare.runFile (Text.ascii "f") (Token.byteOrderMark ++ Text.ascii "# none") ()).1.succeeded =
        false :=
  ⟨by decide, rfl, rfl⟩

end Session
end Formulary
