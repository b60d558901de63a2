import Mathlib.Data.List.Basic
import Mathlib.Data.List.GetD
import Formulary.Command.Session
import Formulary.Proofs.Places

/-!
# Excerpts of sources

A syntax error quotes the line in which it lies, with a caret under its first byte.  The lines of a
text, the lines of a file and those of a stream are counted in the same way, so that the line that
is quoted is the line that the error is counted to lie in.
-/

namespace Formulary

namespace Text

/-- The line of an offset: the bytes around it between two newlines. -/
def lineAround (text : Text) (offset : Nat) : Text :=
  lastLine (text.take offset) ++ firstLine (text.drop offset)

/-- What stands in front of a line that is quoted. -/
def lineHeading (text : Text) (offset : Nat) : Text :=
  ascii " * " ++ ofInt (1 + (text.take offset).count newline) ++ ascii " | "

/-- The line of an offset behind its number. -/
def quotedLine (text : Text) (offset : Nat) : Text :=
  lineHeading text offset ++ lineAround text offset

/-- How many bytes stand in front of the byte of an offset where its line is quoted. -/
def caretColumn (text : Text) (offset : Nat) : Nat :=
  (lineHeading text offset ++ lastLine (text.take offset)).length

/-- The line of an offset behind its number, and below it a caret under the byte of the offset. -/
def excerptAt (text : Text) (offset : Nat) : Text :=
  quotedLine text offset ++ [newline] ++ blanks (caretColumn text offset) ++ ascii "^"

/-- Lines with a newline behind each of them. -/
def ended (lines : List Text) : Text :=
  lines.flatMap (· ++ [newline])

theorem lines_cons {byte : UInt8} (plain : byte ≠ newline) (rest : Text) :
    lines (byte :: rest) = (byte :: (lines rest).headD []) :: (lines rest).tail := by
  rw [lines, if_neg plain]
  cases lines rest <;> rfl

private theorem firstLine_cons {byte : UInt8} (plain : byte ≠ newline) (rest : Text) :
    firstLine (byte :: rest) = byte :: firstLine rest := by
  simp [firstLine, plain]

theorem headD_lines (text : Text) : (lines text).headD [] = firstLine text := by
  induction text with
  | nil => rfl
  | cons byte rest induction =>
      by_cases ends : byte = newline
      · subst ends
        simp [firstLine]
      · rw [lines_cons ends, firstLine_cons ends, List.headD_cons, induction]

theorem firstLine_append {front : Text} (no_newline : newline ∉ front) (back : Text) :
    firstLine (front ++ back) = front ++ firstLine back := by
  have plain : ∀ byte ∈ front, (byte != newline) = true := fun byte listed =>
    bne_iff_ne.mpr fun same => no_newline (same ▸ listed)
  exact List.takeWhile_append_of_pos plain

private theorem lastLine_append (front : Text) {back : Text} (no_newline : newline ∉ back) :
    lastLine (front ++ back) = lastLine front ++ back := by
  have plain : ∀ byte ∈ back.reverse, (byte != newline) = true := fun byte listed =>
    bne_iff_ne.mpr fun same => no_newline (same ▸ List.mem_reverse.mp listed)
  rw [lastLine, List.reverse_append, List.takeWhile_append_of_pos plain, List.reverse_append,
    List.reverse_reverse, lastLine]

theorem lastLine_of_notMem {text : Text} (no_newline : newline ∉ text) : lastLine text = text :=
  lastLine_append [] no_newline

theorem newline_notMem_lastLine (text : Text) : newline ∉ lastLine text := by
  intro listed
  have inside := List.mem_takeWhile_imp (List.mem_reverse.mp listed)
  simp at inside

section Ended

variable {before : List Text} (no_newline : ∀ line ∈ before, newline ∉ line)

include no_newline

private theorem count_ended : (ended before).count newline = before.length := by
  induction before with
  | nil => rfl
  | cons line before induction =>
      obtain ⟨first, others⟩ := List.forall_mem_cons.mp no_newline
      rw [ended, List.flatMap_cons, List.count_append, List.count_append,
        List.count_eq_zero.mpr first, List.length_cons, ← induction others, ended]
      simp [Nat.add_comm]

theorem lines_ended (rest : Text) : lines (ended before ++ rest) = before ++ lines rest := by
  induction before with
  | nil => rfl
  | cons line before induction =>
      obtain ⟨first, others⟩ := List.forall_mem_cons.mp no_newline
      rw [ended, List.flatMap_cons, List.append_assoc, List.append_assoc, List.singleton_append,
        lines_append_newline _ _ first, List.cons_append]
      exact congrArg _ (induction others)

end Ended

private theorem lastLine_ended (before : List Text) : lastLine (ended before) = [] := by
  obtain rfl | ⟨before, line, rfl⟩ := List.eq_nil_or_concat' before
  · rfl
  · rw [ended, List.flatMap_append, List.flatMap_singleton, ← List.append_assoc,
      lastLine_append_newline]

/-- A text is lines with their ends, and a last line without one. -/
theorem exists_ended (text : Text) :
    ∃ before, text = ended before ++ lastLine text ∧ ∀ line ∈ before, newline ∉ line := by
  induction text using List.reverseRecOn with
  | nil => exact ⟨[], rfl, by simp⟩
  | append_singleton text byte induction =>
      obtain ⟨before, split, no_newline⟩ := induction
      by_cases ends : byte = newline
      · subst ends
        refine ⟨before ++ [lastLine text], ?_, ?_⟩
        · rw [lastLine_append_newline, ended, List.flatMap_append, List.flatMap_singleton,
            List.append_nil, ← List.append_assoc]
          exact congrArg (· ++ _) split
        · exact List.forall_mem_append.mpr
            ⟨no_newline, List.forall_mem_singleton.mpr (newline_notMem_lastLine text)⟩
      · refine ⟨before, ?_, no_newline⟩
        rw [lastLine_append_byte text ends, ← List.append_assoc]
        exact congrArg (· ++ _) split

/-- The line of an offset is the one whose number is counted by the newlines in front. -/
theorem getD_lines (text : Text) (offset : Nat) :
    (lines text).getD ((text.take offset).count newline) [] = lineAround text offset := by
  obtain ⟨before, split, no_newline⟩ := exists_ended (text.take offset)
  have last := newline_notMem_lastLine (text.take offset)
  have whole : text = ended before ++ (lastLine (text.take offset) ++ text.drop offset) := by
    rw [← List.append_assoc, ← split, List.take_append_drop]
  have count : (text.take offset).count newline = before.length := by
    rw [split, List.count_append, count_ended no_newline, List.count_eq_zero.mpr last,
      Nat.add_zero]
  have numbered := congrArg lines whole
  rw [lines_ended no_newline] at numbered
  rw [numbered, count, List.getD_append_right _ _ _ _ (Nat.le_refl _), Nat.sub_self, lineAround,
    ← firstLine_append last, ← headD_lines]
  cases lines (lastLine (text.take offset) ++ text.drop offset) <;> rfl

theorem eq_nil_of_lines {text : Text} (empty : lines text = []) : text = [] := by
  cases text with
  | nil => rfl
  | cons byte rest =>
      by_cases ends : byte = newline
      · subst ends
        rw [lines_newline] at empty
        cases empty
      · rw [lines_cons ends] at empty
        cases empty

/-- The first line of a text ends with the text or with a newline, behind which the others are. -/
theorem lines_eq_cons {content line : Text} {after : List Text}
    (split : lines content = line :: after) :
    newline ∉ line ∧ ((content = line ∧ after = []) ∨
      ∃ rest, content = line ++ newline :: rest ∧ lines rest = after) := by
  induction content generalizing line after with
  | nil => cases split
  | cons byte rest induction =>
      by_cases ends : byte = newline
      · subst ends
        rw [lines_newline] at split
        cases split
        exact ⟨List.not_mem_nil, .inr ⟨rest, rfl, rfl⟩⟩
      · rw [lines_cons ends] at split
        cases below : lines rest with
        | nil =>
            rw [below] at split
            cases split
            obtain rfl := eq_nil_of_lines below
            exact ⟨List.not_mem_cons_of_ne_of_not_mem (Ne.symm ends) List.not_mem_nil,
              .inl ⟨rfl, rfl⟩⟩
        | cons first more =>
            rw [below] at split
            cases split
            obtain ⟨no_newline, behind⟩ := induction below
            refine ⟨List.not_mem_cons_of_ne_of_not_mem (Ne.symm ends) no_newline, ?_⟩
            obtain ⟨rfl, empty⟩ | ⟨rest', rfl, later⟩ := behind
            · exact .inl ⟨rfl, empty⟩
            · exact .inr ⟨rest', rfl, later⟩

/-- A line of a text stands behind the lines in front of it, and a newline or nothing behind it. -/
theorem eq_of_lines {content line : Text} {before after : List Text}
    (split : lines content = before ++ line :: after) :
    (∀ other ∈ before, newline ∉ other) ∧ newline ∉ line ∧
      ∃ tail, content = ended before ++ (line ++ tail) ∧ firstLine tail = [] := by
  induction before generalizing content with
  | nil =>
      obtain ⟨no_newline, ⟨rfl, -⟩ | ⟨rest, rfl, -⟩⟩ := lines_eq_cons split
      · exact ⟨by simp, no_newline, [], by simp [ended], rfl⟩
      · exact ⟨by simp, no_newline, newline :: rest, rfl, by simp [firstLine]⟩
  | cons first before induction =>
      obtain ⟨first_ends, ⟨-, none⟩ | ⟨rest, rfl, later⟩⟩ := lines_eq_cons split
      · simp at none
      · obtain ⟨others, no_newline, tail, rfl, ends⟩ := induction later
        refine ⟨List.forall_mem_cons.mpr ⟨first_ends, others⟩, no_newline, tail, ?_, ends⟩
        simp [ended]

/-- The caret stands under the byte of the offset. -/
theorem getElem?_quotedLine {text : Text} {offset : Nat} {byte : UInt8}
    (here : text[offset]? = some byte) (plain : byte ≠ newline) :
    (quotedLine text offset)[caretColumn text offset]? = some byte := by
  have behind : text.drop offset = byte :: text.drop (offset + 1) :=
    List.drop_eq_getElem?_toList_append.trans (by rw [here]; rfl)
  rw [quotedLine, lineAround, caretColumn, ← List.append_assoc, behind, firstLine_cons plain,
    List.getElem?_append_right (Nat.le_refl _), Nat.sub_self]
  rfl

/-- Behind the last newline of a text there is no line. -/
theorem lineAround_length (front : Text) :
    lineAround (front ++ [newline]) (front ++ [newline]).length = [] := by
  rw [lineAround, List.take_length, List.drop_length, lastLine_append_newline]
  rfl

/-- The end of a text behind its newline is on a line that has a number and no bytes. -/
example : excerptAt (ascii "1 +\n") 4 = ascii " * 2 | \n       ^" := by decide +kernel

end Text

namespace Source

open Text (ended lastLine lineAround excerptAt)

/-- The source of a stream from which some lines have been received. -/
def received (lines : List Text) : Source :=
  lines.foldl (fun source line => (source.append line).2) empty

private theorem received_append (before : List Text) (line : Text) :
    received (before ++ [line]) = ((received before).append line).2 :=
  List.foldl_append ..

theorem lines_received (lines : List Text) : (received lines).lines = lines := by
  induction lines using List.reverseRecOn with
  | nil => rfl
  | append_singleton before line induction =>
      rw [received_append, append, induction]

theorem line_succ (source : Source) (count : Nat) :
    source.line (1 + count) = source.lines.getD count [] := by
  rw [Int.add_comm]
  rfl

/--
A text is read as a part of a whole, from an offset of the whole on and with the number of its first
line: a text of its own, a line of a file whose source is known, or the last line of a stream that
has been received so far.
-/
inductive Passage : Text → Source → Nat → Int → Text → Prop where
  | whole {text} : Passage text (ofText text) 0 1 text
  | ofFile {content before line after} (split : content.lines = before ++ line :: after) :
      Passage content (ofText content) (ended before).length (before.length + 1) line
  | ofStream {content before line after} (split : content.lines = before ++ line :: after) :
      Passage content (received (before ++ [line])) (ended before).length (before.length + 1) line

/-- Around an offset inside a line of a text is that line, with the bytes in front of the offset. -/
theorem line_of_lines {content line : Text} {before after : List Text}
    (split : content.lines = before ++ line :: after) {offset : Nat}
    (inside : offset ≤ line.length) :
    (content.take ((ended before).length + offset)).count Text.newline = before.length ∧
      lastLine (content.take ((ended before).length + offset)) = lastLine (line.take offset) ∧
      lineAround content ((ended before).length + offset) = line ∧
      (line.take offset).count Text.newline = 0 := by
  obtain ⟨others, no_newline, tail, rfl, ends⟩ := Text.eq_of_lines split
  have front : Text.newline ∉ line.take offset := fun listed =>
    no_newline (List.mem_of_mem_take listed)
  have back : Text.newline ∉ line.drop offset := fun listed =>
    no_newline (List.mem_of_mem_drop listed)
  have count := List.count_eq_zero.mpr front
  have last : lastLine (ended before ++ line.take offset) = line.take offset := by
    rw [Text.lastLine_append _ front, Text.lastLine_ended, List.nil_append]
  rw [lineAround, List.take_length_add_append, List.drop_length_add_append,
    List.take_append_of_le_length inside, List.drop_append_of_le_length inside, last,
    Text.firstLine_append back, ends, List.append_nil, List.take_append_drop,
    Text.lastLine_of_notMem front, List.count_append, Text.count_ended others, count]
  exact ⟨rfl, rfl, rfl, rfl⟩

private theorem excerpt_eq {source : Source} {whole : Text} {offset : Nat} {number column : Int}
    (number_eq : number = 1 + (whole.take offset).count Text.newline)
    (column_eq : column = 1 + (lastLine (whole.take offset)).length)
    (line_eq : source.lines.getD ((whole.take offset).count Text.newline) [] =
      lineAround whole offset) :
    source.excerpt number column = excerptAt whole offset := by
  subst number_eq column_eq
  have width (count : Nat) : (1 + (count : Int) - 1).toNat = count := by omega
  simp only [excerpt, line_succ, line_eq, width, excerptAt, Text.quotedLine, Text.caretColumn,
    Text.lineHeading, List.length_append]

/-- A location in a passage is quoted as the offset in the whole. -/
theorem Passage.excerpt_eq {whole text : Text} {source : Source} {start offset : Nat}
    {firstLine : Int} (passage : Passage whole source start firstLine text) {location : Location}
    (marks : location.Marks firstLine text offset) (inside : offset ≤ text.length) :
    source.excerpt location.line location.column = excerptAt whole (start + offset) := by
  obtain ⟨line, column⟩ := marks
  cases passage with
  | whole =>
      rw [Nat.zero_add]
      exact Source.excerpt_eq line column (Text.getD_lines _ offset)
  | ofFile split =>
      obtain ⟨count, last, around, none⟩ := line_of_lines split inside
      refine Source.excerpt_eq ?_ ?_ ?_
      · rw [line, none, count]
        omega
      · rw [column, last]
      · rw [count, around, ofText, split]
        simp
  | ofStream split =>
      obtain ⟨count, last, around, none⟩ := line_of_lines split inside
      refine Source.excerpt_eq ?_ ?_ ?_
      · rw [line, none, count]
        omega
      · rw [column, last]
      · rw [count, around, lines_received]
        simp

end Source

namespace Session

variable {σ : Type}

/-- Runs lines in order, each of them with those in front of it. -/
def runEach (run : List Text → Text → StateM σ Report) : List Text → List Text → StateM σ Report
  | _, [] => pure Report.empty
  | before, line :: rest => do
      let first ← run before line
      let others ← runEach run (before ++ [line]) rest
      return first.append others

theorem runLinesFrom_eq (session : Session σ) (source : Source) (file : Text)
    (before rest : List Text) :
    session.runLinesFrom source file (before.length + 1) rest =
      runEach (fun before line => session.runNumbered source file (before.length + 1) line)
        before rest := by
  induction rest generalizing before with
  | nil => rfl
  | cons line rest induction =>
      have next := induction (before ++ [line])
      rw [List.length_append, List.length_singleton] at next
      rw [runLinesFrom, runEach, next]

theorem runStreamFrom_eq (session : Session σ) (before rest : List Text) :
    session.runStreamFrom (Source.received before) rest =
      runEach (fun before line => session.runNumbered (Source.received (before ++ [line]))
        streamName (before.length + 1) line) before rest := by
  induction rest generalizing before with
  | nil => rfl
  | cons line rest induction =>
      have next := induction (before ++ [line])
      have number : ((Source.received before).append line).1 = before.length + 1 := by
        rw [Source.append, Source.lines_received]
      rw [runStreamFrom, runEach, ← next, Source.received_append, ← number]

/-- A text that is no formula is reported with the message of its error. -/
theorem err_runText (session : Session σ) (source : Source) {file text : Text} {firstLine : Int}
    {error : SyntaxError} (failed : Program.ofText file firstLine text = .error error) (host : σ) :
    (session.runText source file firstLine text host).1.err =
      (session.failed (error.message (some source))).err := by
  rw [runText]
  cases sequenced : Token.sequence file firstLine text with
  | error other =>
      simp only [Program.ofText, sequenced, bind, Except.bind] at failed
      cases failed
      rfl
  | ok tokens =>
      simp only [Program.ofText, sequenced, bind, Except.bind] at failed
      simp only [failed]
      rfl

end Session

namespace Program

open Lexicon (Lexed)
open Text (excerptAt lineAround quotedLine caretColumn)

variable {σ : Type}

/--
Tokens have the line and the column of their first byte, and errors those of the byte where they
lie.  The excerpt of an error is the line around this byte and a caret under it, for a text of its
own as well as for a line of a file or of a stream, and behind the last newline the line is empty;
so the messages of a session show it, up to their first NUL byte.
-/
theorem located_and_quoted (session : Session σ) :
    (∀ file firstLine text tokens, Token.sequence file firstLine text = .ok tokens →
      ∃ placed, Lexed text placed ∧ tokens = placed.map Prod.fst ∧
        ∀ entry ∈ placed, entry.1.location.Marks firstLine text entry.2) ∧
    (∀ file firstLine text error, Token.sequence file firstLine text = .error error →
      ∃ offset, FaultAt file firstLine text error.fault offset ∧
        error.location.Marks firstLine text offset) ∧
    (∀ whole source start firstLine text, Source.Passage whole source start firstLine text →
      ∀ file error, Program.ofText file firstLine text = .error error →
        ∃ offset, FaultAt file firstLine text error.fault offset ∧
          error.location.Marks firstLine text offset ∧
          SyntaxError.trace (some source) error.location = excerptAt whole (start + offset) ∧
          error.message (some source) =
            Text.beforeNul (Text.ascii "SyntaxError at " ++ error.location.toText ++
              Text.ascii "\n" ++ error.fault.message ++ Text.ascii "\n --> Traced at:\n" ++
              excerptAt whole (start + offset))) ∧
    (∀ text offset, lineAround text offset =
      text.lines.getD ((text.take offset).count Text.newline) []) ∧
    (∀ front, lineAround (front ++ [Text.newline]) (front ++ [Text.newline]).length = []) ∧
    (∀ (text : Text) offset byte, text[offset]? = some byte → byte ≠ Text.newline →
      (quotedLine text offset)[caretColumn text offset]? = some byte) ∧
    (∀ file text, session.runLine file text = session.runText (Source.ofText text) file 1 text) ∧
    (∀ path content, session.runFile path content =
      Session.runEach (fun before line =>
        session.runNumbered (Source.ofText content) path (before.length + 1) line)
        [] content.lines) ∧
    (∀ content, session.runStream content =
      Session.runEach (fun before line =>
        session.runNumbered (Source.received (before ++ [line])) Session.streamName
          (before.length + 1) line)
        [] content.lines) ∧
    (∀ source file firstLine text error host, Program.ofText file firstLine text = .error error →
      (session.runText source file firstLine text host).1.err =
        (session.failed (error.message (some source))).err) := by
  refine ⟨?tokens, ?lexical, ?excerpts, fun text offset => (Text.getD_lines text offset).symm,
    Text.lineAround_length, fun _ _ _ => Text.getElem?_quotedLine, fun _ _ => rfl, ?files,
    ?streams, fun source _ _ _ _ host failed => session.err_runText source failed host⟩
  case tokens =>
    intro file firstLine text tokens sequenced
    obtain ⟨placed, lexed, same, located⟩ := Lexicon.exists_lexed sequenced
    exact ⟨placed, lexed, same, fun entry listed => (located entry listed).2⟩
  case lexical =>
    intro file firstLine text error failed
    obtain ⟨offset, lies, -, marks⟩ := faultAt_of_sequence failed
    exact ⟨offset, lies, marks⟩
  case excerpts =>
    intro whole source start firstLine text passage file error failed
    obtain ⟨offset, lies, -, marks⟩ := faultAt_of_ofText failed
    have excerpt := passage.excerpt_eq marks lies.le
    refine ⟨offset, lies, marks, excerpt, ?_⟩
    rw [← excerpt]
    rfl
  case files =>
    intro path content
    exact session.runLinesFrom_eq (Source.ofText content) path [] content.lines
  case streams =>
    intro content
    exact session.runStreamFrom_eq [] content.lines

end Program
end Formulary
