import Formulary.Proofs.Excerpts

/-!
# Sources that grow

A source to which lines are appended one after the other is the source that is made of the whole
text at once: each line has the number that reading the text byte by byte counts for it, and what a
number stands for stays the same while the source grows.  For this the text at the start has to be
empty or to end with a newline, since an appended line begins on a line of its own.
-/

namespace Formulary

namespace Text

/-- The text has no last line that waits for its newline. -/
def Closed (text : Text) : Prop :=
  text = [] ∨ text.getLast? = some newline

private theorem closed_append_newline (text : Text) : Closed (text ++ [newline]) :=
  .inr List.getLast?_concat

private theorem lastLine_eq_nil_iff {text : Text} : lastLine text = [] ↔ text.Closed := by
  obtain rfl | ⟨front, byte, rfl⟩ := List.eq_nil_or_concat' text
  · exact ⟨fun _ => .inl rfl, fun _ => rfl⟩
  · by_cases ends : byte = newline
    · subst ends
      exact ⟨fun _ => closed_append_newline front, fun _ => lastLine_append_newline front⟩
    · rw [lastLine_append_byte front ends]
      simp [Closed, ends]

/-- A text without newlines is one line, or none if it is empty. -/
theorem lines_of_notMem {text : Text} (no_newline : newline ∉ text) :
    lines text = if text.isEmpty then [] else [text] := by
  induction text with
  | nil => rfl
  | cons byte rest induction =>
      have plain : byte ≠ newline := fun same => no_newline (same ▸ List.mem_cons_self)
      have later := induction fun listed => no_newline (List.mem_cons_of_mem byte listed)
      rw [lines_cons plain, later]
      cases rest <;> rfl

private theorem lines_append_line {content line : Text} (closed : content.Closed)
    (no_newline : newline ∉ line) :
    lines (content ++ line ++ [newline]) = lines content ++ [line] := by
  obtain ⟨before, split, lines_end⟩ := exists_ended content
  rw [lastLine_eq_nil_iff.mpr closed] at split
  have alone := lines_ended lines_end []
  have together := lines_ended lines_end (line ++ newline :: [])
  rw [← split, lines_nil, List.append_nil] at alone
  rw [lines_append_newline line [] no_newline, ← List.append_assoc,
    ← List.append_nil (ended before), ← split, lines_nil] at together
  rw [together, alone]

end Text

namespace Source

open Text (ended newline)

/-- The lines of a source under their numbers. -/
def numbered (source : Source) : List (Nat × Text) :=
  (source.lines.zipIdx 1).map Prod.swap

private theorem numbers_numbered (source : Source) :
    source.numbered.map Prod.fst = List.range' 1 source.lines.length := by
  rw [numbered, List.map_map]
  exact List.zipIdx_map_snd 1 source.lines

/--
What is known of a text of which some bytes have been read: the lines that have ended, the number of
the line that has begun, and what has been read of it.
-/
structure Reading where
  done : List (Nat × Text)
  number : Nat
  line : Text

namespace Reading

/-- The next byte ends the line or belongs to it. -/
def next (reading : Reading) (byte : UInt8) : Reading :=
  if byte = newline then
    ⟨reading.done ++ [(reading.number, reading.line)], reading.number + 1, []⟩
  else { reading with line := reading.line ++ [byte] }

/-- The lines of a text that has been read to its end; the last one counts if it is not empty. -/
def finish (reading : Reading) : List (Nat × Text) :=
  if reading.line.isEmpty then reading.done
  else reading.done ++ [(reading.number, reading.line)]

private theorem foldl_next_line {line : Text} (no_newline : newline ∉ line) (reading : Reading) :
    line.foldl next reading = { reading with line := reading.line ++ line } := by
  induction line generalizing reading with
  | nil => simp
  | cons byte line induction =>
      have plain : byte ≠ newline := fun same => no_newline (same ▸ List.mem_cons_self)
      have later := induction fun listed => no_newline (List.mem_cons_of_mem byte listed)
      rw [List.foldl_cons, next, if_neg plain, later, List.append_assoc, List.singleton_append]

private theorem foldl_next_ended {lines : List Text} (no_newline : ∀ line ∈ lines, newline ∉ line)
    (done : List (Nat × Text)) (number : Nat) :
    (ended lines).foldl next ⟨done, number, []⟩ =
      ⟨done ++ (lines.zipIdx number).map Prod.swap, number + lines.length, []⟩ := by
  induction lines generalizing done number with
  | nil => simp [ended]
  | cons line lines induction =>
      obtain ⟨first, others⟩ := List.forall_mem_cons.mp no_newline
      have later := induction others (done ++ [(number, line)]) (number + 1)
      rw [ended] at later ⊢
      rw [List.flatMap_cons, List.foldl_append, List.foldl_append, foldl_next_line first,
        List.foldl_cons, List.foldl_nil, next, if_pos rfl, List.nil_append, later,
        List.length_cons, Nat.add_right_comm, Nat.add_assoc, List.append_assoc]
      rfl

end Reading

/-- The numbered lines of a text that is read byte by byte from its first line on. -/
def readLines (text : Text) : List (Nat × Text) :=
  (text.foldl Reading.next ⟨[], 1, []⟩).finish

/-- The lines of a text have the numbers that are counted for them when the text is read. -/
theorem numbered_ofText (content : Text) : (ofText content).numbered = readLines content := by
  obtain ⟨before, split, lines_end⟩ := Text.exists_ended content
  have last_ends := Text.newline_notMem_lastLine content
  generalize Text.lastLine content = last at split last_ends
  rw [readLines, numbered, ofText, split, List.foldl_append, Reading.foldl_next_ended lines_end,
    Reading.foldl_next_line last_ends, Text.lines_ended lines_end, Text.lines_of_notMem last_ends,
    Reading.finish]
  cases last <;> simp [List.zipIdx_append, Nat.add_comm]

/-- Appends lines one after the other: the numbers that they are given, and the last source. -/
def appendEach : Source → List Text → List Nat × Source
  | source, [] => ([], source)
  | source, line :: rest =>
      let (number, grown) := source.append line
      let (numbers, last) := appendEach grown rest
      (number :: numbers, last)

private theorem lines_appendEach (source : Source) (lines : List Text) :
    (source.appendEach lines).2.lines = source.lines ++ lines := by
  induction lines generalizing source with
  | nil => exact (List.append_nil _).symm
  | cons line lines induction =>
      rw [appendEach, induction, append, List.append_assoc, List.singleton_append]

section Earlier

variable {source grown : Source} (grows : source.lines <+: grown.lines)

include grows

private theorem numbered_grows : source.numbered <+: grown.numbered := by
  obtain ⟨more, lines⟩ := grows
  refine ⟨(more.zipIdx (1 + source.lines.length)).map Prod.swap, ?_⟩
  rw [numbered, numbered, ← lines, List.zipIdx_append, List.map_append]

/-- What a number of a line stands for stays the same while the source grows. -/
theorem line_of_grows {number : Int} (earlier : number ≤ source.lines.length) :
    grown.line number = source.line number := by
  obtain ⟨more, lines⟩ := grows
  match number with
  | .ofNat (count + 1) =>
      have inside : count < source.lines.length := by
        rw [Int.ofNat_eq_natCast] at earlier
        omega
      rw [line, line, ← lines, List.getD_append _ _ _ _ inside]
  | .ofNat 0 => rfl
  | .negSucc _ => rfl

private theorem excerpt_of_grows {number : Int} (earlier : number ≤ source.lines.length)
    (column : Int) : grown.excerpt number column = source.excerpt number column := by
  rw [excerpt, excerpt, line_of_grows grows earlier]

end Earlier

/-- A line that is appended to a closed text is the next line of the longer text. -/
theorem append_ofText {content line : Text} (closed : content.Closed)
    (no_newline : newline ∉ line) :
    (ofText content).append line =
      (content.lines.length + 1, ofText (content ++ line ++ [newline])) := by
  rw [append, ofText, ofText, Text.lines_append_line closed no_newline]

private theorem appendEach_ofText {content : Text} {lines : List Text} (closed : content.Closed)
    (no_newline : ∀ line ∈ lines, newline ∉ line) :
    (ofText content).appendEach lines =
      (List.range' (content.lines.length + 1) lines.length, ofText (content ++ ended lines)) := by
  induction lines generalizing content with
  | nil => simp [appendEach, ended]
  | cons line lines induction =>
      obtain ⟨first, others⟩ := List.forall_mem_cons.mp no_newline
      have later := induction (Text.closed_append_newline (content ++ line)) others
      rw [Text.lines_append_line closed first, List.length_append, List.length_singleton] at later
      rw [appendEach, append_ofText closed first]
      simp only [later]
      rw [List.length_cons, List.range'_succ]
      simp [ended]

/--
A source that begins with an empty text or one that ends with a newline, and to which lines without
newlines are appended, gives each of them the next number, and is then the source of the whole text:
the lines at the start followed by each line and a newline, with the numbers from one on that
reading the whole byte by byte counts.  The lines that were there at any time in between stay under
their numbers, and so do their excerpts.
-/
theorem appended_is_whole {content : Text} {lines : List Text} (closed : content.Closed)
    (no_newline : ∀ line ∈ lines, newline ∉ line) :
    let numbers := ((ofText content).appendEach lines).1
    let grown := ((ofText content).appendEach lines).2
    numbers = List.range' (content.lines.length + 1) lines.length ∧
    grown.content = content ++ lines.flatMap (· ++ [newline]) ∧
    grown = ofText grown.content ∧
    grown.numbered = readLines grown.content ∧
    grown.numbered.map Prod.fst = List.range' 1 (content.lines.length + lines.length) ∧
    ∀ before after, lines = before ++ after →
      let earlier := ((ofText content).appendEach before).2
      earlier.numbered <+: grown.numbered ∧
        ∀ number column : Int, number ≤ earlier.lines.length →
          grown.line number = earlier.line number ∧
            grown.excerpt number column = earlier.excerpt number column := by
  have count := lines_appendEach (ofText content) lines
  intro numbers grown
  have whole : ((ofText content).appendEach lines) =
      (List.range' (content.lines.length + 1) lines.length, ofText (content ++ ended lines)) :=
    appendEach_ofText closed no_newline
  have grown_eq : grown = ofText (content ++ ended lines) := congrArg Prod.snd whole
  refine ⟨congrArg Prod.fst whole, by rw [grown_eq]; rfl, by rw [grown_eq]; rfl, ?_, ?_, ?earlier⟩
  · rw [grown_eq]
    exact numbered_ofText _
  · rw [numbers_numbered, count, List.length_append]
    rfl
  case earlier =>
    intro before after split earlier
    have grows : earlier.lines <+: grown.lines := by
      rw [count, lines_appendEach, split, ← List.append_assoc]
      exact List.prefix_append _ _
    exact ⟨numbered_grows grows, fun number column inside =>
      ⟨line_of_grows grows inside, excerpt_of_grows grows inside column⟩⟩

/-- An empty line and another one, behind a line that has ended. -/
theorem appended_is_whole_of_empty_line :
    (Text.ascii "1\n").Closed ∧ (∀ line ∈ [[], Text.ascii "2"], newline ∉ line) ∧
      ((ofText (Text.ascii "1\n")).appendEach [[], Text.ascii "2"]).1 = [2, 3] ∧
      ((ofText (Text.ascii "1\n")).appendEach [[], Text.ascii "2"]).2.numbered =
        [(1, Text.ascii "1"), (2, []), (3, Text.ascii "2")] := by
  have closed : (Text.ascii "1\n").Closed := .inr rfl
  have no_newline : ∀ line ∈ [[], Text.ascii "2"], newline ∉ line := by decide
  obtain ⟨numbers, content, -, numbered, -, -⟩ := appended_is_whole closed no_newline
  refine ⟨closed, no_newline, numbers, ?_⟩
  rw [numbered, content]
  decide

end Source
end Formulary
