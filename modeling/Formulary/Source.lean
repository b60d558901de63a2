import Formulary.Text.Digits

/-!
# Sources

A source keeps the lines of a text, or of a stream that arrives line by line, so that a located
error can quote its line with a caret under the column.
-/

namespace Formulary

/-- A text with its lines. -/
structure Source where
  /-- The whole text. -/
  content : Text
  /-- The lines, of which the first has number one. -/
  lines : List Text

namespace Source

/-- The source of a text that is known as a whole. -/
def ofText (content : Text) : Source where
  content
  lines := content.lines

/-- The source that has no lines yet. -/
def empty : Source := ofText []

/-- The source with one more line, and the number of that line. -/
def append (source : Source) (line : Text) : Nat × Source :=
  (source.lines.length + 1,
    { content := source.content ++ line ++ [Text.newline]
      lines := source.lines ++ [line] })

/-- The line of a number, empty if there is none. -/
def line (source : Source) : Int → Text
  | .ofNat (number + 1) => source.lines.getD number []
  | _ => []

/-- A line with its number, and below it a caret under a column. -/
def excerpt (source : Source) (number column : Int) : Text :=
  let heading := Text.ascii " * " ++ Text.ofInt number ++ Text.ascii " | "
  heading ++ source.line number ++ [Text.newline] ++
    Text.blanks (heading.length + (column - 1).toNat) ++ Text.ascii "^"

end Source
end Formulary
