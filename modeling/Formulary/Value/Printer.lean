import Formulary.Value.Coercion
import Formulary.Text.Colour
import Formulary.Text.Quoted

/-!
# Printing values

The form in which results are shown.  Texts inside a structure stand between quotation marks and
are not escaped; a text on its own is shown as it is.  Objects list their keys once each, in the
order of their bytes.
-/

namespace Formulary
namespace Value

/-- A list of printed parts between brackets. -/
def bracketed (parts : List Text) : Text :=
  Text.ascii "[" ++ Text.join (Text.ascii ", ") parts ++ Text.ascii "]"

/-- Printed properties between braces. -/
def braced (colour : Bool) (properties : List (Text × Text)) : Text :=
  if properties.isEmpty then Text.ascii "\x7b\x7d"
  else
    Text.ascii "\x7b " ++
      Text.join (Text.ascii ", ")
        (properties.map fun entry =>
          Colour.cyan.paint colour entry.1 ++ Text.ascii ": " ++ entry.2) ++
      Text.ascii " \x7d"

/-- The printed form of a value inside a structure. -/
def printInner (colour : Bool) : Value → Text
  | .null => Colour.gray.paint colour (Text.ascii "null")
  | .undefined => Colour.gray.paint colour (Text.ascii "undefined")
  | .number x => Colour.yellow.paint colour x.toText
  | .text bytes => Colour.green.paint colour (Text.quote bytes)
  | .boolean truth =>
      Colour.magenta.paint colour (Text.ascii (if truth then "true" else "false"))
  | .object _ entries => braced colour (Fields.normalize (printEntries entries))
  | .array _ elements => bracketed (printElements elements)
where
  /-- The printed elements of an array. -/
  printElements : List Value → List Text
    | [] => []
    | element :: rest => printInner colour element :: printElements rest
  /-- The keys of an object with their printed values. -/
  printEntries : List (Text × Value) → List (Text × Text)
    | [] => []
    | (key, value) :: rest => (key, printInner colour value) :: printEntries rest

/-- The printed form of a value. -/
def print (colour : Bool) : Value → Text
  | .text bytes => bytes
  | value => printInner colour value

end Value
end Formulary
