import Formulary.Text.Basic

/-!
# Terminal colours

Coloured text stands between the escape sequence of its colour and the one that resets the
terminal.  Painting that is switched off leaves a text alone.
-/

namespace Formulary

/-- The colours of the output. -/
inductive Colour where
  | red
  | green
  | yellow
  | cyan
  | gray
  | magenta
  deriving DecidableEq

namespace Colour

/-- An escape sequence that selects a graphic rendition. -/
def sequence (parameter : String) : Text :=
  Text.ascii "\x1b[" ++ Text.ascii parameter ++ Text.ascii "m"

/-- The sequence that starts a colour. -/
def start : Colour → Text
  | red => sequence "31"
  | green => sequence "32"
  | yellow => sequence "33"
  | cyan => sequence "36"
  | gray => sequence "90"
  | magenta => sequence "95"

/-- The sequence that ends any colour. -/
def reset : Text := sequence "0"

/-- A text in a colour, if painting is switched on. -/
def paint (colour : Colour) (enabled : Bool) (text : Text) : Text :=
  if enabled then colour.start ++ text ++ reset else text

@[simp]
theorem paint_false (colour : Colour) (text : Text) : colour.paint false text = text := rfl

end Colour
end Formulary
