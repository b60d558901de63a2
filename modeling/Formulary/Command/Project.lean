import Formulary.Command.FileTree
import Formulary.Command.Usage
import Formulary.Document.Values

/-!
# Projects

The directory of a project holds a file `formula.json`.  It is looked for from a directory upwards,
along the path as it is written: the parent of a path is what stands in front of its last component.
The file holds the settings of the project as the members of a JSON object.
-/

namespace Formulary

/-- The settings of a project. -/
structure Configuration where
  /-- Formulas see the builtin functions. -/
  builtins : Bool
  jsonOutput : Bool
  colour : Bool
  /-- The path of the file that holds the variables, empty if there is none. -/
  contextFile : Text
  /-- Variables, of which later ones replace earlier ones. -/
  bindings : List (Text × Value)

namespace Configuration

/-- The settings that a project has unless it says otherwise. -/
def default : Configuration := ⟨true, false, true, [], []⟩

/-- The name of the file that holds the settings. -/
def fileName : Text := Text.ascii "formula.json"

end Configuration

namespace Project

open FileTree (slash)

/-- A path below another, with one slash between them. -/
def below (path name : Text) : Text :=
  if path.getLast? == some slash then path ++ name else path ++ slash :: name

/-- What stands in front of the last component of an absolute path; the root is its own parent. -/
def parent (path : Text) : Text :=
  match ((path.reverse.dropWhile (· != slash)).dropWhile (· == slash)).reverse with
  | [] => path.take 1
  | front => front

/-- A path and its parents, at most `steps` of them. -/
def ancestorsWithin : Nat → Text → List Text
  | 0, path => [path]
  | steps + 1, path =>
      if parent path = path then [path] else path :: ancestorsWithin steps (parent path)

/-- An absolute path and all of its parents, up to the root. -/
def ancestors (path : Text) : List Text :=
  ancestorsWithin path.length path

/-- A path as it is seen from the root, when it is given in a directory. -/
def absolute (directory path : Text) : Text :=
  if path.head? == some slash then path else below directory path

/-- The path of the settings in a directory. -/
def settingsPath (directory : Text) : Text :=
  below directory Configuration.fileName

/--
The nearest directory from a path upwards that holds the settings of a project, written as the
search finds it.  There is none above an empty path.
-/
def root? (tree : FileTree) (current : Place) (start : Text) : Option Text :=
  if start.isEmpty then none
  else
    (ancestors (absolute (FileTree.absolutePath current) start)).find? fun directory =>
      tree.hasPath current (settingsPath directory)

end Project

/-- What is loaded for a command; the objects and arrays in it take tags from a number on. -/
abbrev Loading := StateT Nat (Except UsageError)

namespace Configuration

section Settings

variable (path : Text) (members : Fields Document) (setting : String)

/-- A setting that is true or false. -/
def readTruth (otherwise : Bool) : Except UsageError Bool :=
  match members.find? (Text.ascii setting) with
  | none => .ok otherwise
  | some (.boolean truth) => .ok truth
  | some _ => .error (.mistypedSetting path (Text.ascii setting) (Text.ascii "a boolean"))

/-- A setting that is a path, which is seen from a directory; it is empty if it is not given. -/
def readPath (directory : Text) : Except UsageError Text :=
  match members.find? (Text.ascii setting) with
  | none => .ok []
  | some (.text given) => .ok (Project.absolute directory given)
  | some _ => .error (.mistypedSetting path (Text.ascii setting) (Text.ascii "a string"))

/-- A setting that is an object of variables. -/
def readBindings : Loading (List (Text × Value)) :=
  match members.find? (Text.ascii setting) with
  | none => pure []
  | some (.object bindings) => modifyGet (Document.toValue.toEntries bindings).run
  | some _ => throw (.mistypedSetting path (Text.ascii setting) (Text.ascii "an object"))

end Settings

/--
The settings in the file of a path that is given in a directory.  A file that is not there is no
error; one that is there has to be right.
-/
def load (json : JsonLibrary) (read? : Text → Option Text) (directory path : Text) :
    Loading (Option Configuration) := do
  match read? path with
  | none => return none
  | some content =>
      match json.parse content with
      | .error reason => throw (.malformedJson path reason)
      | .ok (.object members) =>
          let root := Project.parent (Project.absolute directory path)
          return some {
            builtins := ← readTruth path members "builtins" default.builtins
            jsonOutput := ← readTruth path members "json_output" default.jsonOutput
            colour := ← readTruth path members "color" default.colour
            contextFile := ← readPath path members "context" root
            bindings := ← readBindings path members "variables" }
      | .ok _ => throw (.settingsNotObject path)

end Configuration
end Formulary
