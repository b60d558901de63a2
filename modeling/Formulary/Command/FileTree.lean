import Formulary.Text.Basic

/-!
# File trees

A tree of directories and files without links, and the lookup of paths in it.  Every component of
a path but the last has to lead to a directory, `.` and an empty component stay where they are, and
`..` goes up.  A path ends at its first NUL byte.
-/

namespace Formulary

/-- The names that lead from the root of a tree to an entry. -/
abbrev Place := List Text

/-- The directories and files of a tree.  The root is always there. -/
structure FileTree where
  directories : List Place
  files : List (Place × Text)

namespace FileTree

/-- The byte between the components of a path. -/
def slash : UInt8 := 47

/-- The components of a path, of which some may be empty. -/
def components : Text → List Text
  | [] => [[]]
  | byte :: rest =>
      if byte = slash then [] :: components rest
      else
        match components rest with
        | [] => [[byte]]
        | first :: more => (byte :: first) :: more

/-- What stands at a place. -/
inductive Entry where
  | directory
  | file (content : Text)
  deriving DecidableEq

/-- What stands at a place, if anything does. -/
def entry? (tree : FileTree) (place : Place) : Option Entry :=
  if place.isEmpty || tree.directories.contains place then some .directory
  else (tree.files.lookup place).map .file

/-- Follows components from a place. -/
def follow? (tree : FileTree) (place : Place) : List Text → Option (Place × Entry)
  | [] => (tree.entry? place).map (place, ·)
  | name :: rest =>
      match tree.entry? place with
      | some .directory =>
          if name.isEmpty || name = Text.ascii "." then tree.follow? place rest
          else if name = Text.ascii ".." then tree.follow? place.dropLast rest
          else tree.follow? (place ++ [name]) rest
      | _ => none

/-- What a path leads to from a directory, or from the root if it begins with a slash. -/
def resolve? (tree : FileTree) (current : Place) (path : Text) : Option (Place × Entry) :=
  match path.beforeNul with
  | [] => none
  | byte :: rest =>
      tree.follow? (if byte = slash then [] else current) (components (byte :: rest))

/-- A path leads to something. -/
def hasPath (tree : FileTree) (current : Place) (path : Text) : Bool :=
  (tree.resolve? current path).isSome

/-- What can be read under a path.  A directory can be opened, and holds no bytes. -/
def read? (tree : FileTree) (current : Place) (path : Text) : Option Text :=
  (tree.resolve? current path).map fun (_, entry) =>
    match entry with
    | .directory => []
    | .file content => content

/-- The absolute path of a place. -/
def absolutePath (place : Place) : Text :=
  if place.isEmpty then [slash] else place.flatMap fun name => slash :: name

end FileTree
end Formulary
