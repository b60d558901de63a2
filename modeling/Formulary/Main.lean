import Formulary.Command.Execute

/-!
# The command

Reads what the arguments name, hands it to `Command.run` and writes the answer.  The command is
built without a JSON library.
-/

namespace Formulary

/-- All bytes of an open file, or none if it cannot be read after all. -/
def readOpen (handle : IO.FS.Handle) : IO Text := do
  try
    return (← handle.readBinToEnd).toList
  catch _ =>
    return []

/-- The bytes under a path.  A directory can be opened, and holds none. -/
def readPath (path : Text) : IO (Option Text) := do
  match String.fromUTF8? ⟨path.beforeNul.toArray⟩ with
  | none => return none
  | some name =>
      try
        return some (← readOpen (← IO.FS.Handle.mk name .read))
      catch _ =>
        return none

/-- The first directory of a list that holds settings. -/
def findSettings : List Text → IO (Option Text)
  | [] => return none
  | directory :: rest => do
      match ← readPath (Project.settingsPath directory) with
      | some _ => return some directory
      | none => findSettings rest

/-- The contents under some paths. -/
def readPaths (paths : List Text) : IO (Text → Option Text) := do
  let contents ← paths.mapM fun path => do
    return (path, ← readPath path)
  return fun path => (contents.lookup path).join

/-- What the command finds around it; standard input is read only if formulas come from it. -/
def observe (arguments : List Text) : IO Command.Surroundings := do
  let options := (Options.parse arguments).toOption.getD Options.empty
  let directory := (← IO.currentDir).toString.toUTF8.toList
  let projectRoot ← findSettings (Project.ancestors directory)
  let reads := !options.showHelp && !options.showVersion && Command.readsInput options
  let input ← if reads then (← IO.getStdin).readBinToEnd else pure ByteArray.empty
  let around : Command.Surroundings := {
    json := JsonLibrary.absent
    read? := ← readPaths (projectRoot.toList.map Project.settingsPath)
    input := input.toList
    terminal := ← (← IO.getStdout).isTty
    directory, projectRoot }
  -- The settings may name one more file, so that they are read ahead of the others.
  let configuration := ((Command.configuration around).run' 0).toOption.join
  let named := [Session.contextFile options configuration, options.sourceFile, options.treeFile]
  return { around with
    read? := ← readPaths (named ++ projectRoot.toList.map Project.settingsPath) }

end Formulary

open Formulary in
/-- Runs the command on the program's arguments. -/
def main (arguments : List String) : IO UInt32 := do
  let arguments := arguments.map fun argument => argument.toUTF8.toList
  let around ← observe arguments
  let stdout ← IO.getStdout
  let stderr ← IO.getStderr
  let result := Command.run arguments around (← stderr.isTty)
  stdout.write ⟨result.out.toArray⟩
  stdout.flush
  stderr.write ⟨result.err.toArray⟩
  return UInt32.ofNat result.status
