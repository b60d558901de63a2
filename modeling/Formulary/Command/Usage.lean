import Formulary.Text.Basic

/-!
# Usage errors

What can be wrong with a command before any formula is read.
-/

namespace Formulary

/-- A command that cannot be carried out as it was given. -/
inductive UsageError where
  /-- An option stands last that takes an argument. -/
  | missingArgument (option : Text)
  | unknownOption (option : Text)
  /-- A definition has no name or no equals sign. -/
  | malformedDefinition (definition : Text)
  /-- Formulas are asked for from more than one source. -/
  | severalSources
  | unreadableContext (path : Text)
  | unreadableFormulas (path : Text)
  | unreadableTree (path : Text)
  /-- A file holds no JSON, for the reason that its reader gives. -/
  | malformedJson (path reason : Text)
  /-- A file of variables holds a document of this type, and no object. -/
  | contextNotObject (path type : Text)
  | settingsNotObject (path : Text)
  /-- A setting in a file is not what it has to be. -/
  | mistypedSetting (path setting expected : Text)
  deriving DecidableEq

namespace UsageError

/-- The message of a usage error, which ends at its first NUL byte. -/
def message (error : UsageError) : Text :=
  Text.beforeNul <|
    match error with
    | missingArgument option =>
        Text.ascii "option '" ++ option ++ Text.ascii "' requires an argument"
    | unknownOption option => Text.ascii "unknown option '" ++ option ++ Text.ascii "'"
    | malformedDefinition definition =>
        Text.ascii "-D expects name=value, got '" ++ definition ++ Text.ascii "'"
    | severalSources =>
        Text.ascii "give expressions, --file or --ast, not more than one of them"
    | unreadableContext path => Text.ascii "Could not open context file " ++ path
    | unreadableFormulas path => Text.ascii "Could not open file " ++ path
    | unreadableTree path => Text.ascii "Could not open AST file " ++ path
    | malformedJson path reason =>
        Text.ascii "JSON parse error in " ++ path ++ Text.ascii ": " ++ reason
    | contextNotObject path type =>
        path ++ Text.ascii ": Context must be a JSON object, got " ++ type
    | settingsNotObject path => path ++ Text.ascii ": top level must be an object"
    | mistypedSetting path setting expected =>
        path ++ Text.ascii ": '" ++ setting ++ Text.ascii "' must be " ++ expected

end UsageError
end Formulary
