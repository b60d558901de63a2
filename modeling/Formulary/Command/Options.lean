import Formulary.Command.Usage

/-!
# Options

The arguments of a command.  Options may stand among the expressions; behind `--` every argument
is an expression.  A later use of an option that takes a file replaces an earlier one.
-/

namespace Formulary

/-- A command as its arguments give it.  A file that is not given is an empty text. -/
structure Options where
  expressions : List Text
  contextFile : Text
  sourceFile : Text
  treeFile : Text
  /-- Names and values, in the order in which they are given. -/
  definitions : List (Text × Text)
  jsonOutput : Bool
  noBuiltins : Bool
  showTokens : Bool
  showTree : Bool
  showVersion : Bool
  showHelp : Bool
  deriving DecidableEq

namespace Options

/-- The command without arguments. -/
def empty : Options :=
  ⟨[], [], [], [], [], false, false, false, false, false, false⟩

/-- The options that stand alone. -/
inductive Switch where
  | help
  | version
  | json
  | noBuiltins
  | tokens
  | tree
  deriving DecidableEq

/-- The options that are followed by a file. -/
inductive FileOption where
  | context
  | source
  | tree
  deriving DecidableEq

/-- The spellings of the options that stand alone. -/
def switches : List (Text × Switch) :=
  [(Text.ascii "-h", .help), (Text.ascii "--help", .help),
    (Text.ascii "-v", .version), (Text.ascii "--version", .version),
    (Text.ascii "-j", .json), (Text.ascii "--json", .json),
    (Text.ascii "--no-builtins", .noBuiltins), (Text.ascii "--tokens", .tokens),
    (Text.ascii "--print-ast", .tree)]

/-- The spellings of the options that are followed by a file. -/
def fileOptions : List (Text × FileOption) :=
  [(Text.ascii "-c", .context), (Text.ascii "--context", .context),
    (Text.ascii "-f", .source), (Text.ascii "--file", .source),
    (Text.ascii "-a", .tree), (Text.ascii "--ast", .tree)]

/-- The option of a spelling. -/
def spelled? {α : Type} (argument : Text) (spellings : List (Text × α)) : Option α :=
  spellings.lookup argument

/-- The options with one that stands alone. -/
def withSwitch (options : Options) : Switch → Options
  | .help => { options with showHelp := true }
  | .version => { options with showVersion := true }
  | .json => { options with jsonOutput := true }
  | .noBuiltins => { options with noBuiltins := true }
  | .tokens => { options with showTokens := true }
  | .tree => { options with showTree := true }

/-- The options with a file. -/
def withFile (options : Options) (path : Text) : FileOption → Options
  | .context => { options with contextFile := path }
  | .source => { options with sourceFile := path }
  | .tree => { options with treeFile := path }

/-- The options with one more expression. -/
def withExpression (options : Options) (expression : Text) : Options :=
  { options with expressions := options.expressions ++ [expression] }

/-- The byte between the name and the value of a definition. -/
def equalsSign : UInt8 := 61

/-- The options with one more definition, which is split at its first equals sign. -/
def withDefinition (options : Options) (definition : Text) : Except UsageError Options :=
  let name := definition.takeWhile (· != equalsSign)
  if name.isEmpty || name.length == definition.length then
    .error (.malformedDefinition definition)
  else
    .ok { options with
      definitions := options.definitions ++ [(name, definition.drop (name.length + 1))] }

/-- Arguments that begin with a minus sign are options, except for the sign alone. -/
def isOption (argument : Text) : Bool :=
  argument.head? == some Text.minusSign && 1 < argument.length

/-- The spelling of a definition, which its text may follow at once. -/
def definitionMark : Text := Text.ascii "-D"

/-- Reads arguments on top of options that are already read. -/
def parseFrom (options : Options) : List Text → Except UsageError Options
  | [] => .ok options
  | argument :: rest =>
      if !isOption argument then parseFrom (options.withExpression argument) rest
      else if argument = Text.ascii "--" then
        .ok { options with expressions := options.expressions ++ rest }
      else
        match spelled? argument switches with
        | some switch => parseFrom (options.withSwitch switch) rest
        | none =>
            match spelled? argument fileOptions with
            | some option =>
                match rest with
                | [] => .error (.missingArgument argument)
                | path :: rest => parseFrom (options.withFile path option) rest
            | none =>
                if argument = definitionMark then
                  match rest with
                  | [] => .error (.missingArgument argument)
                  | definition :: rest => do
                      parseFrom (← options.withDefinition definition) rest
                else if definitionMark.isPrefixOf argument then do
                  parseFrom (← options.withDefinition (argument.drop definitionMark.length)) rest
                else .error (.unknownOption argument)

/-- How many of the three sources of formulas are given. -/
def sourceCount (options : Options) : Nat :=
  (if options.expressions.isEmpty then 0 else 1) + (if options.sourceFile.isEmpty then 0 else 1) +
    (if options.treeFile.isEmpty then 0 else 1)

/-- The options that some arguments give, of which at most one names a source of formulas. -/
def parse (arguments : List Text) : Except UsageError Options := do
  let options ← parseFrom empty arguments
  if 1 < options.sourceCount then .error .severalSources else .ok options

end Options
end Formulary
