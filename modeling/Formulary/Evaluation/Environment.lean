import Formulary.Evaluation.Run

/-!
# Environments

An environment holds the variables and the functions that a formula sees.  Every change makes a
new environment.
-/

namespace Formulary

/-- A host function: from its arguments and the state of the host to a result and a new state. -/
abbrev HostFunction (σ : Type) := List Value → σ → Except HostFailure Value × σ

/-- Variables and functions; a function may be registered without a body. -/
structure Environment (σ : Type) where
  bindings : Fields Value
  functions : Fields (Option (HostFunction σ))

namespace Environment

variable {σ : Type}

/-- The environment without variables and functions. -/
def empty : Environment σ := ⟨[], []⟩

/-- The environment of some entries, of which later ones replace earlier ones. -/
def ofLists (bindings : List (Text × Value))
    (functions : List (Text × Option (HostFunction σ))) : Environment σ :=
  ⟨Fields.ofList bindings, Fields.ofList functions⟩

/-- What a variable stands for. -/
def findVariable (environment : Environment σ) (name : Text) : Option Value :=
  environment.bindings.find? name

/-- The body of a function, if it is registered with one. -/
def findFunction (environment : Environment σ) (name : Text) : Option (HostFunction σ) :=
  (environment.functions.find? name).join

/-- The environment with a function registered, in place of one of its name. -/
def withFunction (environment : Environment σ) (name : Text)
    (function : Option (HostFunction σ)) : Environment σ :=
  { environment with functions := environment.functions.insert name function }

/-- The environment with variables laid over its own. -/
def withVariables (environment : Environment σ) (overrides : Fields Value) : Environment σ :=
  { environment with bindings := environment.bindings.merge overrides }

/-- Looks up a variable. -/
def readVariable (environment : Environment σ) (name : Text) : Run σ Value := do
  Run.report (.variableRead name)
  match environment.findVariable name with
  | some value => pure value
  | none => Run.fail (.undefinedVariable name)

/-- Looks up a function that can be called. -/
def readFunction (environment : Environment σ) (name : Text) : Run σ (HostFunction σ) := do
  Run.report (.functionRead name)
  match environment.findFunction name with
  | some function => pure function
  | none => Run.fail (.undefinedFunction name)

end Environment

namespace Run

variable {σ : Type}

/-- Calls a function under its name. -/
def invoke (name : Text) (function : HostFunction σ) (arguments : List Value) : Run σ Value :=
  fun host =>
    let (result, after) := function arguments host
    ⟨result.mapError Failure.ofHost, after, [.call name arguments]⟩

end Run
end Formulary
