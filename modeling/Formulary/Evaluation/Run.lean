import Formulary.Evaluation.Fault
import Formulary.Value.Basic

/-!
# Runs

A run of an evaluation reads and changes the state of the host, ends in a result or a failure, and
reports in order what it looked up and which functions it called.  Nothing happens after a failure.
-/

namespace Formulary

/-- What a run reports. -/
inductive Event where
  /-- The variable was looked up. -/
  | variableRead (name : Text)
  /-- The function was looked up. -/
  | functionRead (name : Text)
  /-- The function was called. -/
  | call (name : Text) (arguments : List Value)

/-- How a run went: its result, the state of the host afterwards, and its report. -/
structure Outcome (σ α : Type) where
  result : Except Failure α
  host : σ
  events : List Event

/-- A run with a host whose state is a `σ`. -/
def Run (σ α : Type) := σ → Outcome σ α

namespace Run

variable {σ α β : Type}

/-- The run that does nothing. -/
def done (value : α) : Run σ α := fun host => ⟨.ok value, host, []⟩

/-- The run that fails. -/
def fail (fault : EvaluationFault) : Run σ α := fun host => ⟨.error (.evaluation fault 0), host, []⟩

/-- One run, and then another that depends on the result of the first. -/
def andThen (first : Run σ α) (next : α → Run σ β) : Run σ β := fun host =>
  let before := first host
  match before.result with
  | .error failure => ⟨.error failure, before.host, before.events⟩
  | .ok value =>
      let after := next value before.host
      ⟨after.result, after.host, before.events ++ after.events⟩

instance : Monad (Run σ) where
  pure := done
  bind := andThen

/-- The run that reports an event. -/
def report (event : Event) : Run σ Unit := fun host => ⟨.ok (), host, [event]⟩

/-- The run inside a node, which every failure has to pass. -/
def framed (run : Run σ α) : Run σ α := fun host =>
  let outcome := run host
  { outcome with result := outcome.result.mapError Failure.framed }

end Run
end Formulary
