import Formulary.Proofs.Lockstep

/-!
# Scalars in place of variables

To evaluate a formula with scalars laid over the variables is to evaluate the formula in which
literals of these scalars stand in the place of the names.  Only the report differs, since literals
are not looked up.
-/

namespace Formulary

variable {σ α : Type}

/-- The outcomes have the same result, leave the same host behind, and made the same calls. -/
structure Outcome.Agrees (outcome other : Outcome σ α) : Prop where
  result : other.result = outcome.result
  host : other.host = outcome.host
  calls : other.calls = outcome.calls

private theorem Outcome.Agrees.refl (outcome : Outcome σ α) :
    outcome.Agrees outcome := ⟨rfl, rfl, rfl⟩

/-- What a name stands for under some overrides, of which the last one for a name counts. -/
def Fields.replacement (overrides : Fields Literal) (name : Text) : Option Literal :=
  (ofList overrides).find? name

namespace Environment

/-- A variable stands for the scalar that is laid over it, and for what it stood for otherwise. -/
theorem findVariable_withVariables (environment : Environment σ) (overrides : Fields Literal)
    (name : Text) :
    (environment.withVariables (overrides.mapValues Literal.toValue)).findVariable name =
      ((overrides.replacement name).map Literal.toValue).or (environment.findVariable name) := by
  have merged :=
    Fields.find?_merge name (overrides.mapValues Literal.toValue) environment.bindings
  rwa [Fields.find?_ofList_mapValues] at merged

end Environment

namespace Run

/-- From every state of the host on, the outcomes agree. -/
def Agrees (run other : Run σ α) : Prop :=
  ∀ host, (run host).Agrees (other host)

private theorem congruence_agrees : Congruence (σ := σ) Agrees where
  refl run host := .refl _
  bind {_ _ first other next later} before after host := by
    have first_agrees := before host
    cases outcome : (first host).result with
    | error failure =>
        have also := first_agrees.result.trans outcome
        rw [bind_of_error outcome, bind_of_error also]
        exact ⟨rfl, first_agrees.host, first_agrees.calls⟩
    | ok value =>
        have yields : first.Yields host value (first host).host := ⟨outcome, rfl⟩
        have also : other.Yields host value (first host).host :=
          ⟨first_agrees.result.trans outcome, first_agrees.host⟩
        have next_agrees := after value (first host).host
        rw [bind_of_yields yields, bind_of_yields also]
        refine ⟨next_agrees.result, next_agrees.host, ?_⟩
        have first_calls := first_agrees.calls
        have next_calls := next_agrees.calls
        simp only [Outcome.calls] at first_calls next_calls
        simp only [Outcome.calls, List.filterMap_append, first_calls, next_calls]
  framed {_ run other} inside host :=
    ⟨congrArg (Except.mapError Failure.framed) (inside host).result, (inside host).host,
      (inside host).calls⟩

/-- A literal agrees with the look-up of the variable that stands for its value. -/
theorem lookUp_agrees (event : Event) (silent : event.call? = none) (value : α)
    (fault : EvaluationFault) :
    (lookUp event (some value) fault : Run σ α).Agrees (pure value) := by
  intro host
  refine ⟨rfl, rfl, ?_⟩
  show [] = List.filterMap Event.call? [event]
  rw [List.filterMap_cons, silent, List.filterMap_nil]

private theorem lockstep_agrees (environment : Environment σ) (overrides : Fields Literal) :
    Lockstep Agrees (environment.withVariables (overrides.mapValues Literal.toValue)) environment
      overrides.replacement where
  toCongruence := congruence_agrees
  replaced {name value} found := by
    rw [Environment.readVariable_eq, environment.findVariable_withVariables, found]
    exact lookUp_agrees _ rfl _ _
  kept {name} absent := by
    rw [Environment.readVariable_eq, Environment.readVariable_eq,
      environment.findVariable_withVariables, absent, Option.map_none, Option.none_or]
    exact congruence_agrees.refl _
  functions name := congruence_agrees.refl _

end Run

namespace Program

/--
An evaluation with a scalar laid over a variable has the outcome of the formula in which the
scalar's literal stands in the place of the variable's name; and so it is for several scalars, whose
literals are put in all at once.
-/
theorem evaluate_withVariables (program : Program) (environment : Environment σ) (host : σ) :
    (∀ name value,
      (program.evaluate (environment.withVariables [(name, value.toValue)]) host).Agrees
        ((program.substitute fun other => if name = other then some value else none).evaluate
          environment host)) ∧
    (∀ overrides : Fields Literal,
      (program.evaluate
          (environment.withVariables (overrides.mapValues Literal.toValue)) host).Agrees
        ((program.substitute overrides.replacement).evaluate environment host)) := by
  have several (overrides : Fields Literal) :=
    (Run.lockstep_agrees environment overrides).evaluate program.body host
  exact ⟨fun name value => several [(name, value)], several⟩

end Program
end Formulary
