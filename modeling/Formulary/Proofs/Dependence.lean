import Formulary.Proofs.Lockstep

/-!
# What an evaluation depends on

An evaluation reports what it looks up.  In another environment that has the same under these names
it goes the same way, with the same result and the same calls, whatever else there is.
-/

namespace Formulary

variable {σ : Type}

/-- What the event looked up is the same in both environments, or missing from both. -/
def Event.SameIn (environment other : Environment σ) : Event → Prop
  | variableRead name => other.findVariable name = environment.findVariable name
  | functionRead name => other.findFunction name = environment.findFunction name
  | call _ _ => True

namespace Environment

/-- The larger environment has all variables and functions of the smaller one, and maybe more. -/
structure Extends (larger smaller : Environment σ) : Prop where
  variable_kept {name : Text} {value : Value} (found : smaller.findVariable name = some value) :
    larger.findVariable name = some value
  function_kept {name : Text} {function : HostFunction σ}
    (found : smaller.findFunction name = some function) :
    larger.findFunction name = some function

/-- Variables under other names than this one do not change what it stands for. -/
theorem findVariable_withVariables_of_absent (environment : Environment σ) {name : Text}
    {overrides : Fields Value} (absent : ∀ entry ∈ overrides, entry.1 ≠ name) :
    (environment.withVariables overrides).findVariable name = environment.findVariable name := by
  have merged := Fields.find?_merge name overrides environment.bindings
  rwa [Fields.find?_ofList_of_absent absent, Option.none_or] at merged

end Environment

namespace Run

variable {α : Type}

theorem found_of_lookUp {event : Event} {found : Option α} {fault : EvaluationFault} {host : σ}
    {value : α} (succeeds : (lookUp event found fault host).result = .ok value) :
    found = some value := by
  cases found with
  | none => cases succeeds
  | some held =>
      cases succeeds
      rfl

/-- A run has a value where another one has it that goes the same way there. -/
theorem Yields.of_eq {run also : Run σ α} {before after : σ} {value : α}
    (yields : run.Yields before value after) (same : also before = run before) :
    also.Yields before value after :=
  ⟨same ▸ yields.result, same ▸ yields.host⟩

variable (environment other : Environment σ)

/-- Wherever all that the run looks up is the same in both environments, the runs are the same. -/
def Follows (run also : Run σ α) : Prop :=
  ∀ host, (∀ event ∈ (run host).events, event.SameIn environment other) → also host = run host

/-- Wherever the run succeeds, the runs are the same. -/
def Succeeds (run also : Run σ α) : Prop :=
  ∀ host value, (run host).result = .ok value → also host = run host

private theorem lockstep_follows :
    Lockstep (Follows environment other) environment other fun _ => none where
  refl run host same := rfl
  bind {_ _ first also next later} before after host same := by
    cases outcome : (first host).result with
    -- After a failure nothing more is looked up, and agreement on the names so far is enough.
    | error failure =>
        rw [bind_of_error outcome] at same ⊢
        have first_same := before host same
        rw [← first_same] at outcome ⊢
        rw [bind_of_error outcome]
    | ok value =>
        have yields : first.Yields host value (first host).host := ⟨outcome, rfl⟩
        rw [bind_of_yields yields] at same ⊢
        have first_same := before host fun event listed =>
          same event (List.mem_append_left _ listed)
        have next_same := after value (first host).host fun event listed =>
          same event (List.mem_append_right _ listed)
        rw [bind_of_yields (yields.of_eq first_same), first_same, next_same]
  framed {_ run also} inside host same := by
    rw [Run.framed, Run.framed, inside host same]
  replaced found := nomatch found
  kept {name} absent host same := by
    rw [Environment.readVariable_eq] at same
    have found : other.findVariable name = _ := same _ List.mem_cons_self
    rw [Environment.readVariable_eq, Environment.readVariable_eq, found]
  functions name host same := by
    rw [Environment.readFunction_eq] at same
    have found : other.findFunction name = _ := same _ List.mem_cons_self
    rw [Environment.readFunction_eq, Environment.readFunction_eq, found]

variable {environment other}

private theorem lockstep_succeeds (larger : other.Extends environment) :
    Lockstep Succeeds environment other fun _ => none where
  refl run host value succeeds := rfl
  bind {_ _ first also next later} before after host value succeeds := by
    obtain ⟨middle, between, yields, next_yields⟩ := yields_bind_iff.mp ⟨succeeds, rfl⟩
    have first_same := before host middle yields.result
    have next_same := after middle between value next_yields.result
    rw [bind_of_yields yields, bind_of_yields (yields.of_eq first_same), first_same, next_same]
  framed {_ run also} inside host value succeeds := by
    cases outcome : (run host).result with
    | error failure =>
        rw [Run.framed, outcome] at succeeds
        cases succeeds
    | ok result => rw [Run.framed, Run.framed, inside host result outcome]
  replaced found := nomatch found
  kept {name} absent host value succeeds := by
    rw [Environment.readVariable_eq] at succeeds
    have found := found_of_lookUp succeeds
    rw [Environment.readVariable_eq, Environment.readVariable_eq, larger.variable_kept found, found]
  functions name host value succeeds := by
    rw [Environment.readFunction_eq] at succeeds
    have found := found_of_lookUp succeeds
    rw [Environment.readFunction_eq, Environment.readFunction_eq, larger.function_kept found, found]

end Run

namespace Program

/--
An evaluation depends on nothing but what it looks up.  It goes the same way in every environment
that has the same under these names; an override of other variables changes nothing; and a success
stays the same when there are more variables and functions.
-/
theorem evaluate_depends_on_lookups (program : Program) (environment : Environment σ) (host : σ) :
    (∀ other : Environment σ,
      (∀ event ∈ (program.evaluate environment host).events, event.SameIn environment other) →
        program.evaluate other host = program.evaluate environment host) ∧
    (∀ overrides : Fields Value,
      (∀ entry ∈ overrides,
        .variableRead entry.1 ∉ (program.evaluate environment host).events) →
        program.evaluate (environment.withVariables overrides) host =
          program.evaluate environment host) ∧
    (∀ (larger : Environment σ) (value : Value), larger.Extends environment →
      (program.evaluate environment host).result = .ok value →
        program.evaluate larger host = program.evaluate environment host) := by
  have follows (other : Environment σ) : Run.Follows environment other
      (program.evaluate environment) (program.evaluate other) := by
    have inside := (Run.lockstep_follows environment other).evaluate program.body
    rwa [Expr.substitute_none] at inside
  refine ⟨fun other same => follows other host same, fun overrides unread => ?override,
    fun larger value extended succeeds => ?larger⟩
  case override =>
    refine follows _ host fun event listed => ?_
    cases event with
    | variableRead name =>
        refine environment.findVariable_withVariables_of_absent fun entry overrides_it same => ?_
        exact unread entry overrides_it (same ▸ listed)
    | functionRead name => rfl
    | call name arguments => trivial
  case larger =>
    have inside := (Run.lockstep_succeeds extended).evaluate program.body host value succeeds
    rwa [Expr.substitute_none] at inside

/-- The branch that is not taken may name what there is not, and gets no say when it is there. -/
theorem untakenBranch_depends_on_lookups :
    let name (literal : String) : Expr := .identifier (Text.ascii literal) Token.none
    let program : Program :=
      ⟨.conditional (.call (Text.ascii "f") [name "x"] Token.none) (name "x") (name "y") Token.none,
        Token.none⟩
    let identity : HostFunction Nat :=
      fun arguments count => (.ok (arguments.headD .undefined), count + 1)
    let environment : Environment Nat :=
      ⟨[(Text.ascii "x", .boolean true)], [(Text.ascii "f", some identity)]⟩
    let overrides : Fields Value := [(Text.ascii "y", .null)]
    (program.evaluate environment 0).result = .ok (.boolean true) ∧
      (∀ entry ∈ overrides, .variableRead entry.1 ∉ (program.evaluate environment 0).events) ∧
      program.evaluate (environment.withVariables overrides) 0 =
        program.evaluate environment 0 := by
  intro name program identity environment overrides
  have unread : ∀ entry ∈ overrides,
      .variableRead entry.1 ∉ (program.evaluate environment 0).events := by
    have events : (program.evaluate environment 0).events =
        [.functionRead (Text.ascii "f"), .variableRead (Text.ascii "x"),
          .call (Text.ascii "f") [.boolean true], .variableRead (Text.ascii "x")] := rfl
    have different : Text.ascii "y" ≠ Text.ascii "x" := by decide
    simp [overrides, events, different]
  exact ⟨rfl, unread, (evaluate_depends_on_lookups program environment 0).2.1 overrides unread⟩

end Program
end Formulary
