import Formulary.Proofs.CallOrder
import Formulary.Proofs.Invariants
import Formulary.Proofs.Reasons

/-!
# Where structures come from

Formulas make no objects and no arrays.  Whatever appears in an evaluation is a scalar, or it is the
value of a variable, or it is kept in such a value behind keys and indices.  So a host can tell by
identity what a formula gives back.
-/

namespace Formulary

namespace Value

/-- A step from a structure to a value that is kept in it. -/
inductive Step where
  | property (key : Text)
  | element (index : Nat)
  deriving DecidableEq

/-- What is kept behind a step. -/
def step? : Value → Step → Option Value
  | .object _ entries, .property key => Fields.find? key entries
  | .array _ elements, .element index => elements[index]?
  | _, _ => none

/-- What is kept behind some steps, one after the other. -/
def follow? (value : Value) (path : List Step) : Option Value :=
  path.foldlM step? value

private theorem follow?_append_step {value inner : Value} {path : List Step}
    (reached : value.follow? path = some inner) (step : Step) :
    value.follow? (path ++ [step]) = inner.step? step := by
  rw [follow?] at reached ⊢
  rw [List.foldlM_append, reached]
  exact bind_pure (inner.step? step)

/-- Only structures keep values. -/
theorem isStructured_of_step? {value inner : Value} {step : Step}
    (kept : value.step? step = some inner) : value.isStructured := by
  cases value with
  | object | array => rfl
  | _ => cases kept

/-- A structure is identical to a value exactly if it is that value. -/
theorem strictEquals_iff_of_isStructured {value other : Value} (structured : value.isStructured) :
    value.strictEquals other ↔ value = other := by
  cases value with
  | object =>
      cases other with
      | object => exact same_iff _ _
      | _ => exact ⟨nofun, nofun⟩
  | array =>
      cases other with
      | array => exact same_iff _ _
      | _ => exact ⟨nofun, nofun⟩
  | _ => cases structured

/-- A property that is a structure is kept in its object. -/
theorem exists_step_of_property {object key : Value}
    (structured : (object.property key).isStructured) :
    ∃ step, object.step? step = some (object.property key) := by
  rw [property] at structured ⊢
  cases object with
  | null | undefined | number | boolean => cases structured
  | object tag entries =>
      rw [propertyNamed] at structured ⊢
      cases found : Fields.find? key.toText entries with
      | none =>
          rw [found] at structured
          cases structured
      | some value => exact ⟨.property key.toText, found⟩
  | array tag elements =>
      rw [propertyNamed] at structured ⊢
      split at structured
      · cases structured
      · rename_i not_length
        rw [if_neg not_length]
        cases found : (index? key.toText).bind fun index => elements[index]? with
        | none =>
            rw [found] at structured
            cases structured
        | some element =>
            obtain ⟨index, -, picked⟩ := Option.bind_eq_some_iff.mp found
            exact ⟨.element index, picked⟩
  | text bytes =>
      rw [propertyNamed] at structured
      split at structured
      · cases structured
      · cases found : (index? key.toText).bind (Text.character? bytes) with
        | none =>
            rw [found] at structured
            cases structured
        | some character =>
            rw [found] at structured
            cases structured

end Value

private theorem Literal.toValue_not_isStructured (literal : Literal) :
    ¬ literal.toValue.isStructured := by
  cases literal <;> exact nofun

private theorem BinaryOperator.apply_not_isStructured (operator : BinaryOperator)
    (left right : Value) : ¬ (operator.apply left right).isStructured := by
  cases operator with
  | add =>
      rw [apply]
      unfold sum
      split <;> exact nofun
  | _ => exact nofun

private theorem UnaryOperator.result_not_isStructured {operator : UnaryOperator}
    {argument value : Value}
    (result : operator.result? argument = some value) : ¬ value.isStructured := by
  unfold result? at result
  split at result <;> cases result <;> exact nofun

/-- A builtin function gives back a structure only if it was given that structure. -/
theorem Builtin.apply_mem_of_isStructured (builtin : Builtin) {arguments : List Value}
    (structured : (builtin.apply arguments).isStructured) :
    builtin.apply arguments ∈ arguments := by
  cases builtin with
  | coalesce =>
      rw [apply] at structured ⊢
      cases found : arguments.find? fun value => !value.isNullish with
      | none =>
          rw [found] at structured
          cases structured
      | some value => exact List.mem_of_find?_eq_some found
  | _ => cases structured

variable {σ : Type}

namespace Environment

/-- The value is that of a variable, or it is kept there at the end of a path. -/
def Holds (environment : Environment σ) (value : Value) : Prop :=
  ∃ name start path,
    environment.findVariable name = some start ∧ start.follow? path = some value

/-- If the value is a structure, then the environment holds it. -/
def Supplies (environment : Environment σ) (value : Value) : Prop :=
  value.isStructured → environment.Holds value

variable {environment : Environment σ}

private theorem Holds.step {value inner : Value} {step : Value.Step}
    (held : environment.Holds value)
    (kept : value.step? step = some inner) : environment.Holds inner := by
  obtain ⟨name, start, path, found, reached⟩ := held
  exact ⟨name, start, path ++ [step], found, (Value.follow?_append_step reached step).trans kept⟩

private theorem Supplies.step {value inner : Value} {step : Value.Step}
    (supplied : environment.Supplies value) (kept : value.step? step = some inner) :
    environment.Supplies inner :=
  fun _ => (supplied (Value.isStructured_of_step? kept)).step kept

/-- What is made of structures that the environment holds is held by it, or is no structure. -/
theorem OnlyBuiltins.supplies (only : environment.OnlyBuiltins) :
    Invariant environment environment.Supplies where
  bound {name value} found _ := ⟨name, value, [], found, rfl⟩
  returned found arguments given before after value yields := by
    obtain ⟨builtin, rfl⟩ := only.exists_builtin found
    cases yields.result
    exact fun structured =>
      given _ (builtin.apply_mem_of_isStructured structured) structured
  property {object} key supplied structured := by
    obtain ⟨step, kept⟩ := Value.exists_step_of_property structured
    exact supplied.step kept structured
  binary operator left right _ _ structured :=
    absurd structured (operator.apply_not_isStructured left right)
  unary _ result structured := absurd structured (UnaryOperator.result_not_isStructured result)

/-- No literal is a structure, so that nothing is asked of the tree. -/
theorem literals_supplied (environment : Environment σ) (expr : Expr) :
    expr.Literals environment.Supplies :=
  fun value _ _ structured => absurd structured value.toValue_not_isStructured

end Environment

namespace Expr

/-- What a function is called with are the values of the arguments of a call. -/
theorem exists_invokes {environment : Environment σ} {expr : Expr} {host : σ} {name : Text}
    {values : List Value} (called : .call name values ∈ (expr.evaluate environment host).events) :
    ∃ place, Invokes environment expr host place name values := by
  have listed : (name, values) ∈ (expr.evaluate environment host).calls :=
    List.mem_filterMap.mpr ⟨_, called, rfl⟩
  obtain ⟨chosen, agrees⟩ := exists_agrees environment expr host
  obtain ⟨invoked, traced⟩ := exists_traced agrees
  obtain ⟨place, -, invokes⟩ := exists_partner traced.calls.flip listed
  exact ⟨place, invokes⟩

end Expr

namespace Program

/--
The value appears in an evaluation: as its result, as the value of a node that it comes to, as an
argument of a call, or inside a value that appears.
-/
inductive Appears (environment : Environment σ) (program : Program) (host : σ) : Value → Prop where
  | result {value} (succeeds : (program.evaluate environment host).result = .ok value) :
      Appears environment program host value
  | node {place node reached value}
      (reaches : Expr.Reaches environment program.body host place node reached)
      (succeeds : (node.evaluate environment reached).result = .ok value) :
      Appears environment program host value
  | argument {name arguments argument}
      (called : .call name arguments ∈ (program.evaluate environment host).events)
      (given : argument ∈ arguments) : Appears environment program host argument
  | inside {value step inner} (outer : Appears environment program host value)
      (kept : value.step? step = some inner) : Appears environment program host inner

private theorem Appears.supplied {environment : Environment σ} (only : environment.OnlyBuiltins)
    {program : Program} {host : σ} {value : Value}
    (appears : Appears environment program host value) : environment.Supplies value := by
  have inside (expr : Expr) : (expr.evaluate environment).Gives environment.Supplies :=
    only.supplies.evaluate expr (environment.literals_supplied expr)
  induction appears with
  | result succeeds => exact inside program.body _ _ _ ⟨succeeds, rfl⟩
  | node reaches succeeds => exact inside _ _ _ _ ⟨succeeds, rfl⟩
  | argument called given =>
      obtain ⟨place, reaches, found, yields⟩ := Expr.exists_invokes called
      exact Run.gives_evaluateAll (fun expr _ => inside expr) _ _ _ yields _ given
  | inside outer kept induction => exact induction.step kept

/--
In an environment whose functions are the builtin ones, every object and every array that appears in
the evaluation of any tree, also of one that fails, is identical to one in the environment: to the
value of a variable, or to what is kept there at the end of a path of keys and indices.
-/
theorem structures_from_environment {environment : Environment σ}
    (only : environment.OnlyBuiltins) (program : Program) (host : σ) {value : Value}
    (appears : Appears environment program host value) (structured : value.isStructured) :
    ∃ origin, environment.Holds origin ∧ value.strictEquals origin :=
  ⟨value, appears.supplied only structured,
    (Value.strictEquals_iff_of_isStructured structured).mpr rfl⟩

/-- An array that an object keeps, behind a function that passes it on. -/
theorem structures_from_environment_of_coalesce :
    ∃ (environment : Environment Unit) (program : Program),
      environment.OnlyBuiltins ∧
      (program.evaluate environment ()).result = .ok (.array 1 [.null]) ∧
      Appears environment program () (.array 1 [.null]) ∧
      (Value.array 1 [.null]).isStructured ∧
      ∃ origin, environment.Holds origin ∧ (Value.array 1 [.null]).strictEquals origin := by
  let environment : Environment Unit := (Environment.withBuiltins .empty).withVariables
    [(Text.ascii "x", .object 0 [(Text.ascii "a", .array 1 [.null])])]
  let property : Expr := .member (.identifier (Text.ascii "x") .none)
    (.identifier (Text.ascii "a") .none) false .none
  let program : Program :=
    ⟨.call (Text.ascii "coalesce") [.literal .null .none, property] .none, .none⟩
  have only : environment.OnlyBuiltins := rfl
  have succeeds : (program.evaluate environment ()).result = .ok (.array 1 [.null]) := by
    decide +kernel
  have appears : Appears environment program () (.array 1 [.null]) := .result succeeds
  exact ⟨environment, program, only, succeeds, appears, rfl,
    structures_from_environment only program () appears rfl⟩

end Program
end Formulary
