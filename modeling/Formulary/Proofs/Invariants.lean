import Formulary.Proofs.Dependence
import Formulary.Proofs.Outlines

/-!
# Invariants of values

A property of values that the literals of a formula have, that variables and functions give, and
that access, operators and coercions keep, is one of every result.
-/

namespace Formulary

variable {σ : Type}

namespace Expr

private theorem nodes_subset_nodesOfAll {expr : Expr} {exprs : List Expr} (listed : expr ∈ exprs) :
    expr.nodes ⊆ nodes.nodesOfAll exprs := by
  induction exprs with
  | nil => cases listed
  | cons first rest induction =>
      rcases List.mem_cons.mp listed with rfl | later
      · exact List.subset_append_left _ _
      · exact List.subset_append_of_subset_right _ (induction later)

/-- The nodes below a child are nodes below its parent. -/
theorem nodes_subset_of_child {expr child : Expr} (listed : child ∈ expr.children) :
    child.nodes ⊆ expr.nodes := by
  cases expr with
  | missing | literal | identifier | unsupported => cases listed
  | call => exact List.subset_cons_of_subset _ (nodes_subset_nodesOfAll listed)
  | member | binary | unary | conditional =>
      intro node member
      simp only [children, List.mem_cons, List.not_mem_nil, or_false] at listed
      rw [nodes]
      grind

/-- Every literal of the tree has the property. -/
def Literals (holds : Value → Prop) (expr : Expr) : Prop :=
  ∀ value token, literal value token ∈ expr.nodes → holds value.toValue

private theorem Literals.child {holds : Value → Prop} {expr child : Expr}
    (literals : expr.Literals holds) (listed : child ∈ expr.children) : child.Literals holds :=
  fun value token member => literals value token (nodes_subset_of_child listed member)

end Expr

namespace Run

variable {α β : Type}

/-- Every value of the run has the property. -/
def Gives (run : Run σ α) (holds : α → Prop) : Prop :=
  ∀ before after value, run.Yields before value after → holds value

private theorem gives_pure {value : α} {holds : α → Prop} (held : holds value) :
    (pure value : Run σ α).Gives holds := by
  intro before after result yields
  obtain ⟨rfl, -⟩ := yields_pure_iff.mp yields
  exact held

private theorem gives_lookUp {event : Event} {found : Option α} {fault : EvaluationFault}
    {holds : α → Prop} (held : ∀ value, found = some value → holds value) :
    (lookUp event found fault : Run σ α).Gives holds :=
  fun _ _ value yields => held value (found_of_lookUp yields.result)

private theorem gives_fail (fault : EvaluationFault) (holds : α → Prop) :
    (fail fault : Run σ α).Gives holds :=
  fun _ _ _ yields => nomatch yields.result

private theorem Gives.bind {first : Run σ α} {next : α → Run σ β} {middle : α → Prop}
    {holds : β → Prop}
    (before : first.Gives middle) (after : ∀ value, middle value → (next value).Gives holds) :
    (first >>= next).Gives holds := by
  intro host reached result yields
  obtain ⟨value, between, first_yields, next_yields⟩ := yields_bind_iff.mp yields
  exact after value (before _ _ value first_yields) _ _ _ next_yields

private theorem Gives.framed {run : Run σ α} {holds : α → Prop} (gives : run.Gives holds) :
    run.framed.Gives holds := by
  intro before after value yields
  cases outcome : (run before).result with
  | error failure =>
      have failed := yields.result
      rw [Run.framed, outcome] at failed
      cases failed
  | ok result =>
      have succeeds := yields.result
      rw [Run.framed, outcome] at succeeds
      cases succeeds
      exact gives _ _ _ ⟨outcome, yields.host⟩

theorem gives_evaluateAll {environment : Environment σ} {holds : Value → Prop} {exprs : List Expr}
    (inside : ∀ expr ∈ exprs, (expr.evaluate environment).Gives holds) :
    (Expr.evaluate.evaluateAll environment exprs).Gives fun values =>
      ∀ value ∈ values, holds value := by
  induction exprs with
  | nil => exact gives_pure (List.forall_mem_nil _)
  | cons expr rest induction =>
      obtain ⟨first, others⟩ := List.forall_mem_cons.mp inside
      refine first.bind fun _ held => (induction others).bind fun _ all_held => ?_
      exact gives_pure (List.forall_mem_cons.mpr ⟨held, all_held⟩)

end Run

/-- What the environment gives has the property, and what values are made into keeps it. -/
structure Invariant (environment : Environment σ) (holds : Value → Prop) : Prop where
  bound {name : Text} {value : Value} (found : environment.findVariable name = some value) :
    holds value
  returned {name : Text} {function : HostFunction σ}
    (found : environment.findFunction name = some function) {arguments : List Value}
    (given : ∀ argument ∈ arguments, holds argument) :
    (Run.invoke name function arguments).Gives holds
  property {object : Value} (key : Value) (held : holds object) : holds (object.property key)
  binary (operator : BinaryOperator) {left right : Value} (left_held : holds left)
    (right_held : holds right) : holds (operator.apply left right)
  unary {operator : UnaryOperator} {argument value : Value} (held : holds argument)
    (result : operator.result? argument = some value) : holds value

namespace Invariant

variable {environment : Environment σ} {holds : Value → Prop}
  (invariant : Invariant environment holds)

include invariant

private theorem readVariable (name : Text) : (environment.readVariable name).Gives holds := by
  rw [environment.readVariable_eq]
  exact Run.gives_lookUp fun value found => invariant.bound found

private theorem applyBinary (operator : Text) {left right : Value} (left_held : holds left)
    (right_held : holds right) :
    (Expr.applyBinary operator left right : Run σ Value).Gives holds := by
  rw [Expr.applyBinary]
  split
  · exact Run.gives_pure (invariant.binary _ left_held right_held)
  · exact Run.gives_fail _ _

private theorem applyUnary (operator : Text) (before : Bool) {argument : Value}
    (held : holds argument) :
    (Expr.applyUnary operator before argument : Run σ Value).Gives holds := by
  rw [Expr.applyUnary]
  split
  · split
    · split
      · rename_i result
        exact Run.gives_pure (invariant.unary held result)
      · exact Run.gives_fail _ _
    · exact Run.gives_fail _ _
  · exact Run.gives_fail _ _

private theorem namedProperty {object : Value} (held : holds object) (property : Expr) :
    (Expr.namedProperty object property : Run σ Value).Gives holds := by
  cases property with
  | identifier name token => exact Run.gives_pure (invariant.property _ held)
  | _ => exact Run.gives_fail _ _

/-- What an expression is evaluated to has the property if the literals in it have it. -/
theorem evaluate (expr : Expr) (literals : expr.Literals holds) :
    (expr.evaluate environment).Gives holds := by
  match expr with
  | .missing => exact Run.gives_fail _ _
  | .unsupported type token => exact (Run.gives_fail _ _).framed
  | .literal value token =>
      exact (Run.gives_pure (literals value token List.mem_cons_self)).framed
  | .identifier name token => exact (invariant.readVariable name).framed
  | .member object property computed token =>
      have inside := evaluate object (literals.child (by simp [Expr.children]))
      refine Run.Gives.framed (inside.bind fun value held => ?_)
      split
      · exact Run.gives_fail _ _
      · split
        · -- A key may be any value, since the property depends on nothing but its text.
          refine Run.Gives.bind (fun _ _ _ _ => trivial) fun key (_ : True) => ?_
          exact Run.gives_pure (invariant.property key held)
        · exact invariant.namedProperty held property
  | .call function arguments token =>
      have inside := Run.gives_evaluateAll fun argument (listed : argument ∈ arguments) =>
        evaluate argument (literals.child listed)
      refine Run.Gives.framed ?_
      rw [environment.readFunction_eq]
      refine Run.Gives.bind (Run.gives_lookUp fun body found => found) fun body found => ?_
      exact inside.bind fun values given => invariant.returned found given
  | .binary operator left right token =>
      have left_inside := evaluate left (literals.child (by simp [Expr.children]))
      have right_inside := evaluate right (literals.child (by simp [Expr.children]))
      refine Run.Gives.framed (left_inside.bind fun _ left_held => ?_)
      exact right_inside.bind fun _ right_held =>
        invariant.applyBinary operator left_held right_held
  | .unary operator before argument token =>
      have inside := evaluate argument (literals.child (by simp [Expr.children]))
      exact Run.Gives.framed (inside.bind fun _ held => invariant.applyUnary operator before held)
  | .conditional test consequent alternate token =>
      refine Run.Gives.framed (Run.Gives.bind (fun _ _ _ _ => trivial) fun truth (_ : True) => ?_)
      split
      · exact evaluate consequent (literals.child (by simp [Expr.children]))
      · exact evaluate alternate (literals.child (by simp [Expr.children]))

end Invariant
end Formulary
