import Formulary.Proofs.Course

/-!
# Evaluations in lockstep

The evaluation of a tree is compared with that of the tree in which literals stand for some of the
names, in an environment of its own.  A relation between runs that is kept when runs are put
together relates the two evaluations as soon as it relates what they look up.
-/

namespace Formulary

namespace Expr

/--
The tree with literals in the place of names.  A name is replaced where it would be evaluated; the
name of a property and that of a function stay.
-/
def substitute (values : Text → Option Literal) : Expr → Expr
  | missing => missing
  | literal value token => literal value token
  | identifier name token =>
      match values name with
      | some value => literal value token
      | none => identifier name token
  | member object property computed token =>
      member (object.substitute values)
        (if computed then property.substitute values else property) computed token
  | call function arguments token => call function (substituteAll arguments) token
  | binary operator left right token =>
      binary operator (left.substitute values) (right.substitute values) token
  | unary operator before argument token =>
      unary operator before (argument.substitute values) token
  | conditional test consequent alternate token =>
      conditional (test.substitute values) (consequent.substitute values)
        (alternate.substitute values) token
  | unsupported type token => unsupported type token
where
  /-- Trees with literals in the place of names, in order. -/
  substituteAll : List Expr → List Expr
    | [] => []
    | argument :: rest => argument.substitute values :: substituteAll rest

mutual

/-- Nothing changes where no name is replaced. -/
theorem substitute_none (expr : Expr) : expr.substitute (fun _ => none) = expr := by
  match expr with
  | missing | literal _ _ | identifier _ _ | unsupported _ _ => rfl
  | member object property computed token =>
      simp only [substitute, substitute_none object, substitute_none property, ite_self]
  | call function arguments token => simp only [substitute, substituteAll_none arguments]
  | binary operator left right token =>
      simp only [substitute, substitute_none left, substitute_none right]
  | unary operator before argument token => simp only [substitute, substitute_none argument]
  | conditional test consequent alternate token =>
      simp only [substitute, substitute_none test, substitute_none consequent,
        substitute_none alternate]

theorem substituteAll_none (exprs : List Expr) :
    substitute.substituteAll (fun _ => none) exprs = exprs := by
  match exprs with
  | [] => rfl
  | expr :: rest =>
      simp only [substitute.substituteAll, substitute_none expr, substituteAll_none rest]

end

end Expr

/-- The formula with literals in the place of names. -/
def Program.substitute (values : Text → Option Literal) (program : Program) : Program :=
  { program with body := program.body.substitute values }

namespace Run

variable {σ : Type}

/-- The run that reports what it looks up, and fails if nothing was found. -/
def lookUp {α : Type} (event : Event) (found : Option α) (fault : EvaluationFault) : Run σ α :=
  fun host => ⟨found.elim (.error (.evaluation fault 0)) .ok, host, [event]⟩

end Run

namespace Environment

variable {σ : Type} (environment : Environment σ) (name : Text)

theorem readVariable_eq :
    environment.readVariable name =
      Run.lookUp (.variableRead name) (environment.findVariable name)
        (.undefinedVariable name) := by
  rw [readVariable]
  cases environment.findVariable name <;> rfl

theorem readFunction_eq :
    environment.readFunction name =
      Run.lookUp (.functionRead name) (environment.findFunction name)
        (.undefinedFunction name) := by
  rw [readFunction]
  cases environment.findFunction name <;> rfl

end Environment

namespace Run

variable {σ : Type}

/-- The relation between runs is kept by everything that puts runs together. -/
structure Congruence (related : ∀ {α : Type}, Run σ α → Run σ α → Prop) : Prop where
  refl {α : Type} (run : Run σ α) : related run run
  bind {α β : Type} {first other : Run σ α} {next later : α → Run σ β}
    (before : related first other) (after : ∀ value, related (next value) (later value)) :
    related (first >>= next) (other >>= later)
  framed {α : Type} {run other : Run σ α} (inside : related run other) :
    related run.framed other.framed

/--
The relation is kept by everything that puts runs together, and relates what one environment gives
for a name to what the other gives, or to the literal that stands for the name.
-/
structure Lockstep (related : ∀ {α : Type}, Run σ α → Run σ α → Prop)
    (environment other : Environment σ) (values : Text → Option Literal) : Prop
    extends Congruence related where
  replaced {name : Text} {value : Literal} (found : values name = some value) :
    related (environment.readVariable name) (pure value.toValue)
  kept {name : Text} (absent : values name = none) :
    related (environment.readVariable name) (other.readVariable name)
  functions (name : Text) : related (environment.readFunction name) (other.readFunction name)

namespace Lockstep

variable {related : ∀ {α : Type}, Run σ α → Run σ α → Prop} {environment other : Environment σ}
  {values : Text → Option Literal} (lockstep : Lockstep related environment other values)

include lockstep

mutual

/-- Evaluations are related if what they look up is. -/
theorem evaluate (expr : Expr) :
    related (expr.evaluate environment) ((expr.substitute values).evaluate other) := by
  match expr with
  | .missing | .literal _ _ | .unsupported _ _ => exact lockstep.refl _
  | .identifier name token =>
      rw [Expr.substitute]
      split
      · rename_i value found
        exact lockstep.framed (lockstep.replaced found)
      · rename_i absent
        exact lockstep.framed (lockstep.kept absent)
  | .member object property computed token =>
      refine lockstep.framed (lockstep.bind (evaluate object) fun value => ?_)
      cases computed with
      -- The name of a property is looked up in the object only, and no literal stands in its place.
      | false => exact lockstep.refl _
      | true =>
          split
          · exact lockstep.refl _
          · exact lockstep.bind (evaluate property) fun key => lockstep.refl _
  | .call function arguments token =>
      refine lockstep.framed (lockstep.bind (lockstep.functions function) fun body => ?_)
      exact lockstep.bind (evaluateAll arguments) fun operands => lockstep.refl _
  | .binary operator left right token =>
      refine lockstep.framed (lockstep.bind (evaluate left) fun leftValue => ?_)
      exact lockstep.bind (evaluate right) fun rightValue => lockstep.refl _
  | .unary operator before argument token =>
      exact lockstep.framed (lockstep.bind (evaluate argument) fun value => lockstep.refl _)
  | .conditional test consequent alternate token =>
      refine lockstep.framed (lockstep.bind (evaluate test) fun truth => ?_)
      split
      · exact evaluate consequent
      · exact evaluate alternate

theorem evaluateAll (exprs : List Expr) :
    related (Expr.evaluate.evaluateAll environment exprs)
      (Expr.evaluate.evaluateAll other (Expr.substitute.substituteAll values exprs)) := by
  match exprs with
  | [] => exact lockstep.refl _
  | expr :: rest =>
      refine lockstep.bind (evaluate expr) fun value => ?_
      exact lockstep.bind (evaluateAll rest) fun operands => lockstep.refl _

end

end Lockstep
end Run
end Formulary
