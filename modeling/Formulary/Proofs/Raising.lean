import Mathlib.Logic.Function.Iterate
import Formulary.Proofs.Course

/-!
# Where evaluations fail

A failure is raised by one node, and every node on the way from there to the root marks it once.
The nodes that an evaluation comes to have a place in the tree, and the one that raises is the only
one of them that fails of itself; so the place determines the failure and the number of its marks.
-/

namespace Formulary

namespace Expr

/-- The node at a place, which is the list of the indices of children that lead to it. -/
def at? : Expr → List Nat → Option Expr
  | expr, [] => some expr
  | expr, index :: place => do (← expr.children[index]?).at? place

section Definitions

variable {σ : Type} (environment : Environment σ)

/-- The evaluation of an expression comes to a node, in a state of the host. -/
inductive Reaches : Expr → σ → List Nat → Expr → σ → Prop where
  | root {expr host} (present : expr ≠ missing) : Reaches expr host [] expr host
  | child {expr host index child between place node reached}
      (turns : (expr.course environment).Turns environment host index child between)
      (more : Reaches child between place node reached) :
      Reaches expr host (index :: place) node reached

/--
A node raises a failure, which bears no mark yet.  A missing child is a fault of the node that
misses it, and what a host function throws is raised by the call.
-/
inductive Raises : Expr → σ → Failure → Prop where
  | absent {node host index reached}
      (turns : (node.course environment).Turns environment host index missing reached) :
      Raises node host (.evaluation .missingNode 0)
  | unbound {name token host} (unknown : environment.findVariable name = none) :
      Raises (identifier name token) host (.evaluation (.undefinedVariable name) 0)
  | nullish {object property computed token host value after}
      (yields : (object.evaluate environment).Yields host value after)
      (nothing : value.isNullish) :
      Raises (member object property computed token) host (.evaluation .nullPropertyAccess 0)
  | unnamed {object property token host value after}
      (yields : (object.evaluate environment).Yields host value after)
      (something : ¬ value.isNullish)
      (no_name : ∀ name token, property ≠ identifier name token) :
      Raises (member object property false token) host
        (.evaluation (.propertyNotName property.typeName?) 0)
  | undefined {function arguments token host}
      (unknown : environment.findFunction function = none) :
      Raises (call function arguments token) host (.evaluation (.undefinedFunction function) 0)
  | thrown {function arguments token host body values between failure}
      (found : environment.findFunction function = some body)
      (yields : (evaluate.evaluateAll environment arguments).Yields host values between)
      (thrown : (body values between).1 = .error failure) :
      Raises (call function arguments token) host (Failure.ofHost failure)
  | joined {operator left right token host leftValue between rightValue after}
      (left_yields : (left.evaluate environment).Yields host leftValue between)
      (right_yields : (right.evaluate environment).Yields between rightValue after)
      (unknown : BinaryOperator.ofText? operator = none) :
      Raises (binary operator left right token) host (.evaluation (.unknownOperator operator) 0)
  | behind {operator argument token host value after}
      (yields : (argument.evaluate environment).Yields host value after) :
      Raises (unary operator false argument token) host
        (.evaluation (.unsupportedPostfix operator) 0)
  | signed {operator argument token host value after}
      (yields : (argument.evaluate environment).Yields host value after)
      (unknown : UnaryOperator.ofText? operator = none) :
      Raises (unary operator true argument token) host (.evaluation (.unknownOperator operator) 0)
  | negated {operator argument token host value after known}
      (yields : (argument.evaluate environment).Yields host value after)
      (is_known : UnaryOperator.ofText? operator = some known)
      (no_result : known.result? value = none) :
      Raises (unary operator true argument token) host
        (.evaluation (.nonNumericNegation value.toText) 0)
  | unsupported {type token host} :
      Raises (unsupported type token) host (.evaluation (.unsupportedNode type) 0)

/-- The evaluation fails because of the node at a place, and each node above marks the failure. -/
def FailsAt (expr : Expr) (host : σ) (place : List Nat) (failure : Failure) : Prop :=
  ∃ node reached raised, Reaches environment expr host place node reached ∧
    Raises environment node reached raised ∧
    failure = Failure.framed^[place.length + 1] raised

end Definitions

variable {σ : Type} {environment : Environment σ} {expr : Expr} {host : σ}

theorem Reaches.at?_eq {place : List Nat} {node : Expr} {reached : σ}
    (reaches : Reaches environment expr host place node reached) : expr.at? place = some node := by
  induction reaches with
  | root => rfl
  | child turns more induction =>
      rw [at?, children_of_turns turns]
      exact induction

private theorem Reaches.present {place : List Nat} {node : Expr} {reached : σ}
    (reaches : Reaches environment expr host place node reached) : expr ≠ missing := by
  cases reaches with
  | root present => exact present
  | child turns =>
      rintro rfl
      cases turns

/-- An evaluation comes to each place once at most. -/
theorem Reaches.unique {place : List Nat} {node other : Expr} {reached also : σ}
    (reaches : Reaches environment expr host place node reached)
    (again : Reaches environment expr host place other also) : node = other ∧ reached = also := by
  induction reaches with
  | root =>
      cases again
      exact ⟨rfl, rfl⟩
  | child turns more induction =>
      cases again with
      | child also_turns again =>
          obtain ⟨rfl, rfl⟩ := turns.unique also_turns (increasing_course _ _)
          exact induction again

theorem result_evaluate_of_error (present : expr ≠ missing) {failure : Failure}
    (failed : ((expr.course environment).run environment host).result = .error failure) :
    (expr.evaluate environment host).result = .error failure.framed := by
  rw [evaluate_eq environment present]
  simp only [Run.framed, failed]
  rfl

private theorem fails_applyUnary {operator : Text} {before : Bool} {value : Value}
    {failure : Failure} (failed : (applyUnary operator before value host).result = .error failure) :
    (before = false ∧ failure = .evaluation (.unsupportedPostfix operator) 0) ∨
    (before = true ∧ UnaryOperator.ofText? operator = none ∧
      failure = .evaluation (.unknownOperator operator) 0) ∨
    ∃ known, before = true ∧ UnaryOperator.ofText? operator = some known ∧
      known.result? value = none ∧ failure = .evaluation (.nonNumericNegation value.toText) 0 := by
  rw [applyUnary] at failed
  cases before with
  | false =>
      cases failed
      exact .inl ⟨rfl, rfl⟩
  | true =>
      cases known : UnaryOperator.ofText? operator with
      | none =>
          rw [if_pos rfl, known] at failed
          cases failed
          exact .inr (.inl ⟨rfl, rfl, rfl⟩)
      | some sign =>
          cases result : sign.result? value with
          | none =>
              simp only [if_true, known, result] at failed
              cases failed
              exact .inr (.inr ⟨sign, rfl, rfl, result, rfl⟩)
          | some value =>
              simp only [if_true, known, result] at failed
              cases failed

theorem namedProperty_eq_fail (object : Value) {property : Expr}
    (no_name : ∀ name token, property ≠ identifier name token) :
    (namedProperty object property : Run σ Value) =
      Run.fail (.propertyNotName property.typeName?) := by
  unfold namedProperty
  split
  · exact absurd rfl (no_name _ _)
  · rfl

private theorem fails_namedProperty {object : Value} {property : Expr} {failure : Failure}
    (failed : (namedProperty object property host).result = .error failure) :
    (∀ name token, property ≠ identifier name token) ∧
      failure = .evaluation (.propertyNotName property.typeName?) 0 := by
  by_cases is_name : ∃ name token, property = identifier name token
  · obtain ⟨name, token, rfl⟩ := is_name
    cases failed
  · have no_name : ∀ name token, property ≠ identifier name token :=
      fun name token same => is_name ⟨name, token, same⟩
    rw [namedProperty_eq_fail object no_name] at failed
    exact ⟨no_name, (Except.error.inj failed).symm⟩

/-- What the action of a node fails with is raised by the node. -/
theorem raises_of_acts (present : expr ≠ missing) {action : Run σ Value} {reached : σ}
    {failure : Failure} (acts : (expr.course environment).Acts environment host action reached)
    (failed : (action reached).result = .error failure) :
    Raises environment expr host failure := by
  cases expr with
  | missing => exact absurd rfl present
  | literal =>
      cases acts
      cases failed
  | identifier name token =>
      cases acts
      cases known : environment.findVariable name with
      | none =>
          simp only [Environment.readVariable, known] at failed
          cases failed
          exact .unbound known
      | some value =>
          simp only [Environment.readVariable, known] at failed
          cases failed
  | member object property computed token =>
      obtain _ | _ | ⟨yields, acts⟩ := acts
      dsimp only at acts
      split at acts
      · cases acts
        cases failed
        exact .nullish yields ‹_›
      · split at acts
        · obtain _ | _ | ⟨-, acts⟩ := acts
          cases acts
          cases failed
        · cases acts
          obtain ⟨no_name, rfl⟩ := fails_namedProperty failed
          obtain rfl : computed = false := by simpa using ‹¬ computed = true›
          exact .unnamed yields ‹_› no_name
  | call function arguments token =>
      obtain ⟨acts⟩ := acts
      split at acts
      · rename_i body found
        obtain ⟨values, between, yields, acts⟩ := Course.acts_operands_iff.mp acts
        cases acts
        cases thrown : (body values reached).1 with
        | ok value =>
            simp only [Run.invoke, thrown] at failed
            cases failed
        | error failure =>
            simp only [Run.invoke, thrown] at failed
            cases failed
            exact .thrown found yields thrown
      · cases acts
        cases failed
        exact .undefined ‹_›
  | binary operator left right token =>
      obtain _ | _ | ⟨left_yields, acts⟩ := acts
      obtain _ | _ | ⟨right_yields, acts⟩ := acts
      cases acts
      cases known : BinaryOperator.ofText? operator with
      | none =>
          simp only [applyBinary, known] at failed
          cases failed
          exact .joined left_yields right_yields known
      | some sign =>
          simp only [applyBinary, known] at failed
          cases failed
  | unary operator before argument token =>
      obtain _ | _ | ⟨yields, acts⟩ := acts
      cases acts
      obtain ⟨rfl, rfl⟩ | ⟨rfl, unknown, rfl⟩ | ⟨known, rfl, is_known, no_result, rfl⟩ :=
        fails_applyUnary failed
      · exact .behind yields
      · exact .signed yields unknown
      · exact .negated yields is_known no_result
  | conditional test consequent alternate token =>
      obtain _ | _ | ⟨-, acts⟩ := acts
      dsimp only at acts
      split at acts <;>
        · obtain _ | _ | ⟨-, acts⟩ := acts
          cases acts
          cases failed
  | unsupported type token =>
      cases acts
      cases failed
      exact .unsupported

/-- A call whose arguments have values comes to call its function. -/
theorem acts_call {name : Text} {arguments : List Expr} {token : Token} {body : HostFunction σ}
    {values : List Value} {between : σ} (found : environment.findFunction name = some body)
    (yields : (evaluate.evaluateAll environment arguments).Yields host values between) :
    ((call name arguments token).course environment).Acts environment host
      (Run.invoke name body values) between := by
  rw [course, found]
  exact .lookUp (Course.acts_operands_iff.mpr ⟨values, between, yields, .now⟩)

/-- A node raises what its action fails with, unless it misses a child. -/
theorem Raises.acts_or_turns {failure : Failure}
    (raises : Raises environment expr host failure) :
    (∃ action reached, (expr.course environment).Acts environment host action reached ∧
      (action reached).result = .error failure) ∨
    (failure = .evaluation .missingNode 0 ∧
      ∃ index reached, (expr.course environment).Turns environment host index missing reached) := by
  cases raises with
  | absent turns => exact .inr ⟨rfl, _, _, turns⟩
  | unbound unknown =>
      refine .inl ⟨_, host, .now, ?_⟩
      simp only [Environment.readVariable, unknown]
      rfl
  | @nullish object property computed token host value after yields nothing =>
      refine .inl ⟨Run.fail .nullPropertyAccess, after, .later yields ?_, rfl⟩
      rw [if_pos nothing]
      exact .now
  | @unnamed object property token host value after yields something no_name =>
      refine .inl ⟨namedProperty value property, after, .later yields ?_, ?_⟩
      · rw [if_neg something]
        exact .now
      · rw [namedProperty_eq_fail value no_name]
        rfl
  | @undefined function arguments token host unknown =>
      refine .inl ⟨Run.fail (.undefinedFunction function), host, .lookUp ?_, rfl⟩
      rw [unknown]
      exact .now
  | @thrown function arguments token host body values between failure found yields thrown =>
      refine .inl ⟨Run.invoke function body values, between, acts_call found yields, ?_⟩
      simp only [Run.invoke, thrown]
      rfl
  | joined left_yields right_yields unknown =>
      refine .inl ⟨_, _, .later left_yields (.later right_yields .now), ?_⟩
      simp only [applyBinary, unknown]
      rfl
  | behind yields => exact .inl ⟨_, _, .later yields .now, rfl⟩
  | signed yields unknown =>
      refine .inl ⟨_, _, .later yields .now, ?_⟩
      simp only [applyUnary, unknown, if_true]
      rfl
  | negated yields is_known no_result =>
      refine .inl ⟨_, _, .later yields .now, ?_⟩
      simp only [applyUnary, is_known, no_result, if_true]
      rfl
  | unsupported => exact .inl ⟨_, host, .now, rfl⟩

private theorem Raises.course_fails {failure : Failure}
    (raises : Raises environment expr host failure) :
    ((expr.course environment).run environment host).result = .error failure := by
  obtain ⟨action, reached, acts, failed⟩ | ⟨rfl, index, reached, turns⟩ := raises.acts_or_turns
  · exact acts.result_eq.trans failed
  · exact turns.fails rfl

/-- Failures that are raised bear no mark. -/
theorem Raises.unmarked {failure : Failure} (raises : Raises environment expr host failure) :
    (∃ fault, failure = .evaluation fault 0) ∨ ∃ message, failure = .host message := by
  cases raises with
  | @thrown function arguments token host body values between failure found yields thrown =>
      cases failure with
      | expression kind message => exact .inl ⟨.raised kind message, rfl⟩
      | other message => exact .inr ⟨message, rfl⟩
  | _ => exact .inl ⟨_, rfl⟩

/-- What is raised at a node that the evaluation comes to is how the evaluation fails. -/
theorem FailsAt.result_eq {place : List Nat} {failure : Failure}
    (fails : FailsAt environment expr host place failure) :
    (expr.evaluate environment host).result = .error failure := by
  obtain ⟨node, reached, raised, reaches, raises, rfl⟩ := fails
  induction reaches with
  | root present => exact result_evaluate_of_error present raises.course_fails
  | child turns more induction =>
      have present := (Reaches.child turns more).present
      rw [result_evaluate_of_error present (turns.fails (induction raises))]
      exact congrArg Except.error (Function.iterate_succ_apply' _ _ _).symm

/-- An evaluation that fails does so because of a node that it comes to. -/
theorem exists_failsAt (present : expr ≠ missing) {failure : Failure}
    (failed : (expr.evaluate environment host).result = .error failure) :
    ∃ place, FailsAt environment expr host place failure := by
  induction size : sizeOf expr using Nat.strongRecOn generalizing expr host failure with
  | _ size induction =>
      cases outcome : ((expr.course environment).run environment host).result with
      | ok value =>
          rw [evaluate_eq environment present] at failed
          simp only [Run.framed, outcome] at failed
          change Except.ok value = .error failure at failed
          cases failed
      | error inner =>
          have marked := result_evaluate_of_error present outcome
          obtain rfl := Except.error.inj (marked.symm.trans failed)
          obtain ⟨index, child, reached, turns, child_failed⟩ | ⟨action, reached, acts, failed⟩ :=
            Course.fails_cases outcome
          · by_cases absent : child = missing
            · subst absent
              cases child_failed
              exact ⟨[], expr, host, _, .root present, .absent turns, rfl⟩
            · have smaller := sizeOf_child (children_of_turns turns)
              obtain ⟨place, node, also, raised, reaches, raises, rfl⟩ :=
                induction _ (size ▸ smaller) absent child_failed rfl
              refine ⟨index :: place, node, also, raised, .child turns reaches, raises, ?_⟩
              exact (Function.iterate_succ_apply' Failure.framed _ raised).symm
          · exact ⟨[], expr, host, inner, .root present, raises_of_acts present acts failed, rfl⟩

/-- At most one child fails. -/
theorem turns_unique_of_error {index other : Nat} {child also : Expr} {reached again : σ}
    {failure later : Failure}
    (turns : (expr.course environment).Turns environment host index child reached)
    (failed : (child.evaluate environment reached).result = .error failure)
    (others : (expr.course environment).Turns environment host other also again)
    (also_failed : (also.evaluate environment again).result = .error later) :
    index = other ∧ child = also ∧ reached = again := by
  have increasing := increasing_course environment expr
  obtain rfl := Nat.le_antisymm (others.le_of_error also_failed turns increasing)
    (turns.le_of_error failed others increasing)
  exact ⟨rfl, turns.unique others increasing⟩

/-- A node with a child that fails raises nothing, unless that child is missing. -/
theorem Raises.missing_of_error {raised failure : Failure}
    (raises : Raises environment expr host raised) {index : Nat} {child : Expr} {reached : σ}
    (turns : (expr.course environment).Turns environment host index child reached)
    (failed : (child.evaluate environment reached).result = .error failure) : child = missing := by
  obtain ⟨action, also, acts, -⟩ | ⟨-, other, also, others⟩ := raises.acts_or_turns
  · exact absurd acts (turns.not_acts failed)
  · exact (turns_unique_of_error turns failed others rfl).2.1

/-- No other node that the evaluation comes to raises anything. -/
theorem FailsAt.unique {place other : List Nat} {failure also : Failure}
    (fails : FailsAt environment expr host place failure)
    (again : FailsAt environment expr host other also) : place = other := by
  obtain ⟨node, reached, raised, reaches, raises, -⟩ := fails
  obtain ⟨other_node, other_reached, other_raised, others, other_raises, -⟩ := again
  induction reaches generalizing other with
  | root present =>
      cases others with
      | root => rfl
      | child turns more =>
          have failed := FailsAt.result_eq ⟨_, _, _, more, other_raises, rfl⟩
          exact absurd (raises.missing_of_error turns failed) more.present
  | child turns more induction =>
      have failed := FailsAt.result_eq ⟨_, _, _, more, raises, rfl⟩
      cases others with
      | root => exact absurd (other_raises.missing_of_error turns failed) more.present
      | child other_turns other_more =>
          have other_failed := FailsAt.result_eq ⟨_, _, _, other_more, other_raises, rfl⟩
          obtain ⟨rfl, rfl, rfl⟩ :=
            turns_unique_of_error turns failed other_turns other_failed
          exact congrArg _ (induction raises other_more)

end Expr
end Formulary
