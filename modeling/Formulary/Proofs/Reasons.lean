import Formulary.Builtin
import Formulary.Proofs.FailureMarks
import Formulary.Proofs.RoundTrip

/-!
# Reasons for which formulas fail

A tree may be of any shape, but the trees of formulas that are read from a text have no missing
nodes, and no operators other than those that the evaluator knows.  So the evaluation of a formula
fails for a variable or a function that it names and that there is not, for an object that is
nothing, for the negation of what is no number, or in the way of a function that it calls.
-/

namespace Formulary

namespace Expr

/-- The nodes of a tree that may be evaluated, which a property is not that is only a name. -/
def parts : Expr → List Expr
  | missing => [missing]
  | literal value token => [literal value token]
  | identifier name token => [identifier name token]
  | member object property computed token =>
      member object property computed token ::
        (object.parts ++ if computed then property.parts else [])
  | call function arguments token => call function arguments token :: partsOfAll arguments
  | binary operator left right token =>
      binary operator left right token :: (left.parts ++ right.parts)
  | unary operator before argument token => unary operator before argument token :: argument.parts
  | conditional test consequent alternate token =>
      conditional test consequent alternate token ::
        (test.parts ++ consequent.parts ++ alternate.parts)
  | unsupported type token => [unsupported type token]
where
  /-- The parts of trees, in order. -/
  partsOfAll : List Expr → List Expr
    | [] => []
    | argument :: rest => argument.parts ++ partsOfAll rest

/-- The node itself is one that the evaluator knows how to evaluate. -/
def Known : Expr → Prop
  | missing => False
  | literal _ _ => True
  | identifier _ _ => True
  | member _ property computed _ => computed ∨ ∃ name token, property = identifier name token
  | call _ _ _ => True
  | binary operator _ _ _ => (BinaryOperator.ofText? operator).isSome
  | unary operator before _ _ => before ∧ (UnaryOperator.ofText? operator).isSome
  | conditional _ _ _ _ => True
  | unsupported _ _ => False

private theorem mem_parts (expr : Expr) : expr ∈ expr.parts := by
  cases expr <;> exact List.mem_cons_self

private theorem parts_subset_partsOfAll {expr : Expr} {exprs : List Expr} (listed : expr ∈ exprs) :
    expr.parts ⊆ parts.partsOfAll exprs := by
  induction exprs with
  | nil => cases listed
  | cons first rest induction =>
      obtain rfl | later := List.mem_cons.mp listed
      · exact List.subset_append_left _ _
      · exact List.subset_append_of_subset_right _ (induction later)

section Reaching

variable {σ : Type} {environment : Environment σ} {expr : Expr} {host : σ}

/-- The children that are evaluated are parts, with all parts of theirs. -/
theorem parts_subset_of_turns {index : Nat} {child : Expr} {reached : σ}
    (turns : (expr.course environment).Turns environment host index child reached) :
    child.parts ⊆ expr.parts := by
  have among := List.mem_of_getElem? (children_of_turns turns)
  cases expr with
  | missing | literal | identifier | unsupported => cases among
  | member object property computed token =>
      cases turns with
      | now => exact fun node listed => List.mem_cons_of_mem _ (List.mem_append_left _ listed)
      | later yields more =>
          dsimp only at more
          split at more
          · cases more
          · split at more
            · obtain rfl : computed = true := ‹_›
              cases more with
              | now =>
                  exact fun node listed => List.mem_cons_of_mem _ (List.mem_append_right _ listed)
              | later _ more => cases more
            · cases more
  | call function arguments token =>
      exact fun node listed =>
        List.mem_cons_of_mem _ (parts_subset_partsOfAll among listed)
  | binary | unary | conditional =>
      simp only [children, List.mem_cons, List.not_mem_nil, or_false] at among
      simp only [parts]
      grind

private theorem Reaches.parts_subset {place : List Nat} {node : Expr} {reached : σ}
    (reaches : Reaches environment expr host place node reached) : node.parts ⊆ expr.parts := by
  induction reaches with
  | root => exact List.Subset.refl _
  | child turns more induction => exact List.Subset.trans induction (parts_subset_of_turns turns)

end Reaching

/-- The ways in which the evaluation of a formula may fail. -/
inductive Expected {σ : Type} (environment : Environment σ) (expr : Expr) : Failure → Prop where
  | unbound {name token frames} (listed : identifier name token ∈ expr.parts)
      (unknown : environment.findVariable name = none) :
      Expected environment expr (.evaluation (.undefinedVariable name) frames)
  | nullish {frames} : Expected environment expr (.evaluation .nullPropertyAccess frames)
  | undefined {function arguments token frames}
      (listed : call function arguments token ∈ expr.parts)
      (unknown : environment.findFunction function = none) :
      Expected environment expr (.evaluation (.undefinedFunction function) frames)
  | negated {text frames} :
      Expected environment expr (.evaluation (.nonNumericNegation text) frames)
  | thrown {function body arguments host failure count}
      (found : environment.findFunction function = some body)
      (thrown : (body arguments host).1 = .error failure) :
      Expected environment expr (Failure.framed^[count] (Failure.ofHost failure))

variable {σ : Type} {environment : Environment σ} {expr : Expr} {host : σ}

/-- A tree of known nodes raises the expected failures only, wherever it stands. -/
theorem Raises.expected {node : Expr} {reached : σ} {raised : Failure}
    (raises : Raises environment node reached raised) (known : ∀ part ∈ node.parts, part.Known)
    (inside : node.parts ⊆ expr.parts) (count : Nat) :
    Expected environment expr (Failure.framed^[count] raised) := by
  have itself := known node (mem_parts node)
  have listed := inside (mem_parts node)
  cases raises with
  | thrown found yields thrown => exact .thrown found thrown
  | absent turns => exact absurd (known _ (parts_subset_of_turns turns (mem_parts missing))) id
  | unbound unknown =>
      rw [Failure.framed_iterate_evaluation]
      exact .unbound listed unknown
  | nullish =>
      rw [Failure.framed_iterate_evaluation]
      exact .nullish
  | unnamed yields something no_name =>
      obtain computed | ⟨name, token, is_name⟩ := itself
      · cases computed
      · exact absurd is_name (no_name name token)
  | undefined unknown =>
      rw [Failure.framed_iterate_evaluation]
      exact .undefined listed unknown
  | joined left_yields right_yields unknown =>
      simp only [Known, unknown, Option.isSome_none, Bool.false_eq_true] at itself
  | behind => simp only [Known, Bool.false_eq_true, false_and] at itself
  | signed yields unknown =>
      simp only [Known, unknown, Option.isSome_none, Bool.false_eq_true, and_false] at itself
  | negated =>
      rw [Failure.framed_iterate_evaluation]
      exact .negated
  | unsupported => exact absurd itself id

/-- A tree of known nodes fails in the expected ways only. -/
theorem expected_of_known (known : ∀ part ∈ expr.parts, part.Known) {failure : Failure}
    (failed : (expr.evaluate environment host).result = .error failure) :
    Expected environment expr failure := by
  have present : expr ≠ missing := by
    rintro rfl
    exact known missing (mem_parts missing)
  obtain ⟨place, node, reached, raised, reaches, raises, rfl⟩ := exists_failsAt present failed
  have inside := reaches.parts_subset
  exact raises.expected (fun part listed => known part (inside listed)) inside _

end Expr

namespace Grammar

open Formulary.Expr (Level)

/-- The operators of the grammar are those of the evaluator. -/
theorem binary_of_operator {level : Level} {operator : Token}
    (joins : operator.kind ∈ operators level)
    (listed : (operator.value, operator.kind) ∈ Lexeme.operators) :
    (BinaryOperator.ofText? (operatorText level operator)).isSome := by
  have all : ∀ entry ∈ Lexeme.operators, entry.2 ∈ operators level →
      (BinaryOperator.ofText? entry.1).isSome := by
    cases level <;> decide
  rw [operatorText_eq_value joins listed]
  exact all _ listed joins

private theorem unary_of_sign {sign : Token} (sign_kind : sign.kind ∈ signs)
    (listed : (sign.value, sign.kind) ∈ Lexeme.operators) :
    (UnaryOperator.ofText? sign.value).isSome := by
  have all : ∀ entry ∈ Lexeme.operators, entry.2 ∈ signs →
      (UnaryOperator.ofText? entry.1).isSome := by
    decide
  exact all _ listed sign_kind

mutual

/-- All parts of the tree of a formula are known. -/
theorem Derives.known {category : Category} {tokens : List Token} {expr : Expr} :
    Derives category tokens expr → Lexical tokens → ∀ part ∈ expr.parts, part.Known
  | .unconditional chain, lexical => chain.known lexical
  | .conditional tested _ chosen _ otherwise, lexical => by
      obtain ⟨front, middle_back⟩ := lexical_append.mp lexical
      obtain ⟨middle, colon_back⟩ := lexical_append.mp (lexical_cons.mp middle_back).2
      have both := List.forall_mem_append.mpr ⟨tested.known front, chosen.known middle⟩
      have back := otherwise.known (lexical_cons.mp colon_back).2
      exact List.forall_mem_cons.mpr ⟨trivial, List.forall_mem_append.mpr ⟨both, back⟩⟩
  | .single only, lexical => only.known lexical
  | .binary before joins after, lexical => by
      obtain ⟨front, operator_back⟩ := lexical_append.mp lexical
      obtain ⟨⟨spelling, spells⟩, back⟩ := lexical_cons.mp operator_back
      have operator :=
        binary_of_operator joins (spells.listed (operators_not_operands _ _ joins))
      exact List.forall_mem_cons.mpr
        ⟨operator, List.forall_mem_append.mpr ⟨before.known front, after.known back⟩⟩
  | .unsigned inner, lexical => inner.known lexical
  | .unary sign_kind inner, lexical => by
      obtain ⟨⟨spelling, spells⟩, rest⟩ := lexical_cons.mp lexical
      have operator := unary_of_sign sign_kind (spells.listed (signs_not_operands _ sign_kind))
      exact List.forall_mem_cons.mpr ⟨⟨rfl, operator⟩, inner.known rest⟩
  | .bare inner, lexical => inner.known lexical
  | .property inner _ name_kind, lexical => by
      obtain ⟨front, -⟩ := lexical_append.mp lexical
      rw [Expr.parts, if_neg Bool.false_ne_true, List.append_nil]
      exact List.forall_mem_cons.mpr ⟨.inr ⟨_, _, rfl⟩, inner.known front⟩
  | .index inner _ computed _, lexical => by
      obtain ⟨front, bracket_middle⟩ := lexical_append.mp lexical
      obtain ⟨middle, -⟩ := lexical_append.mp (lexical_cons.mp bracket_middle).2
      rw [Expr.parts, if_pos rfl]
      exact List.forall_mem_cons.mpr ⟨.inl rfl,
        List.forall_mem_append.mpr ⟨inner.known front, computed.known middle⟩⟩
  | .literal _, _ => List.forall_mem_singleton.mpr trivial
  | .identifier _, _ => List.forall_mem_singleton.mpr trivial
  | .call _ _ _ passed _, lexical => by
      obtain ⟨-, inside⟩ := lexical_cons.mp (lexical_cons.mp lexical).2
      obtain ⟨tokens, -⟩ := lexical_append.mp (lexical_cons.mp inside).2
      exact List.forall_mem_cons.mpr ⟨trivial, passed.known tokens⟩
  | .parenthesised _ inner _, lexical => by
      obtain ⟨tokens, -⟩ := lexical_append.mp (lexical_cons.mp lexical).2
      exact inner.known tokens

theorem Arguments.known {tokens : List Token} {values : List Expr} :
    Arguments tokens values → Lexical tokens →
      ∀ part ∈ Expr.parts.partsOfAll values, part.Known
  | .none, _ => List.forall_mem_nil _
  | .some listed, lexical => listed.known lexical

theorem Listed.known {tokens : List Token} {values : List Expr} :
    Listed tokens values → Lexical tokens → ∀ part ∈ Expr.parts.partsOfAll values, part.Known
  | .last only, lexical =>
      List.forall_mem_append.mpr ⟨only.known lexical, List.forall_mem_nil _⟩
  | .more head _ others, lexical => by
      obtain ⟨front, comma_back⟩ := lexical_append.mp lexical
      exact List.forall_mem_append.mpr
        ⟨head.known front, others.known (lexical_cons.mp comma_back).2⟩

end

/-- All parts of the tree of a text are known. -/
theorem known_of_ofText {file text : Text} {firstLine : Int} {program : Program}
    (read : Program.ofText file firstLine text = .ok program) :
    ∀ part ∈ program.body.parts, part.Known := by
  obtain ⟨lexemes, last, ⟨body, -, tiles⟩, sentence, -⟩ := ofText_eq_ok_iff.mp read
  exact Derives.known sentence tiles.spells

end Grammar

namespace Environment

variable {σ : Type}

private theorem findFunction_withFunction (environment : Environment σ) (name other : Text)
    (function : Option (HostFunction σ)) :
    (environment.withFunction name function).findFunction other =
      if name = other then function else environment.findFunction other := by
  rw [findFunction, withFunction, Fields.find?_insert]
  split <;> rfl

/-- A function that is registered is builtin, or was registered before the builtin ones. -/
theorem builtin_of_findFunction {environment : Environment σ} {name : Text}
    {body : HostFunction σ} (found : environment.withBuiltins.findFunction name = some body) :
    (∃ builtin : Builtin, body = builtin.toHostFunction) ∨
      environment.findFunction name = some body := by
  unfold withBuiltins at found
  generalize Builtin.all = builtins at found
  induction builtins generalizing environment with
  | nil => exact .inr found
  | cons builtin rest induction =>
      obtain among | before := induction found
      · exact .inl among
      · rw [findFunction_withFunction] at before
        split at before
        · exact .inl ⟨builtin, (Option.some.inj before).symm⟩
        · exact .inr before

/-- The functions that are registered are the builtin ones. -/
def OnlyBuiltins (environment : Environment σ) : Prop :=
  environment.functions = (withBuiltins empty).functions

/-- What the registered functions throw is no reason for which expressions fail. -/
def Calm (environment : Environment σ) : Prop :=
  ∀ name body, environment.findFunction name = some body →
    ∀ arguments host kind message, (body arguments host).1 ≠ .error (.expression kind message)

theorem OnlyBuiltins.exists_builtin {environment : Environment σ}
    (only : environment.OnlyBuiltins) {name : Text} {body : HostFunction σ}
    (found : environment.findFunction name = some body) :
    ∃ builtin : Builtin, body = builtin.toHostFunction := by
  have registered : (withBuiltins empty).findFunction name = some body := by
    rw [findFunction, ← only]
    exact found
  obtain among | before := builtin_of_findFunction registered
  · exact among
  · cases before

private theorem OnlyBuiltins.no_error {environment : Environment σ}
    (only : environment.OnlyBuiltins)
    {name : Text} {body : HostFunction σ} (found : environment.findFunction name = some body)
    (arguments : List Value) (host : σ) (failure : HostFailure) :
    (body arguments host).1 ≠ .error failure := by
  obtain ⟨builtin, rfl⟩ := only.exists_builtin found
  exact nofun

private theorem OnlyBuiltins.calm {environment : Environment σ} (only : environment.OnlyBuiltins) :
    environment.Calm :=
  fun _ _ found arguments host _ _ => only.no_error found arguments host _

end Environment

namespace Program

variable {σ : Type}

/--
The evaluation of a formula that is read from a text fails neither for an operator nor for a node
that it does not know, as long as the functions of the host give no reasons of their own.  It fails
for a variable only if the formula names one that is not bound, and for a function only if the
formula calls one that is not registered or has no body.  If the functions are the builtin ones,
there are no failures but these and those for objects that are nothing and for negations.
-/
theorem evaluate_fails_as_expected {file text : Text} {firstLine : Int} {program : Program}
    (read : Program.ofText file firstLine text = .ok program) {environment : Environment σ}
    (calm : environment.Calm) {host : σ} {failure : Failure}
    (failed : (program.evaluate environment host).result = .error failure) :
    failure.kind? ≠ some .unsupportedPostfix ∧
    failure.kind? ≠ some .unknownOperator ∧
    failure.kind? ≠ some .unsupportedNodeType ∧
    (failure.kind? = some .undefinedVariable →
      ∃ name token frames, failure = .evaluation (.undefinedVariable name) frames ∧
        .identifier name token ∈ program.body.parts ∧ environment.findVariable name = none) ∧
    (failure.kind? = some .undefinedFunction →
      ∃ function arguments token frames,
        failure = .evaluation (.undefinedFunction function) frames ∧
        .call function arguments token ∈ program.body.parts ∧
        (environment.functions.find? function = none ∨
          environment.functions.find? function = some none)) ∧
    (environment.OnlyBuiltins →
      ∃ kind ∈ [.undefinedVariable, .nullPropertyAccess, .undefinedFunction, .nonNumericNegation],
        failure.kind? = some kind) := by
  have expected := Expr.expected_of_known (Grammar.known_of_ofText read) failed
  cases expected with
  | @unbound name token frames listed unknown =>
      exact ⟨nofun, nofun, nofun, fun _ => ⟨name, token, frames, rfl, listed, unknown⟩, nofun,
        fun _ => ⟨.undefinedVariable, by decide, rfl⟩⟩
  | nullish =>
      exact ⟨nofun, nofun, nofun, nofun, nofun, fun _ => ⟨.nullPropertyAccess, by decide, rfl⟩⟩
  | @undefined function arguments token frames listed unknown =>
      have bodiless := Option.join_eq_none_iff.mp unknown
      exact ⟨nofun, nofun, nofun, nofun,
        fun _ => ⟨function, arguments, token, frames, rfl, listed, bodiless⟩,
        fun _ => ⟨.undefinedFunction, by decide, rfl⟩⟩
  | negated =>
      exact ⟨nofun, nofun, nofun, nofun, nofun, fun _ => ⟨.nonNumericNegation, by decide, rfl⟩⟩
  | @thrown name body arguments between thrown count found throws =>
      cases thrown with
      | expression kind message =>
          exact absurd throws (calm name body found arguments between kind message)
      | other message =>
          rw [Failure.ofHost, Failure.framed_iterate_host]
          exact ⟨nofun, nofun, nofun, nofun, nofun,
            fun only => absurd throws (only.no_error found arguments between _)⟩

/-- A builtin function whose argument is not bound. -/
theorem unboundArgument_fails_as_expected :
    ∃ program failure,
      Program.ofText [] 1 (Text.ascii "@abs(-x)") = .ok program ∧
      (Environment.withBuiltins (σ := Unit) Environment.empty).Calm ∧
      (program.evaluate (Environment.withBuiltins (σ := Unit) Environment.empty) ()).result =
        .error failure ∧
      failure.kind? ≠ some .unknownOperator ∧
      ∃ name token frames, failure = .evaluation (.undefinedVariable name) frames ∧
        .identifier name token ∈ program.body.parts := by
  generalize formula : Text.ascii "@abs(-x)" = text
  have calm := Environment.OnlyBuiltins.calm (σ := Unit) rfl
  have checked : ((Program.ofText [] 1 text).toOption.any fun program =>
      match (program.evaluate (Environment.withBuiltins (σ := Unit) .empty) ()).result with
      | .error failure => failure.kind? = some .undefinedVariable
      | .ok _ => false) := by
    rw [← formula]
    decide +kernel
  cases read : Program.ofText [] 1 text with
  | error error =>
      rw [read] at checked
      cases checked
  | ok program =>
      rw [read] at checked
      dsimp only [Except.toOption, Option.any] at checked
      split at checked
      · rename_i failure failed
        obtain ⟨-, known, -, unbound, -⟩ := evaluate_fails_as_expected read calm failed
        obtain ⟨name, token, frames, same, listed, -⟩ := unbound (of_decide_eq_true checked)
        exact ⟨program, failure, rfl, calm, failed, known, name, token, frames, same, listed⟩
      · cases checked

end Program
end Formulary
