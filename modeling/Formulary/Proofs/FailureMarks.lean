import Formulary.Proofs.Raising

/-!
# Marks of failures

On its way out of the tree a failure for a reason passes the node that raised it and every node
above, and each of them puts one mark in front of what can be read of the message.  The marks hold
no NUL byte, so that cutting the message at each node is cutting it once.
-/

namespace Formulary

namespace Failure

/-- The kind of reason for which an evaluation failed, if it was one. -/
def kind? : Failure → Option FaultKind
  | evaluation fault _ => some fault.kind
  | host _ => none

/-- What a node makes of a message: a mark in front of the part that can be read. -/
def mark (message : Text) : Text :=
  Text.ascii "Evaluation error: " ++ Text.beforeNul message

private theorem beforeNul_mark (message : Text) :
    Text.beforeNul (mark message) = frameMark ++ Text.beforeNul message := by
  have no_nul : Text.nul ∉ Text.ascii "Evaluation error: " := by decide +kernel
  rw [mark, Text.beforeNul_append no_nul, Text.beforeNul_beforeNul, frameMark]

private theorem beforeNul_mark_iterate (count : Nat) (message : Text) :
    Text.beforeNul (mark^[count] message) =
      (List.replicate count frameMark).flatten ++ Text.beforeNul message := by
  induction count with
  | zero => rfl
  | succ count induction =>
      rw [Function.iterate_succ_apply', beforeNul_mark, induction, List.replicate_succ,
        List.flatten_cons, List.append_assoc]

theorem framed_iterate_evaluation (count : Nat) (fault : EvaluationFault) (frames : Nat) :
    framed^[count] (evaluation fault frames) = evaluation fault (frames + count) := by
  induction count with
  | zero => rfl
  | succ count induction => rw [Function.iterate_succ_apply', induction, framed, Nat.add_assoc]

theorem framed_iterate_host (count : Nat) (message : Text) :
    framed^[count] (host message) = host message := by
  induction count with
  | zero => rfl
  | succ count induction => rw [Function.iterate_succ_apply', induction, framed]

end Failure

namespace Program

open Formulary.Expr (Reaches Raises FailsAt)

variable {σ : Type}

/--
A reason that a node raises ends the evaluation under its own kind, with one mark for each node from
the root down to that one, in front of the message up to its first NUL byte; what a host function
fails with in a way of its own ends it as it is.  A formula without a root bears no mark, and there
are no other failures.
-/
theorem evaluate_marks_failures (environment : Environment σ) (program : Program) (host : σ) :
    (program.body = .missing →
      ∃ failure, (program.evaluate environment host).result = .error failure ∧
        failure.kind? = some .unsupportedNodeType ∧
        failure.message = Text.ascii "Unsupported node type: <missing>") ∧
    (∀ place node reached fault, Reaches environment program.body host place node reached →
      Raises environment node reached (.evaluation fault 0) →
      program.body.at? place = some node ∧
        ∃ failure, (program.evaluate environment host).result = .error failure ∧
          failure.kind? = some fault.kind ∧
          failure.message = Text.beforeNul (Failure.mark^[place.length + 1] fault.message) ∧
          failure.message =
            (List.replicate (place.length + 1) (Text.ascii "Evaluation error: ")).flatten ++
              Text.beforeNul fault.message) ∧
    (∀ place node reached message, Reaches environment program.body host place node reached →
      Raises environment node reached (.host message) →
      (program.evaluate environment host).result = .error (.host message)) ∧
    (∀ failure, (program.evaluate environment host).result = .error failure →
      program.body = .missing ∨
        ∃ place node reached raised, Reaches environment program.body host place node reached ∧
          Raises environment node reached raised ∧
          ((∃ fault, raised = .evaluation fault 0) ∨ ∃ message, raised = .host message)) := by
  refine ⟨?absent, ?marked, ?unmarked, ?all⟩
  case absent =>
    intro absent
    refine ⟨.evaluation .missingNode 0, ?_, rfl, by decide⟩
    rw [evaluate, absent]
    rfl
  case marked =>
    intro place node reached fault reaches raises
    refine ⟨reaches.at?_eq, .evaluation fault (place.length + 1), ?_, rfl, ?_, rfl⟩
    · have failed := FailsAt.result_eq ⟨node, reached, _, reaches, raises, rfl⟩
      rw [Failure.framed_iterate_evaluation, Nat.zero_add] at failed
      exact failed
    · exact (Failure.beforeNul_mark_iterate _ _).symm
  case unmarked =>
    intro place node reached message reaches raises
    have failed := FailsAt.result_eq ⟨node, reached, _, reaches, raises, rfl⟩
    rw [Failure.framed_iterate_host] at failed
    exact failed
  case all =>
    intro failure failed
    by_cases absent : program.body = .missing
    · exact .inl absent
    · obtain ⟨place, node, reached, raised, reaches, raises, -⟩ :=
        Expr.exists_failsAt absent failed
      exact .inr ⟨place, node, reached, raised, reaches, raises, raises.unmarked⟩

end Program
end Formulary
