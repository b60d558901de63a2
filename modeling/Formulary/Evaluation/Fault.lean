import Formulary.Text.Basic

/-!
# Failures of evaluation

An expression fails for one of seven kinds of reason, and a host function fails in a way of its
own or with a reason of these kinds.  The message of a reason carries one mark for each node that
it passed on its way out; what a host function reports of its own passes them unmarked.
-/

namespace Formulary

/-- The kinds of reason for which an expression fails. -/
inductive FaultKind where
  | undefinedVariable
  | nullPropertyAccess
  | undefinedFunction
  | nonNumericNegation
  | unsupportedPostfix
  | unknownOperator
  | unsupportedNodeType
  deriving DecidableEq

namespace FaultKind

/-- The name of a kind. -/
def name : FaultKind → String
  | undefinedVariable => "UndefinedVariable"
  | nullPropertyAccess => "NullPropertyAccess"
  | undefinedFunction => "UndefinedFunction"
  | nonNumericNegation => "NonNumericNegation"
  | unsupportedPostfix => "UnsupportedPostfix"
  | unknownOperator => "UnknownOperator"
  | unsupportedNodeType => "UnsupportedNodeType"

/-- All kinds. -/
def all : List FaultKind :=
  [undefinedVariable, nullPropertyAccess, undefinedFunction, nonNumericNegation,
    unsupportedPostfix, unknownOperator, unsupportedNodeType]

/-- The kind of a name. -/
def ofName? (name : String) : Option FaultKind :=
  all.find? fun kind => kind.name == name

end FaultKind

/-- A reason for which an expression fails. -/
inductive EvaluationFault where
  | undefinedVariable (name : Text)
  | nullPropertyAccess
  /-- The function is not registered, or registered without a body. -/
  | undefinedFunction (name : Text)
  /-- The minus sign stands in front of a value with this text that is no number. -/
  | nonNumericNegation (text : Text)
  | unsupportedPostfix (operator : Text)
  | unknownOperator (operator : Text)
  | unsupportedNode (type : Text)
  | missingNode
  /-- A property that is not computed is no name, but a node of this type or a missing one. -/
  | propertyNotName (type : Option Text)
  /-- A host function gave this reason. -/
  | raised (kind : FaultKind) (message : Text)
  deriving DecidableEq

namespace EvaluationFault

/-- The kind of a reason. -/
def kind : EvaluationFault → FaultKind
  | undefinedVariable _ => .undefinedVariable
  | nullPropertyAccess => .nullPropertyAccess
  | undefinedFunction _ => .undefinedFunction
  | nonNumericNegation _ => .nonNumericNegation
  | unsupportedPostfix _ => .unsupportedPostfix
  | unknownOperator _ => .unknownOperator
  | unsupportedNode _ => .unsupportedNodeType
  | missingNode => .unsupportedNodeType
  | propertyNotName _ => .unsupportedNodeType
  | raised kind _ => kind

/-- The message of a reason. -/
def message : EvaluationFault → Text
  | undefinedVariable name => Text.ascii "Undefined variable: " ++ name
  | nullPropertyAccess => Text.ascii "Cannot access property of null or undefined"
  | undefinedFunction name => Text.ascii "Undefined function: " ++ name
  | nonNumericNegation text => Text.ascii "Cannot apply unary - to non-number: " ++ text
  | unsupportedPostfix operator =>
      Text.ascii "Postfix operators are not supported: " ++ operator
  | unknownOperator operator => Text.ascii "Unknown operator: " ++ operator
  | unsupportedNode type => Text.ascii "Unsupported node type: " ++ type
  | missingNode => Text.ascii "Unsupported node type: <missing>"
  | propertyNotName type =>
      Text.ascii "Unsupported node type: " ++ type.getD (Text.ascii "<missing>") ++
        Text.ascii " (non-computed property must be an Identifier)"
  | raised _ message => message

end EvaluationFault

/-- How a host function fails. -/
inductive HostFailure where
  /-- With a reason for which expressions fail. -/
  | expression (kind : FaultKind) (message : Text)
  /-- In a way of its own. -/
  | other (message : Text)
  deriving DecidableEq

/-- How an evaluation fails. -/
inductive Failure where
  /-- For a reason, which has passed `frames` nodes. -/
  | evaluation (fault : EvaluationFault) (frames : Nat)
  /-- A host function failed in a way of its own. -/
  | host (message : Text)
  deriving DecidableEq

namespace Failure

/-- The failure of a host function, which has passed no node yet. -/
def ofHost : HostFailure → Failure
  | .expression kind message => evaluation (.raised kind message) 0
  | .other message => host message

/-- The failure, one node further out. -/
def framed : Failure → Failure
  | evaluation fault frames => evaluation fault (frames + 1)
  | host message => host message

/-- What each node puts in front of the message of a reason that passes it. -/
def frameMark : Text := Text.ascii "Evaluation error: "

/-- The message of a failure.  The part that is quoted ends at its first NUL byte. -/
def message : Failure → Text
  | evaluation fault frames =>
      (List.replicate frames frameMark).flatten ++ Text.beforeNul fault.message
  | host message => Text.beforeNul message

end Failure
end Formulary
