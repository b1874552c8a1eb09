import Mathlib.Data.List.Basic

namespace Tiqora.Approvals

inductive ApprovalStatus
  | pending | approved | rejected | cancelled
  deriving DecidableEq, Repr

inductive StepStatus
  | waiting | active | approved | rejected | cancelled
  deriving DecidableEq, Repr

inductive ApproverStatus
  | pending | approved | rejected | forwarded | removed | notNeeded
  deriving DecidableEq, Repr

inductive Rule
  | any | all | quorum | majority
  deriving DecidableEq, Repr

inductive Channel
  | ui | email | portal | api | mcp | chat | auto
  deriving DecidableEq, Repr

inductive Decision
  | approved | rejected
  deriving DecidableEq, Repr

inductive EntryKind
  | user | group | role | list | customerUser | resolver
  deriving DecidableEq, Repr

inductive OnTimeout
  | notify | escalate | reject | approve
  deriving DecidableEq, Repr

inductive OnNoApprover
  | reject | approve
  deriving DecidableEq, Repr

/-- The `reason` column of requests and steps. -/
inductive Reason
  | votes | timeout | noApprovers | auto | cancelled | superseded | ticketDeleted
  deriving DecidableEq, Repr

/-- An agent or a customer user. Its key (`agent:12`, `customer:<login>`) determines it, so
principals stand for their keys; the key `system` is the absence of a principal. -/
inductive Principal
  | agent (userId : ℕ)
  | customer (login : String)
  deriving DecidableEq, Repr

def Principal.userId : Principal → Option ℕ
  | .agent n => some n
  | .customer _ => none

def Principal.login : Principal → Option String
  | .agent _ => none
  | .customer l => some l

structure ApproverEntry where
  kind : EntryKind
  ref : String
  deriving DecidableEq, Repr

/-- One step of a definition, with the consistency that the model validator checks. -/
structure StepSpec where
  name : String
  stage : ℕ
  rule : Rule
  quorum : Option ℕ
  approvers : List ApproverEntry
  dueHours : Option ℕ
  onTimeout : OnTimeout
  escalation : List ApproverEntry
  onNoApprover : OnNoApprover
  allowDelegation : Bool
  allowEmail : Bool
  quorum_iff : rule = .quorum ↔ quorum.isSome
  escalation_iff : onTimeout = .escalate ↔ escalation ≠ []
  deriving DecidableEq

structure ApprovalDefinition where
  steps : List StepSpec
  steps_ne : steps ≠ []

structure ApprovalError where
  code : String
  httpStatus : ℕ
  detail : Option String
  deriving DecidableEq, Repr

/-- What ends an operation early: its transaction is rolled back. -/
inductive Failure
  | approval (e : ApprovalError)
  | value (message : String)
  deriving DecidableEq, Repr

def refuse (code : String) (httpStatus : ℕ) (detail : Option String := none) : Failure :=
  .approval ⟨code, httpStatus, detail⟩

end Tiqora.Approvals
