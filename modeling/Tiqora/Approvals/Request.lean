import Mathlib.Data.Prod.Lex
import Mathlib.Data.List.Sort
import Tiqora.Approvals.Resolve
import Tiqora.Approvals.Rules

namespace Tiqora.Approvals

structure ApprovalStep where
  id : ℕ
  position : ℕ
  spec : StepSpec
  status : StepStatus
  reason : Option Reason
  activatedAt : Option ℕ
  dueAt : Option ℕ
  decidedAt : Option ℕ
  lastReminderAt : Option ℕ
  reminderCount : ℕ
  overdueAt : Option ℕ
  deriving DecidableEq

structure Approver where
  id : ℕ
  stepId : ℕ
  principal : Principal
  source : Source
  decisive : Bool
  status : ApproverStatus
  addedAt : ℕ
  deriving DecidableEq

structure Vote where
  id : ℕ
  stepId : ℕ
  approverId : ℕ
  decision : Decision
  comment : Option String
  decidedBy : Principal
  onBehalf : Bool
  channel : Channel
  decidedAt : ℕ
  deriving DecidableEq

structure Link where
  id : ℕ
  approverId : ℕ
  createdAt : ℕ
  expiresAt : ℕ
  usedAt : Option ℕ
  revokedAt : Option ℕ
  deriving DecidableEq

def Link.live (l : Link) : Prop := l.usedAt = none ∧ l.revokedAt = none

instance (l : Link) : Decidable l.live := inferInstanceAs (Decidable (_ ∧ _))

/-- One request with its rows in the step, approver, vote and link tables, each in key order.
`requester` and `creator` are principal keys, `none` for `system`; the creator is the actor of
the audit row that every request starts with. -/
structure Request where
  subjectType : String
  status : ApprovalStatus
  reason : Option Reason
  currentStage : Option ℕ
  decidedAt : Option ℕ
  supersededBy : Option ℕ
  allowSelfApproval : Bool
  requester : Option Principal
  creator : Option Principal
  steps : List ApprovalStep
  approvers : List Approver
  votes : List Vote
  links : List Link
  nextApprover : ℕ
  nextVote : ℕ
  nextLink : ℕ
  deriving DecidableEq

structure Delegation where
  userId : ℕ
  substituteUserId : ℕ
  validFrom : ℕ
  validUntil : Option ℕ
  revokedAt : Option ℕ

/-- What one operation reads besides the request: the clock, the time it took at its start and
hands on to its parts, the directory, what the entries of
a step resolve to (any collection, each time anew), the delegations, switches and settings,
which agents may write the ticket, and what the stored groups, lists and resolvers say about the
references of a definition. -/
structure Env where
  now : ℕ
  moment : ℕ
  directory : Directory
  collect : ℕ → List ApproverEntry → Collected
  delegations : List Delegation
  approvalsEnabled : Bool
  subjectAvailable : Bool
  subjectAllowsCustomers : Bool
  customerApproversEnabled : Bool
  emailLinksEnabled : Bool
  defaultDueHours : ℕ
  linkTtlHours : ℕ
  maxLinksPerApprover : ℕ
  reminderIntervalHours : ℕ
  reminderMax : ℕ
  mayWrite : ℕ → Bool
  subjectRegistered : Bool
  ticketExists : Bool
  definitionRefs : ApprovalDefinition → Except Failure Unit

def StepStatus.open : StepStatus → Bool
  | .waiting | .active => true
  | .approved | .rejected | .cancelled => false

def Decision.status : Decision → ApproverStatus
  | .approved => .approved
  | .rejected => .rejected

def Source.isForward : Source → Bool
  | .forward _ => true
  | .entry _ _ | .escalation _ => false

/-- The vote of an eligible row; rows taken out of the step have none. -/
def ApproverStatus.voteResult : ApproverStatus → Option VoteResult
  | .pending => some .pending
  | .approved => some .approved
  | .rejected => some .rejected
  | .forwarded | .removed | .notNeeded => none

namespace Request

def statusOf (r : Request) (stepId : ℕ) : Option StepStatus :=
  (r.steps.find? fun s ↦ s.id = stepId).map (·.status)

def stages (r : Request) : List (ℕ × StepStatus) := r.steps.map fun s ↦ (s.spec.stage, s.status)

def setStep (r : Request) (stepId : ℕ) (f : ApprovalStep → ApprovalStep) : Request :=
  { r with steps := r.steps.map fun s ↦ if s.id = stepId then f s else s }

def setApprover (r : Request) (approverId : ℕ) (f : Approver → Approver) : Request :=
  { r with approvers := r.approvers.map fun a ↦ if a.id = approverId then f a else a }

/-- Every approver row that the test picks gets the status. -/
def mark (r : Request) (p : Approver → Bool) (status : ApproverStatus) : Request :=
  { r with approvers := r.approvers.map fun a ↦ if p a then { a with status } else a }

def addApprover (r : Request) (stepId : ℕ) (a : ResolvedApprover) (now : ℕ) : Request :=
  { r with
    approvers := r.approvers ++ [⟨r.nextApprover, stepId, a.principal, a.source, false, .pending, now⟩]
    nextApprover := r.nextApprover + 1 }

/-- Kills the live links of these approver rows; the redeemed one is marked used instead. -/
def revokeLinks (r : Request) (approverIds : List ℕ) (redeemed : Option ℕ) (now : ℕ) : Request :=
  { r with links := r.links.map fun l ↦
      if l.approverId ∈ approverIds ∧ l.usedAt = none then
        if redeemed = some l.id then { l with usedAt := some now }
        else if l.revokedAt = none then { l with revokedAt := some now }
        else l
      else l }

/-- The rows that the test picks leave with the status, and their links die. -/
def dismiss (r : Request) (p : Approver → Bool) (status : ApproverStatus) (now : ℕ) : Request :=
  (r.mark p status).revokeLinks ((r.approvers.filter p).map (·.id)) none now

def revokeApprovalLinks (r : Request) (now : ℕ) : Request :=
  { r with links := r.links.map fun l ↦ if l.live then { l with revokedAt := some now } else l }

section Fields

variable (r : Request) (n now : ℕ) (p : Approver → Bool) (status : ApproverStatus)
  (ids : List ℕ) (redeemed : Option ℕ) (x : ResolvedApprover)

@[simp] theorem setStep_status (f : ApprovalStep → ApprovalStep) :
    (r.setStep n f).status = r.status := rfl

@[simp] theorem setStep_approvers (f : ApprovalStep → ApprovalStep) :
    (r.setStep n f).approvers = r.approvers := rfl

@[simp] theorem setApprover_status (f : Approver → Approver) :
    (r.setApprover n f).status = r.status := rfl

@[simp] theorem setApprover_steps (f : Approver → Approver) :
    (r.setApprover n f).steps = r.steps := rfl

@[simp] theorem mark_status : (r.mark p status).status = r.status := rfl

@[simp] theorem mark_steps : (r.mark p status).steps = r.steps := rfl

@[simp] theorem addApprover_status : (r.addApprover n x now).status = r.status := rfl

@[simp] theorem addApprover_steps : (r.addApprover n x now).steps = r.steps := rfl

@[simp] theorem revokeLinks_status : (r.revokeLinks ids redeemed now).status = r.status := rfl

@[simp] theorem revokeLinks_steps : (r.revokeLinks ids redeemed now).steps = r.steps := rfl

@[simp] theorem revokeLinks_approvers :
    (r.revokeLinks ids redeemed now).approvers = r.approvers := rfl

@[simp] theorem dismiss_status : (r.dismiss p status now).status = r.status := rfl

@[simp] theorem dismiss_steps : (r.dismiss p status now).steps = r.steps := rfl

end Fields

end Request

end Tiqora.Approvals
