import Tiqora.Approvals.Request

namespace Tiqora.Approvals

/-- Requester and creator never approve their own request unless it allows self-approval. -/
def excludedKeys (env : Env) (r : Request) : List Principal :=
  if r.allowSelfApproval then []
  else r.requester.toList ++ (r.creator.map env.directory.canonicalPrincipal).toList

def allowCustomers (env : Env) : Bool := env.customerApproversEnabled && env.subjectAllowsCustomers

def cancelStep (env : Env) (reason : Reason) (s : ApprovalStep) : ApprovalStep :=
  if s.status.open then
    { s with status := .cancelled, reason := some reason, decidedAt := some env.now }
  else s

/-- Waiting and active steps are cancelled, their pending approvers not needed. -/
def closeOpenSteps (env : Env) (reason : Reason) (r : Request) : Request :=
  { r.mark (fun a ↦ a.status = .pending ∧ r.steps.any fun s ↦ s.id = a.stepId ∧ s.status.open)
      .notNeeded with
    steps := r.steps.map (cancelStep env reason) }

/-- Closes a request: row, open steps, links. -/
def finalize (env : Env) (status : ApprovalStatus) (reason : Reason) (r : Request) : Request :=
  { closeOpenSteps env reason r with
    status, reason := some reason, decidedAt := some env.now, currentStage := none }
    |>.revokeApprovalLinks env.now

def approvedReasonPrecedence : List Reason := [.timeout, .noApprovers, .auto, .votes]

/-- Rejected: the reason of the step that rejected it. Approved: the weakest reason of the
closed steps. -/
def resultReason (steps : List ApprovalStep) (result : ApprovalStatus) : Reason :=
  if result = .rejected then
    match steps.find? fun s ↦ s.status = .rejected with
    | some s => s.reason.getD .votes
    | none => .votes
  else
    let closed := (steps.filter fun s ↦ s.status = .approved ∨ s.status = .rejected).map
      fun s ↦ s.reason.getD .votes
    (approvedReasonPrecedence.find? fun x ↦ x ∈ closed).getD .votes

def resolveStep (env : Env) (r : Request) (stepId : ℕ) (entries : List ApproverEntry)
    (escalation : Bool) : Resolution :=
  resolveEntries env.directory (env.collect stepId entries) (excludedKeys env r)
    (allowCustomers env) escalation

def dueAt (env : Env) (spec : StepSpec) : Option ℕ :=
  let hours := spec.dueHours.getD env.defaultDueHours
  if hours = 0 then none else some (env.now + hours * 3600)

def noApproverStatus (spec : StepSpec) : StepStatus :=
  match spec.onNoApprover with
  | .approve => .approved
  | .reject => .rejected

def addApprovers (now stepId : ℕ) (found : List ResolvedApprover) (r : Request) : Request :=
  found.foldl (fun r a ↦ r.addApprover stepId a now) r

def startStep (env : Env) (s : ApprovalStep) (r : Request) : Request :=
  { r.setStep s.id fun t ↦
      { t with status := .active, activatedAt := some env.now, dueAt := dueAt env s.spec } with
    currentStage := some s.spec.stage }

def recordOutcome (now stepId : ℕ) (outcome : StepStatus) (reason : Reason) (r : Request) :
    Request :=
  r.setStep stepId fun t ↦
    { t with status := outcome, reason := some reason, decidedAt := some now }

def decidable (s : StepSpec) (found : List ResolvedApprover) : Bool :=
  found.length ≠ 0 && quorumReachable s.rule s.quorum found.length

def activateWith (env : Env) (s : ApprovalStep) (found : List ResolvedApprover) (r : Request) :
    Request :=
  if decidable s.spec found then addApprovers env.now s.id found (startStep env s r)
  else recordOutcome env.now s.id (noApproverStatus s.spec) .noApprovers (startStep env s r)

/-- Resolves and activates one step; a step that nobody can decide is closed at once. -/
def activateStep (env : Env) (r : Request) (s : ApprovalStep) : Request :=
  activateWith env s (resolveStep env r s.id s.spec.approvers false).approvers r

def activateStage (env : Env) (stage : ℕ) (r : Request) : Request :=
  (r.steps.filter fun s ↦ s.spec.stage = stage ∧ s.status = .waiting).foldl
    (activateStep env) r

/-- The loop that activates stages until one waits for votes or the request is closed; each
round but the last takes at least one waiting step, which bounds the rounds. -/
def activateFrom (env : Env) : ℕ → Request → Request
  | 0, r => r
  | fuel + 1, r =>
    if r.status ≠ .pending then r
    else if requestResult r.stages = .rejected then
      finalize env .rejected (resultReason r.steps .rejected) r
    else if r.steps.any fun s ↦ s.status = .active then r
    else match nextStage r.stages with
      | none =>
        if requestResult r.stages = .approved then
          finalize env .approved (resultReason r.steps .approved) r
        else r
      | some stage => activateFrom env fuel (activateStage env stage r)

def waitingSteps (r : Request) : ℕ := r.steps.countP fun s ↦ s.status = .waiting

def activateNextStage (env : Env) (r : Request) : Request :=
  activateFrom env (waitingSteps r + 1) r

/-- False for voters that exist only through an escalation, and for their forward rows. -/
def inRule (rows : List Approver) : ℕ → Approver → Bool
  | 0, _ => true
  | fuel + 1, a =>
    if !a.decisive then true
    else match a.source with
      | .escalation _ => false
      | .entry _ _ => true
      | .forward origin =>
        match rows.find? fun b ↦ b.id = origin with
        | none => true
        | some b => inRule rows fuel b

def voteOrder (env : Env) (r : Request) (a : Approver) : ℕ ×ₗ ℕ ×ₗ ℕ ×ₗ ℕ :=
  let at' := ((r.votes.find? fun v ↦ v.approverId = a.id).map fun v ↦ (v.decidedAt, v.id)).getD
    (env.now, 0)
  toLex (if a.status = .pending then 1 else 0, toLex (at'.1, toLex (at'.2, a.id)))

def voterState (r : Request) (a : Approver) : Option VoterState :=
  a.status.voteResult.map fun s ↦ ⟨s, a.decisive, inRule r.approvers r.approvers.length a⟩

/-- Eligible voters of the step in vote order, the ones still pending last. -/
def stepVoters (env : Env) (r : Request) (stepId : ℕ) : List VoterState :=
  ((r.approvers.filter fun a ↦ a.stepId = stepId).insertionSort
    fun a b ↦ voteOrder env r a ≤ voteOrder env r b).filterMap (voterState r)

def pendingIn (stepId : ℕ) (a : Approver) : Bool := a.stepId = stepId ∧ a.status = .pending

/-- A step has its result: leftovers not needed, their links dead, next stage. -/
def closeStep (env : Env) (s : ApprovalStep) (outcome : StepStatus) (reason : Reason)
    (r : Request) : Request :=
  activateNextStage env
    ((recordOutcome env.moment s.id outcome reason r).dismiss (pendingIn s.id) .notNeeded env.now)

def VoteResult.outcome : VoteResult → Option StepStatus
  | .pending => none
  | .approved => some .approved
  | .rejected => some .rejected

/-- The result of a step whose voters changed, with its reason: no voter left means the step's
`on_no_approver`. -/
def stepResult (env : Env) (r : Request) (s : ApprovalStep) :
    Except Failure (Option (StepStatus × Reason)) := do
  let result ← evaluateStep s.spec.rule s.spec.quorum (stepVoters env r s.id)
  return match result.outcome with
    | some outcome => some (outcome, .votes)
    | none =>
      if stepVoters env r s.id = [] then some (noApproverStatus s.spec, .noApprovers) else none

/-- Re-evaluates active steps after their voters changed, like after a vote. -/
def reevaluateSteps (env : Env) : List ApprovalStep → Request → Except Failure Request
  | [], r => .ok r
  | s :: ss, r =>
    if r.status ≠ .pending ∨ r.statusOf s.id ≠ some .active then reevaluateSteps env ss r
    else do
      match ← stepResult env r s with
      | some (outcome, reason) => reevaluateSteps env ss (closeStep env s outcome reason r)
      | none => reevaluateSteps env ss r

end Tiqora.Approvals
