import Tiqora.Approvals.Engine
import Tiqora.Foundation.Text

namespace Tiqora.Approvals

open Foundation

/-- Who acts: a principal, or the system. -/
abbrev Actor := Option Principal

def replaceNonBmp (s : String) : String :=
  String.ofList (s.toList.map fun c ↦ if c.toNat ≤ 0xFFFF then c else '�')

def stripped (s : String) : String := String.ofList (strip s.toList)

/-- A title, an approval key and a subject reference fit their columns. -/
def checkText (title approvalKey : String) (subjectRef : Option String) :
    Except Failure (String × String × Option String) := do
  let title := stripped (replaceNonBmp title)
  let approvalKey := stripped (replaceNonBmp approvalKey)
  let subjectRef := subjectRef.map replaceNonBmp
  require (title ≠ "" ∧ title.length ≤ 250)
    (refuse "invalid_definition" 422 (some "title must be 1-250 characters"))
  require (approvalKey ≠ "" ∧ approvalKey.length ≤ 100)
    (refuse "invalid_definition" 422 (some "approval_key must be 1-100 characters"))
  require ((subjectRef.getD "").length ≤ 190)
    (refuse "invalid_definition" 422 (some "subject_ref must be at most 190 characters"))
  return (title, approvalKey, subjectRef)

/-- The arguments of a request that its rows keep; `definition` is the one of the template where
the request names a template. -/
structure RequestArgs where
  subjectType : String
  title : String
  approvalKey : String
  subjectRef : Option String
  actor : Actor
  requester : Option Principal
  definition : ApprovalDefinition
  allowSelfApproval : Bool

def requesterKey (env : Env) (requester : Option Principal) (actor : Actor) : Option Principal :=
  (requester.or actor).map env.directory.canonicalPrincipal

def newSteps : ℕ → List StepSpec → List ApprovalStep
  | _, [] => []
  | position, spec :: specs =>
    ⟨position, position, spec, .waiting, none, none, none, none, none, 0, none⟩ ::
      newSteps (position + 1) specs

/-- The request row and its step rows, all waiting. -/
def createRequest (env : Env) (args : RequestArgs) : Request where
  subjectType := args.subjectType
  status := .pending
  reason := none
  currentStage := none
  decidedAt := none
  supersededBy := none
  allowSelfApproval := args.allowSelfApproval
  requester := requesterKey env args.requester args.actor
  creator := args.actor
  steps := newSteps 1 args.definition.steps
  approvers := []
  votes := []
  links := []
  nextApprover := 1
  nextVote := 1
  nextLink := 1

def requestApproval (env : Env) (args : RequestArgs) : Except Failure Request := do
  require env.approvalsEnabled (refuse "approvals_disabled" 404)
  require env.subjectAvailable (refuse "subject_unavailable" 409)
  let _ ← checkText args.title args.approvalKey args.subjectRef
  require env.subjectRegistered (refuse "unknown_subject_type" 422 (some args.subjectType))
  require env.ticketExists (refuse "ticket_not_found" 404)
  validateDefinition args.definition
  env.definitionRefs args.definition
  return activateNextStage env (createRequest env args)

def canCancel (env : Env) (r : Request) (actor : Actor) : Bool :=
  match actor with
  | none => true
  | some (.customer _) => false
  | some (.agent n) =>
    actor = r.requester || actor = r.creator || env.mayWrite n

/-- Cancels a pending request; consumers skip the permission check for their own automation. -/
def cancelApproval (env : Env) (actor : Actor) (reason : Reason) (checkPermission : Bool)
    (r : Request) : Except Failure Request := do
  require (reason ∈ [Reason.cancelled, .superseded, .ticketDeleted])
    (.value "unknown cancel reason")
  require (checkPermission → env.subjectAvailable) (refuse "subject_unavailable" 409)
  require (checkPermission → canCancel env r actor) (refuse "forbidden" 403)
  require (r.status = .pending) (refuse "approval_closed" 409)
  return finalize env .cancelled reason r

/-- A newer request of the same ticket and key takes the place of this one. -/
def supersede (env : Env) (newId : ℕ) (r : Request) : Except Failure Request := do
  require (r.status = .pending) (refuse "approval_closed" 409)
  return finalize env .cancelled .superseded { r with supersededBy := some newId }

/-- User ids whose approvals the substitute may decide now, one hop only. -/
def activeDelegators (env : Env) (substitute : ℕ) : List ℕ :=
  (env.delegations.filter fun d ↦
    d.substituteUserId = substitute ∧ d.revokedAt = none ∧ d.validFrom ≤ env.now ∧
      d.validUntil.all (env.now < ·)).map (·.userId)

/-- Why none of the actor's rows can vote. -/
def refusal (candidates : List Approver) : Failure :=
  if candidates.any fun a ↦
      a.status = .approved ∨ a.status = .rejected ∨ a.status = .forwarded then
    refuse "already_decided" 409
  else if candidates.any fun a ↦ a.status = .pending ∨ a.status = .notNeeded then
    refuse "step_not_active" 409
  else refuse "not_an_approver" 403

def delegated (env : Env) (r : Request) (principal : Principal) (a : Approver) : Bool :=
  match principal.userId, a.principal.userId with
  | some me, some other =>
    other ∈ activeDelegators env me ∧ other ≠ me ∧
      r.steps.any fun s ↦ s.id = a.stepId ∧ s.spec.allowDelegation
  | _, _ => false

/-- The rows that the actor could vote with, before what they already voted on is looked at. -/
def candidateRows (env : Env) (r : Request) (principal key : Principal)
    (approverId : Option ℕ) : List Approver :=
  r.approvers.filter fun a ↦
    (approverId.all (a.id = ·)) ∧ (a.principal = key ∨ delegated env r principal a)

def votedSteps (r : Request) (key : Principal) : List ℕ :=
  (r.votes.filter fun v ↦ v.decidedBy = key).map (·.stepId)

def pickOrder (key : Principal) (a : Approver) : ℕ ×ₗ ℕ :=
  toLex (if a.principal = key then 0 else 1, a.id)

/-- The row the actor votes with: their own one first, and at most one vote a step. -/
def pickApprover (env : Env) (r : Request) (principal key : Principal)
    (approverId : Option ℕ) : Except Failure Approver :=
  let candidates := candidateRows env r principal key approverId
  let usable := candidates.filter fun a ↦
    a.status = .pending ∧ r.steps.any fun s ↦ s.id = a.stepId ∧ s.status = .active
  let free := (usable.filter fun a ↦ a.stepId ∉ votedSteps r key).insertionSort fun a b ↦
    pickOrder key a ≤ pickOrder key b
  match free with
  | a :: _ => .ok a
  | [] => .error (if usable ≠ [] then refuse "already_decided" 409 else refusal candidates)

def checkCustomerApprover (env : Env) (p : Principal) : Except Failure Unit :=
  match p with
  | .agent _ => .ok ()
  | .customer login => do
    require (allowCustomers env)
      (refuse "forbidden" 403 (some "customer approvers are not enabled"))
    require (env.directory.customerInTicketCompany login)
      (refuse "customer_approver_outside_company" 403)

def newVote (env : Env) (row : Approver) (key : Principal) (decision : Decision)
    (channel : Channel) (comment : Option String) (r : Request) : Vote :=
  ⟨r.nextVote, row.stepId, row.id, decision, comment, key, row.principal ≠ key, channel, env.moment⟩

def recordVote (v : Vote) (r : Request) : Request :=
  { r.setApprover v.approverId fun a ↦ { a with status := v.decision.status } with
    votes := r.votes ++ [v]
    nextVote := r.nextVote + 1 }

/-- The other pending rows of a person in a step. -/
def ownPending (stepId : ℕ) (key : Principal) (a : Approver) : Bool :=
  a.stepId = stepId ∧ a.status = .pending ∧ a.principal = key

/-- Writes the vote of a row; other rows of the same person in the step can then never vote. -/
def castVote (env : Env) (v : Vote) (tokenId : Option ℕ) (r : Request) : Request :=
  ((recordVote v r).revokeLinks [v.approverId] tokenId env.now).dismiss
    (ownPending v.stepId v.decidedBy) .notNeeded env.now

structure DecideArgs where
  actor : Actor
  decision : Decision
  channel : Channel
  comment : Option String
  approverId : Option ℕ
  tokenId : Option ℕ

/-- What a vote does after every check: the vote itself, then the step's result if it has one. -/
def applyVote (env : Env) (s : ApprovalStep) (v : Vote) (tokenId : Option ℕ) (r : Request) :
    Except Failure Request := do
  let result ← evaluateStep s.spec.rule s.spec.quorum (stepVoters env (castVote env v tokenId r) s.id)
  return match result.outcome with
    | some outcome => closeStep env s outcome .votes (castVote env v tokenId r)
    | none => castVote env v tokenId r

def decide (env : Env) (args : DecideArgs) (r : Request) : Except Failure Request := do
  let text := args.comment.map fun c ↦ replaceNonBmp (stripped c)
  require ((text.getD "").length ≤ 2000)
    (refuse "comment_too_long" 422 (some "at most 2000 characters"))
  require env.subjectAvailable (refuse "subject_unavailable" 409)
  require (r.status = .pending) (refuse "approval_closed" 409)
  match args.actor with
  | none => throw (refuse "not_an_approver" 403)
  | some principal =>
    let key := env.directory.canonicalPrincipal principal
    let row ← pickApprover env r principal key args.approverId
    match r.steps.find? fun s ↦ s.id = row.stepId with
    | none => throw (.value "step of the approver row")
    | some s =>
      require (key ∉ excludedKeys env r ∧
          (row.principal ≠ key → row.principal ∉ excludedKeys env r))
        (refuse "self_approval_forbidden" 403)
      checkCustomerApprover env principal
      require (args.channel = .email → s.spec.allowEmail)
        (refuse "forbidden" 403 (some "this step does not accept decisions by e-mail"))
      applyVote env s (newVote env row key args.decision args.channel (text.filter (· ≠ "")) r)
        args.tokenId r

def votersInStep (r : Request) (stepId : ℕ) : List Principal :=
  (r.votes.filter fun v ↦ v.stepId = stepId).map (·.decidedBy)

/-- The row goes to another agent: a new row of the same step, decisive like the old one. -/
def handOver (env : Env) (row : Approver) (target : Principal) (r : Request) : Request :=
  (((r.addApprover row.stepId ⟨target, .forward row.id⟩ env.now).setApprover r.nextApprover
    fun a ↦ { a with decisive := row.decisive }).setApprover row.id
      fun a ↦ { a with status := .forwarded }).revokeLinks [row.id] none env.now

def forward (env : Env) (actor : Actor) (approverId toUserId : ℕ) (r : Request) :
    Except Failure Request :=
  match actor with
  | none | some (.customer _) => .error (refuse "forbidden" 403)
  | some (.agent me) => do
    require env.subjectAvailable (refuse "subject_unavailable" 409)
    require (r.status = .pending) (refuse "approval_closed" 409)
    match r.approvers.find? fun a ↦ a.id = approverId with
    | none => throw (refuse "not_an_approver" 403)
    | some row =>
      require (row.principal = .agent me) (refuse "not_an_approver" 403)
      require (row.status ≠ .approved ∧ row.status ≠ .rejected ∧ row.status ≠ .forwarded)
        (refuse "already_decided" 409)
      match r.steps.find? fun s ↦ s.id = row.stepId with
      | none => throw (.value "step of the approver row")
      | some s =>
        require (row.status = .pending ∧ s.status = .active) (refuse "step_not_active" 409)
        require (!row.source.isForward ∧ s.spec.allowDelegation)
          (refuse "forward_not_allowed" 409)
        require (toUserId ≠ me ∧ toUserId ≠ 1)
          (refuse "forward_target_invalid" 422 (some "choose another agent"))
        require (env.directory.agentValid toUserId = some 1)
          (refuse "forward_target_invalid" 422 (some "the agent is not valid"))
        require (.agent toUserId ∉ excludedKeys env r) (refuse "self_approval_forbidden" 403)
        require (∀ a ∈ r.approvers, a.stepId = s.id → a.principal ≠ .agent toUserId)
          (refuse "forward_target_invalid" 422 (some "the agent is already an approver"))
        require (.agent toUserId ∉ votersInStep r s.id)
          (refuse "forward_target_invalid" 422 (some "the agent already voted in this step"))
        return handOver env row (.agent toUserId) r

end Tiqora.Approvals
