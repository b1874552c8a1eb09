import Tiqora.Approvals.Service

namespace Tiqora.Approvals

open Foundation

/-- Whether a row may stay: escalation and forward rows may, as may rows whose principal still
qualifies or whose entry names nothing now. -/
def qualifies (resolution : Resolution) (a : Approver) : Bool :=
  match a.source with
  | .escalation _ | .forward _ => true
  | .entry kind ref =>
    resolution.approvers.any (fun x ↦ x.principal = a.principal) ||
      resolution.unresolved.contains ⟨kind, ref⟩

def departed (resolution : Resolution) (stepId : ℕ) (a : Approver) : Bool :=
  a.stepId = stepId ∧ a.status = .pending ∧ !qualifies resolution a

/-- Principals with a row or a vote in the step. -/
def present (r : Request) (stepId : ℕ) : List Principal :=
  (r.approvers.filter fun a ↦ a.stepId = stepId).map (·.principal) ++ votersInStep r stepId

def refreshWith (env : Env) (resolution : Resolution) (stepId : ℕ) (r : Request) : Request :=
  addApprovers env.moment stepId (resolution.approvers.filter fun x ↦ x.principal ∉ present r stepId)
    (r.dismiss (departed resolution stepId) .removed env.now)

/-- Takes out the pending rows of a step that may not stay, and adds the principals that
qualify and have no row in the step yet. -/
def refreshStep (env : Env) (r : Request) (s : ApprovalStep) : Request :=
  refreshWith env (resolveStep env r s.id s.spec.approvers false) s.id r

def Request.activeSteps (r : Request) : List ApprovalStep :=
  r.steps.filter fun s ↦ s.status = .active

def canRefresh (env : Env) (actor : Actor) : Bool :=
  match actor with
  | none => true
  | some (.customer _) => false
  | some (.agent n) => env.mayWrite n

/-- Re-resolves the approvers of every active step and re-evaluates these steps. -/
def refreshApprovers (env : Env) (actor : Actor) (r : Request) : Except Failure Request := do
  require env.subjectAvailable (refuse "subject_unavailable" 409)
  require (canRefresh env actor) (refuse "forbidden" 403)
  require (r.status = .pending) (refuse "approval_closed" 409)
  reevaluateSteps env r.activeSteps (r.activeSteps.foldl (refreshStep env) r)

/-- One escalation approver: a principal who voted in the step or whose row is no longer pending
is left alone, a pending row becomes decisive, and a new one is added decisive. -/
def escalateTo (env : Env) (stepId : ℕ) (r : Request) (x : ResolvedApprover) : Request :=
  if x.principal ∈ votersInStep r stepId then r
  else match (r.approvers.filter fun a ↦ a.stepId = stepId ∧ a.principal = x.principal).getLast? with
    | some a =>
      if a.status = .pending then r.setApprover a.id fun b ↦ { b with decisive := true } else r
    | none =>
      (r.addApprover stepId x env.moment).setApprover r.nextApprover
        fun b ↦ { b with decisive := true }

def escalate (env : Env) (s : ApprovalStep) (r : Request) : Request :=
  (resolveStep env r s.id s.spec.escalation true).approvers.foldl (escalateTo env s.id) r

def markOverdue (env : Env) (stepId : ℕ) (r : Request) : Request :=
  r.setStep stepId fun t ↦ { t with overdueAt := some env.moment }

/-- One step past its deadline: notify, escalate or decide it. `none`: nothing to do. -/
def overdue (env : Env) (stepId : ℕ) (r : Request) : Option Request :=
  match r.steps.find? fun s ↦ s.id = stepId with
  | none => none
  | some s =>
    if s.status ≠ .active ∨ s.overdueAt ≠ none ∨ s.dueAt.all (env.moment < ·) then none
    else match s.spec.onTimeout with
      | .notify => some (markOverdue env stepId r)
      | .escalate => some (escalate env s (markOverdue env stepId r))
      | .reject => some (closeStep env s .rejected .timeout (markOverdue env stepId r))
      | .approve => some (closeStep env s .approved .timeout (markOverdue env stepId r))

/-- Counts a reminder of a step that has somebody to remind. -/
def remind (env : Env) (stepId : ℕ) (r : Request) : Option Request :=
  match r.steps.find? fun s ↦ s.id = stepId with
  | none => none
  | some s =>
    if env.reminderIntervalHours = 0 ∨ s.status ≠ .active ∨ env.reminderMax ≤ s.reminderCount ∨
        (s.lastReminderAt = none ∧ s.activatedAt = none) ∨
        env.moment < max (s.lastReminderAt.getD 0) (s.activatedAt.getD 0) +
          env.reminderIntervalHours * 3600 then none
    else if r.approvers.any fun a ↦ a.stepId = stepId ∧ a.status = .pending then
      some (r.setStep stepId fun t ↦
        { t with lastReminderAt := some env.moment, reminderCount := t.reminderCount + 1 })
    else none

/-- Why a pending row can no longer approve: `removed` for a person who is gone or invalid,
`notNeeded` for a customer whose ticket left the company. -/
def unfit (env : Env) (logins : List String) (p : Principal) : Option ApproverStatus :=
  match p with
  | .agent n => if env.directory.agentValid n = some 1 then none else some .removed
  | .customer login =>
    match env.directory.customerRow logins (env.directory.lower login) with
    | none => some .removed
    | some row =>
      if row.validId ≠ 1 then some .removed
      else if env.directory.admitted logins login then none
      else some .notNeeded

def candidateIn (r : Request) (a : Approver) : Bool :=
  a.status = .pending ∧ r.activeSteps.any fun s ↦ s.id = a.stepId

def candidateLogins (r : Request) : List String :=
  (r.approvers.filter (candidateIn r)).filterMap (·.principal.login)

def gone (env : Env) (r : Request) (status : ApproverStatus) (a : Approver) : Bool :=
  candidateIn r a ∧ unfit env (candidateLogins r) a.principal = some status

def dropped (env : Env) (r : Request) : List Approver :=
  r.approvers.filter fun a ↦ gone env r .removed a ∨ gone env r .notNeeded a

/-- Takes pending approvers out that can no longer approve and re-evaluates their steps. -/
def dropInvalid (env : Env) (r : Request) : Except Failure (Option Request) := do
  if dropped env r = [] then return none
  let left := (r.dismiss (gone env r .removed) .removed env.now).dismiss (gone env r .notNeeded)
    .notNeeded env.now
  return some (← reevaluateSteps env
    (r.activeSteps.filter fun s ↦ (dropped env r).any fun a ↦ a.stepId = s.id) left)

/-- A step active by the last paused tick: its reminders and, unless already reported, its
deadline move. -/
def shiftStep (seen amount : ℕ) (s : ApprovalStep) : ApprovalStep :=
  match s.activatedAt with
  | some activated =>
    if s.status = .active ∧ activated ≤ seen then
      { s with
        lastReminderAt := some (s.lastReminderAt.getD activated + amount)
        dueAt := if s.overdueAt = none then s.dueAt.map (· + amount) else s.dueAt }
    else s
  | none => s

def shiftLink (since seen amount : ℕ) (l : Link) : Link :=
  if l.live ∧ since < l.expiresAt ∧ l.createdAt ≤ seen then
    { l with expiresAt := l.expiresAt + amount }
  else l

/-- Moves the deadlines, reminders and links of an open request by a pause of its type. -/
def shiftTimers (since seen : ℕ) (r : Request) (amount : ℕ) : Request :=
  { r with
    steps := r.steps.map (shiftStep seen amount)
    links := r.links.map (shiftLink since seen amount) }

end Tiqora.Approvals
