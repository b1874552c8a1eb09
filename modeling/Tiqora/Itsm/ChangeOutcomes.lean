import Tiqora.Foundation.Machine
import Tiqora.Itsm.ChangeTransitions

namespace Tiqora.Itsm.Change

open Foundation Approvals

def systemUserId : ℕ := 1

/-- The final statuses that the outcome hook delivers. -/
inductive OutcomeStatus
  | approved | rejected | cancelled
  deriving DecidableEq

def OutcomeStatus.toApproval : OutcomeStatus → ApprovalStatus
  | .approved => .approved
  | .rejected => .rejected
  | .cancelled => .cancelled

/-- The sets whose outcome has been handled. -/
def EventDetail.outcomeOf : EventDetail → Option ℕ
  | .approvalOutcome id _ _ _ _ => some id
  | _ => none

def outcomeIds (events : List ChangeEvent) : List ℕ := events.filterMap fun e ↦ e.detail.outcomeOf

def systemTarget (row : ChangeRow) (status : OutcomeStatus) : Option ChangePhase :=
  if row.phase = .approval then
    match status with
    | .approved => some .scheduled
    | .rejected => some .rejected
    | .cancelled => some (if row.plan.changeType = .normal then .assessment else .draft)
  else if row.phase = .implementing ∧ status = .rejected then some .review
  else none

def systemContext (row : ChangeRow) (target : ChangePhase) : GuardContext where
  changeType := row.plan.changeType
  phase := row.phase
  target := target
  isManager := false
  hasWindow := hasWindow row
  plansComplete := true
  questionnaireComplete := true
  impactComputed := true
  blockConflicts := 0
  overrideReason := none
  openTasks := 0
  force := false
  outcome := none
  pirNotesPresent := true
  approvalPending := false
  approvalRejected := false
  cabChosen := true
  processTicket := false

/-- A call of the outcome hook. -/
structure OutcomeCall where
  approvalId : ℕ
  round : ℕ
  status : OutcomeStatus
  reason : Option Reason
  now : ℕ

/-- The outcome is for the current set, which the change still waits for. -/
def awaits (s : ChangeState) (call : OutcomeCall) : Bool :=
  s.row.approvalId = some call.approvalId && s.row.approvalRound = call.round &&
    (s.row.phase = .approval ||
      (s.row.approvalVia = some .post &&
        (s.row.phase = .implementing || s.row.phase = .review))) &&
    !(s.row.phase = .approval && call.status = .cancelled && call.reason = some .superseded) &&
    call.approvalId ∉ outcomeIds s.events

def outcomeRecorded (s : ChangeState) (call : OutcomeCall) : ChangeState :=
  s.record systemUserId
    (.approvalOutcome call.approvalId call.round call.status.toApproval none call.reason)

def outcomeApproved (s : ChangeState) (call : OutcomeCall) : ChangeState :=
  if call.status = .approved then
    s.approve (s.row.approvalVia.getD .cab) call.approvalId call.now
  else s

/-- The system path: whether something changed, and the change after it. -/
def onApprovalOutcome (s : ChangeState) (call : OutcomeCall) : ChangeState × Bool :=
  if awaits s call = false then (s, false)
  else
    let approved := outcomeApproved s call
    match systemTarget s.row call.status with
    | none => (outcomeRecorded approved call, true)
    | some target =>
      if checkTransition (systemContext s.row target) true ≠ [] then (s, false)
      else
        let recorded := outcomeRecorded (approved.enter target none call.now systemUserId) call
        let forced :=
          if s.row.phase = .implementing then
            recorded.record systemUserId (.forcedByRejection call.approvalId)
          else recorded
        (forced.record systemUserId (.phase (some s.row.phase) target none), true)

/-- The body of a change request; `cabId` tells an omitted field from no CAB. -/
structure ChangeUpdateIn where
  changeType : Option ChangeType
  reason : Option Text
  implementationPlan : Option Text
  backoutPlan : Option Text
  testPlan : Option Text
  plannedStart : Option ℕ
  plannedEnd : Option ℕ
  clearWindow : Bool
  services : Option (List ℕ)
  cabId : Option (Option ℕ)
  portalVisible : Option Bool

/-- What an update reads outside the change row. -/
structure UpdateCall where
  userId : ℕ
  now : ℕ
  denied : Option ChangeError
  template : ℕ → Option Template
  ticketService : Option ℕ
  serviceExists : ℕ → Bool
  cabValid : ℕ → Bool

/-- The edited columns and the fields that changed. -/
abbrev Edit := ChangePlan × List Field

def lockedInApproval (row : ChangeRow) (field : Field) : Option ChangeError :=
  if row.phase = .approval then
    some { code := .changeLockedInApproval, status := 409, field := some field }
  else none

/-- One column: what it would become, and the first objection to that. -/
def editField (field : Field) (changes : Bool) (objection : Option ChangeError)
    (set : ChangePlan → ChangePlan) (edit : Edit) : Except ChangeError Edit :=
  if changes then
    match objection with
    | some e => .error e
    | none => .ok (set edit.1, edit.2 ++ [field])
  else .ok edit

def typeObjection (row : ChangeRow) (call : UpdateCall) (changeType : ChangeType) :
    Option ChangeError :=
  let used := row.templateId.bind call.template
  (lockedInApproval row .changeType).or
    (if row.phase ≠ .draft then some { code := .changeTypeLocked, status := 409 }
    else if used.any fun t ↦ t.changeType ≠ changeType then
      some { code := .templateTypeMismatch, status := 422 }
    else if changeType ≠ .standard then none
    else if row.templateId.isSome ∧ (used.filter (·.valid)).isNone then
      some { code := .templateNotFound, status := 422 }
    else if used.any (·.isStandard) then none
    else some { code := .standardNeedsTemplate, status := 422 })

def editType (row : ChangeRow) (data : ChangeUpdateIn) (call : UpdateCall) (edit : Edit) :
    Except ChangeError Edit :=
  match data.changeType with
  | none => .ok edit
  | some changeType =>
    editField .changeType (changeType ≠ row.plan.changeType) (typeObjection row call changeType)
      (fun p ↦ { p with changeType }) edit

/-- A text column; the plans are frozen while the CAB decides. -/
def editText (row : ChangeRow) (field : Field) (frozen : Bool) (value old : Option Text)
    (set : Option Text → ChangePlan → ChangePlan) (edit : Edit) : Except ChangeError Edit :=
  editField field (value.isSome && clean value ≠ old)
    (if frozen then lockedInApproval row field else none) (set (clean value)) edit

def editReason (row : ChangeRow) (data : ChangeUpdateIn) : Edit → Except ChangeError Edit :=
  editText row .reason false data.reason row.plan.reason fun v p ↦ { p with reason := v }

def editImplementationPlan (row : ChangeRow) (data : ChangeUpdateIn) :
    Edit → Except ChangeError Edit :=
  editText row .implementationPlan true data.implementationPlan row.plan.implementationPlan
    fun v p ↦ { p with implementationPlan := v }

def editBackoutPlan (row : ChangeRow) (data : ChangeUpdateIn) : Edit → Except ChangeError Edit :=
  editText row .backoutPlan true data.backoutPlan row.plan.backoutPlan
    fun v p ↦ { p with backoutPlan := v }

def editTestPlan (row : ChangeRow) (data : ChangeUpdateIn) : Edit → Except ChangeError Edit :=
  editText row .testPlan true data.testPlan row.plan.testPlan fun v p ↦ { p with testPlan := v }

def editWindow (row : ChangeRow) (data : ChangeUpdateIn) (edit : Edit) :
    Except ChangeError Edit :=
  let start := if data.clearWindow then none else data.plannedStart.or row.plan.plannedStart
  let finish := if data.clearWindow then none else data.plannedEnd.or row.plan.plannedEnd
  if start.any fun s ↦ finish.any fun f ↦ f ≤ s then
    .error { code := .windowInvalid, status := 422 }
  else
    editField .window ((start, finish) ≠ (row.plan.plannedStart, row.plan.plannedEnd))
      (lockedInApproval row .window)
      (fun p ↦ { p with plannedStart := start, plannedEnd := finish }) edit

def editServices (row : ChangeRow) (data : ChangeUpdateIn) (call : UpdateCall) (edit : Edit) :
    Except ChangeError Edit :=
  match data.services with
  | none => .ok edit
  | some ids =>
    let wanted := (sortedSet ids).filter fun i ↦ some i ≠ call.ticketService
    if wanted.all call.serviceExists then
      editField .services (wanted ≠ sortedSet row.plan.services) none
        (fun p ↦ { p with services := wanted }) edit
    else .error { code := .serviceNotFound, status := 422 }

def editCab (row : ChangeRow) (data : ChangeUpdateIn) (call : UpdateCall) (edit : Edit) :
    Except ChangeError Edit :=
  match data.cabId with
  | none => .ok edit
  | some cabId =>
    editField .cabId (cabId ≠ row.plan.cabId)
      ((lockedInApproval row .cabId).or
        (if cabId.all call.cabValid then none else some { code := .cabNotFound, status := 422 }))
      (fun p ↦ { p with cabId }) edit

def editPortal (row : ChangeRow) (data : ChangeUpdateIn) (edit : Edit) : Except ChangeError Edit :=
  match data.portalVisible with
  | none => .ok edit
  | some portalVisible =>
    editField .portalVisible (portalVisible ≠ row.plan.portalVisible) none
      (fun p ↦ { p with portalVisible }) edit

def editPlan (row : ChangeRow) (data : ChangeUpdateIn) (call : UpdateCall) :
    Except ChangeError Edit := do
  let edit ← editType row data call (row.plan, [])
  let edit ← editReason row data edit
  let edit ← editImplementationPlan row data edit
  let edit ← editBackoutPlan row data edit
  let edit ← editTestPlan row data edit
  let edit ← editWindow row data edit
  let edit ← editServices row data call edit
  let edit ← editCab row data call edit
  editPortal row data edit

def updateChange (s : ChangeState) (data : ChangeUpdateIn) (call : UpdateCall) :
    Except ChangeError ChangeState :=
  match call.denied with
  | some e => .error e
  | none =>
    if s.row.phase.final then .error { code := .changeFinal, status := 409 }
    else (editPlan s.row data call).map fun (plan, changed) ↦
      if changed = [] then s
      else ChangeState.record
        { s with row := { s.row with plan, updatedAt := call.now, updatedBy := call.userId } }
        call.userId (.updated changed)

/-- The record of a new change: `created` by `create_change`, `adopted` by `adopt_ticket`. -/
def newChangeState (plan : ChangePlan) (templateId : Option ℕ) (engine : Engine)
    (created : EventDetail) (now userId : ℕ) : ChangeState where
  row :=
    { plan, templateId, phase := .draft, outcome := none, pirNotes := none, actualStart := none
      actualEnd := none, approvalId := none, approvalRound := 0, approvalVia := none
      approvedAt := none, updatedAt := now, updatedBy := userId }
  events := [⟨userId, created⟩, ⟨userId, .phase none .draft none⟩]
  engine := engine
  approvedBy := none
  drafts := 1

/-- `create_change` after its checks of the request: a standard change needs a standard template,
and a template its own change type. -/
def createChange (plan : ChangePlan) (template : Option (ℕ × Template)) (engine : Engine)
    (now userId : ℕ) : Except ChangeError ChangeState :=
  if plan.changeType = .standard ∧ (template.all fun t ↦ !t.2.isStandard) = true then
    .error { code := .standardNeedsTemplate, status := 422 }
  else if template.any fun t ↦ t.2.changeType ≠ plan.changeType then
    .error { code := .templateTypeMismatch, status := 422 }
  else .ok (newChangeState plan (template.map (·.1)) engine (.created plan.changeType) now userId)

def adoptTicket (changeType : ChangeType) (services : List ℕ) (engine : Engine) (now userId : ℕ) :
    ChangeState :=
  newChangeState
    { changeType, reason := none, implementationPlan := none, backoutPlan := none
      testPlan := none, plannedStart := none, plannedEnd := none, services, cabId := none
      portalVisible := false }
    none engine (.adopted changeType) now userId

inductive EngineStep
  | decide (approvalId : ℕ) (status : OutcomeStatus) (reason : Option Reason)
  | erase (approvalId : ℕ)
  | createOther (set : ApprovalSet)

def Engine.next (e : Engine) : EngineStep → Engine
  | .decide id status reason => e.settle id status.toApproval reason
  | .erase id => e.erase id
  | .createOther set => e.create set

inductive ChangeAction
  | transition (data : TransitionIn) (call : Call)
  | update (data : ChangeUpdateIn) (call : UpdateCall)
  | outcome (call : OutcomeCall)
  | engine (step : EngineStep)

/-- A call that fails leaves the change as it is. -/
def ChangeState.next (cfg : ChangeSettings) (s : ChangeState) : ChangeAction → ChangeState
  | .transition data call => (transition cfg s data call).toOption.getD s
  | .update data call => (updateChange s data call).toOption.getD s
  | .outcome call => (onApprovalOutcome s call).1
  | .engine step => { s with engine := s.engine.next step }

def changeMachine (cfg : ChangeSettings) : Machine ChangeState ChangeAction where
  init s :=
    (∃ plan template engine now userId, createChange plan template engine now userId = .ok s) ∨
      ∃ changeType services engine now userId,
        adoptTicket changeType services engine now userId = s
  step s a t := s.next cfg a = t

end Tiqora.Itsm.Change
