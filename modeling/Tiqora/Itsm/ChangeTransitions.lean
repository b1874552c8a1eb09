import Mathlib
import Tiqora.Approvals.Contract
import Tiqora.Foundation.Tables
import Tiqora.Itsm.ChangePhases

namespace Tiqora.Itsm.Change

open Foundation Approvals

abbrev Text := List Char

/-- `replace_non_bmp`, then stripped; an empty text is none. -/
def clean (value : Option Text) : Option Text :=
  let text := strip ((value.getD []).map fun c ↦ if c.toNat ≤ 0xFFFF then c else '\uFFFD')
  if text = [] then none else some text

structure ChangeSettings where
  defaultCabId : ℕ
  emergencyCabId : ℕ
  emergencyPostApproval : Bool
  autoApproveLowRisk : Bool
  standardRequiresReview : Bool
  approvalDueHours : ℕ
  approvalTimeout : OnTimeout
  cabAllowSelfApproval : Bool
  stateOpen : String
  stateClosedSuccessful : String
  stateClosedFailed : String
  stateClosedCancelled : String
  timeout_kind : approvalTimeout = .notify ∨ approvalTimeout = .reject

inductive Via
  | cab | post | template | risk
  deriving DecidableEq

/-- The columns that `update_change` edits. -/
structure ChangePlan where
  changeType : ChangeType
  reason : Option Text
  implementationPlan : Option Text
  backoutPlan : Option Text
  testPlan : Option Text
  plannedStart : Option ℕ
  plannedEnd : Option ℕ
  services : List ℕ
  cabId : Option ℕ
  portalVisible : Bool
  deriving DecidableEq

structure ChangeRow where
  plan : ChangePlan
  templateId : Option ℕ
  phase : ChangePhase
  outcome : Option Outcome
  pirNotes : Option Text
  actualStart : Option ℕ
  actualEnd : Option ℕ
  approvalId : Option ℕ
  approvalRound : ℕ
  approvalVia : Option Via
  approvedAt : Option ℕ
  updatedAt : ℕ
  updatedBy : ℕ
  deriving DecidableEq

inductive Field
  | changeType | reason | implementationPlan | backoutPlan | testPlan | window | services | cabId
  | portalVisible
  deriving DecidableEq

/-- A timeline row; the constructor is its `event`. -/
inductive EventDetail
  | created (changeType : ChangeType)
  | adopted (changeType : ChangeType)
  | phase (fromPhase : Option ChangePhase) (toPhase : ChangePhase) (reason : Option Text)
  | conflictOverride (blockConflicts : ℕ) (reason : Option Text)
  | forced (openTasks : Option ℕ) (approvalCancelled : Bool) (reason : Option Text)
  | forcedByRejection (approvalId : ℕ)
  | approvalRequested (approvalId cabEntries cabId round : ℕ)
  | approvalOutcome (approvalId round : ℕ) (status : ApprovalStatus) (via : Option Via)
    (reason : Option Reason)
  | updated (fields : List Field)
  deriving DecidableEq

structure ChangeEvent where
  createdBy : ℕ
  detail : EventDetail
  deriving DecidableEq

structure ApprovalSet where
  round : ℕ
  status : ApprovalStatus
  reason : Option Reason
  deriving DecidableEq

/-- The sets of the approval engine; an id is handed out once. -/
structure Engine where
  sets : Table ℕ ApprovalSet
  nextId : ℕ
  issued : ∀ r ∈ sets.rows, r.1 < nextId
  deriving DecidableEq

namespace Engine

def create (e : Engine) (new : ApprovalSet) : Engine where
  sets := e.sets.set e.nextId (some new)
  nextId := e.nextId + 1
  issued := by
    rintro ⟨id, set⟩ hr
    rcases Table.mem_set.1 hr with ⟨hr, -⟩ | ⟨rfl, -⟩
    · exact Nat.lt_succ_of_lt (e.issued _ hr)
    · exact Nat.lt_succ_self _

/-- A pending set is settled; one that is decided stays as it is. -/
def settle (e : Engine) (id : ℕ) (status : ApprovalStatus) (reason : Option Reason) : Engine where
  sets := e.sets.update fun id' set ↦
    if id' = id ∧ set.status = .pending then { set with status, reason } else set
  nextId := e.nextId
  issued := by
    rintro ⟨id', set⟩ hr
    obtain ⟨old, hr, -⟩ := Table.mem_update.1 hr
    exact e.issued (id', old) hr

def erase (e : Engine) (id : ℕ) : Engine where
  sets := e.sets.set id none
  nextId := e.nextId
  issued := by
    rintro ⟨id', set⟩ hr
    rcases Table.mem_set.1 hr with ⟨hr, -⟩ | ⟨-, heq⟩
    · exact e.issued _ hr
    · cases heq

end Engine

/-- Where an `approved_at` comes from: the set and the round it was given for, and how often the
change had entered the draft phase by then. -/
structure Provenance where
  via : Via
  approvalId : ℕ
  round : ℕ
  drafts : ℕ
  deriving DecidableEq

structure ChangeState where
  row : ChangeRow
  events : List ChangeEvent
  engine : Engine
  approvedBy : Option Provenance
  drafts : ℕ
  deriving DecidableEq

inductive ErrorCode
  | changeNotFound | forbidden | changeFinal | standardTemplateInvalid | transitionRefused
  | changeStateNotFound | cabInvalid | approvalRequestFailed | vetoed | invalidInput
  | changeLockedInApproval | changeTypeLocked | templateTypeMismatch | templateNotFound
  | standardNeedsTemplate | windowInvalid | serviceNotFound | cabNotFound
  deriving DecidableEq

structure ChangeError where
  code : ErrorCode
  status : ℕ
  failures : List GuardFailure := []
  field : Option Field := none
  state : Option String := none
  deriving DecidableEq

structure Cab where
  id : ℕ
  name : String
  rule : Rule
  quorum : Option ℕ
  members : List ApproverEntry
  valid : Bool
  deriving DecidableEq

structure Template where
  changeType : ChangeType
  isStandard : Bool
  valid : Bool
  deriving DecidableEq

structure Conflict where
  block : Bool
  unverified : Bool
  deriving DecidableEq

structure RiskEvaluation where
  effectiveLow : Bool
  blocked : Bool
  incomplete : Bool

/-- What a call reads and gets back outside the change row. -/
structure Call where
  userId : ℕ
  now : ℕ
  denied : Option ChangeError
  manager : Bool
  process : Bool
  template : ℕ → Option Template
  cab : ℕ → Option Cab
  conflicts : List Conflict
  risk : RiskEvaluation
  openTasks : ℕ
  questionnaireComplete : Bool
  impactCurrent : Bool
  ticketState : String
  ticketStateNew : Bool
  stateId : String → Option ℕ
  request : ApprovalDefinition → Except ChangeError ApprovalStatus
  autoDecision : Option ChangeError
  ticketRefused : Option ChangeError

structure TransitionIn where
  target : ChangePhase
  reason : Option Text
  overrideReason : Option Text
  force : Bool
  outcome : Option Outcome
  pirNotes : Option Text
  pir_only : pirNotes.isSome → target = .review ∨ target = .closed

def effectiveCabId (row : ChangeRow) (cfg : ChangeSettings) : Option ℕ :=
  match row.plan.cabId with
  | some (id + 1) => some (id + 1)
  | _ =>
    if row.plan.changeType = .emergency ∧ cfg.emergencyCabId ≠ 0 then some cfg.emergencyCabId
    else if cfg.defaultCabId = 0 then none else some cfg.defaultCabId

def effectiveCab (row : ChangeRow) (cfg : ChangeSettings) (call : Call) : Option Cab :=
  ((effectiveCabId row cfg).bind call.cab).filter (·.valid)

/-- One CAB step in the engine's vocabulary; none if the engine would refuse it. -/
def definition (cab : Cab) (cfg : ChangeSettings) : Option ApprovalDefinition :=
  if h : (cab.rule = .quorum → (cab.quorum.any fun q ↦ 1 ≤ q && q ≤ 100) = true) ∧
      1 ≤ cab.members.length ∧ cab.members.length ≤ 50 then
    some
      { steps := [{
          name := cab.name
          stage := 1
          rule := cab.rule
          quorum := if cab.rule = .quorum then cab.quorum else none
          approvers := cab.members
          dueHours := some cfg.approvalDueHours
          onTimeout := cfg.approvalTimeout
          escalation := []
          onNoApprover := .reject
          allowDelegation := true
          allowEmail := true
          quorum_iff := by
            by_cases hr : cab.rule = .quorum
            · rw [if_pos hr]
              obtain ⟨q, hq, -⟩ := (Option.any_eq_true _ _).1 (h.1 hr)
              exact ⟨fun _ ↦ Option.isSome_iff_exists.2 ⟨q, hq⟩, fun _ ↦ hr⟩
            · rw [if_neg hr]
              exact ⟨fun h ↦ absurd h hr, fun h ↦ nomatch h⟩
          escalation_iff := by
            rcases cfg.timeout_kind with h | h <;> rw [h] <;> decide }]
        steps_ne := List.cons_ne_nil _ _ }
  else none

structure PostApproval where
  pending : Bool := false
  rejected : Bool := false
  cancelled : Bool := false

/-- A set that was erased counts as approved if it was handled before, else as cancelled. -/
def postApproval (s : ChangeState) : PostApproval :=
  match s.row.approvalVia, s.row.approvalId with
  | some .post, some id =>
    match s.engine.sets.find id with
    | none => if s.row.approvedAt.isSome then {} else { pending := true, cancelled := true }
    | some set =>
      match set.status with
      | .pending => { pending := true }
      | .cancelled => { pending := true, cancelled := true }
      | .rejected => { rejected := true }
      | .approved => {}
  | _, _ => {}

def standardTemplate (row : ChangeRow) (call : Call) : Bool :=
  (row.templateId.bind call.template).any fun t ↦ t.valid && t.isStandard

def hasWindow (row : ChangeRow) : Bool :=
  match row.plan.plannedStart, row.plan.plannedEnd with
  | some start, some finish => start < finish
  | _, _ => false

def stateSetting (cfg : ChangeSettings) (fromPhase target : ChangePhase)
    (outcome : Option Outcome) (call : Call) : Option String :=
  if target = .closed then
    some (if outcome = some .successful then cfg.stateClosedSuccessful else cfg.stateClosedFailed)
  else if target = .cancelled then some cfg.stateClosedCancelled
  else if fromPhase = .draft ∧ call.ticketStateNew = true then some cfg.stateOpen
  else none

/-- The id of the ticket state to write; none leaves the ticket alone. -/
def ticketStateId (cfg : ChangeSettings) (row : ChangeRow) (data : TransitionIn) (call : Call) :
    Except ChangeError (Option ℕ) :=
  match stateSetting cfg row.phase data.target data.outcome call with
  | none => .ok none
  | some name =>
    if name = call.ticketState then .ok none
    else
      match call.stateId name with
      | some id => .ok (some id)
      | none => .error { code := .changeStateNotFound, status := 409, state := some name }

section Guards

variable (cfg : ChangeSettings) (s : ChangeState) (data : TransitionIn) (call : Call)

def pairOf : Pair := (s.row.phase, data.target)

/-- The facts are read only for a step that exists. -/
def known : Bool :=
  !call.process && pairOf s data ∉ systemOnly &&
    s.row.plan.changeType ∈ transitions (pairOf s data)

def requestsCab : Bool := data.target = .approval || pairOf s data = (.draft, .implementing)

def blockConflicts : ℕ :=
  if known s data call ∧
      (data.target = .approval ∨ data.target = .scheduled ∨ data.target = .implementing) then
    call.conflicts.countP fun c ↦ c.block || c.unverified
  else 0

def autoLowRisk : Bool :=
  known s data call && (data.target = .approval || pairOf s data = (.assessment, .scheduled)) &&
    cfg.autoApproveLowRisk && call.risk.effectiveLow && !call.risk.blocked && !call.risk.incomplete

def openTasks : ℕ :=
  if known s data call ∧ s.row.phase = .implementing then call.openTasks else 0

def closePost : PostApproval :=
  if known s data call ∧ data.target = .closed then postApproval s else {}

def chosenCab : Option Cab :=
  if known s data call ∧ requestsCab s data then effectiveCab s.row cfg call else none

def guardContext : GuardContext where
  changeType := s.row.plan.changeType
  phase := s.row.phase
  target := data.target
  isManager := call.manager
  hasWindow := hasWindow s.row
  plansComplete :=
    (clean s.row.plan.implementationPlan).isSome && (clean s.row.plan.backoutPlan).isSome
  questionnaireComplete :=
    if known s data call ∧ s.row.plan.changeType = .normal ∧ s.row.phase = .assessment then
      call.questionnaireComplete
    else true
  impactComputed := call.impactCurrent
  blockConflicts := blockConflicts s data call
  overrideReason := data.overrideReason
  openTasks := openTasks s data call
  force := data.force
  outcome := data.outcome
  pirNotesPresent := (clean data.pirNotes).isSome || (clean s.row.pirNotes).isSome
  approvalPending := (closePost s data call).pending
  approvalRejected := (closePost s data call).rejected
  cabChosen := (chosenCab cfg s data call).isSome
  processTicket := call.process
  emergencyPostApproval := cfg.emergencyPostApproval
  standardRequiresReview := cfg.standardRequiresReview
  approvalCancelled := (closePost s data call).cancelled
  forceApproval := data.force
  autoLowRisk := autoLowRisk cfg s data call

def structural : List GuardCode := [.transitionNotAllowed, .systemOnly, .processTicket]

def overridden : Bool :=
  call.manager && 0 < blockConflicts s data call && (clean data.overrideReason).isSome &&
    pairOf s data ≠ (.assessment, .scheduled)

def forcedTasks : Bool :=
  call.manager && data.force && 0 < openTasks s data call && s.row.phase = .implementing

def forcedApproval : Bool :=
  call.manager && data.force && data.target = .closed && (closePost s data call).pending &&
    (closePost s data call).cancelled

/-- The guards that the phase machine cannot see. -/
def furtherFailures : List GuardFailure :=
  (if pairOf s data = (.draft, .implementing) ∧ chosenCab cfg s data call = none then
    [{ code := .cabMissing }] else []) ++
  (if (chosenCab cfg s data call).any fun cab ↦ cab.members = [] then
    [{ code := .cabEmpty }] else []) ++
  if (forcedTasks s data call || forcedApproval s data call) ∧ clean data.reason = none then
    [{ code := .reasonMissing }] else []

def refusals : List GuardFailure :=
  let failures := checkTransition (guardContext cfg s data call) false
  if failures.any fun f ↦ f.code ∈ structural then failures
  else failures ++ furtherFailures cfg s data call

end Guards

/-- Phase and the fields that follow it; the next approval after a draft is a new round. -/
def applyPhase (row : ChangeRow) (target : ChangePhase) (outcome : Option Outcome)
    (now userId : ℕ) : ChangeRow :=
  { row with
    phase := target
    actualStart := if target = .implementing then some now else row.actualStart
    actualEnd := if row.phase = .implementing then some now else row.actualEnd
    outcome := if target = .closed then outcome else row.outcome
    approvalVia := if target = .draft then none else row.approvalVia
    approvedAt := if target = .draft then none else row.approvedAt
    updatedAt := now
    updatedBy := userId }

namespace ChangeState

def record (s : ChangeState) (userId : ℕ) (detail : EventDetail) : ChangeState :=
  { s with events := s.events ++ [⟨userId, detail⟩] }

/-- The row in its new phase, and the drafts that it has had. -/
def enter (s : ChangeState) (target : ChangePhase) (outcome : Option Outcome) (now userId : ℕ) :
    ChangeState :=
  { s with
    row := applyPhase s.row target outcome now userId
    approvedBy := if target = .draft then none else s.approvedBy
    drafts := if target = .draft then s.drafts + 1 else s.drafts }

def approve (s : ChangeState) (via : Via) (approvalId now : ℕ) : ChangeState :=
  { s with
    row := { s.row with approvedAt := some now }
    approvedBy := some ⟨via, approvalId, s.row.approvalRound, s.drafts⟩ }

/-- The CAB approval of the next round; an older pending set is superseded. -/
def requested (s : ChangeState) (cab : Cab) (call : Call) (post : Bool)
    (status : ApprovalStatus) : ChangeState :=
  let round := s.row.approvalRound + 1
  let engine := match s.row.approvalId with
    | some old => s.engine.settle old .cancelled (some .superseded)
    | none => s.engine
  record
    { s with
      engine := engine.create ⟨round, status, none⟩
      row := { s.row with
        approvalRound := round
        approvalId := some s.engine.nextId
        approvalVia := some (if post then .post else .cab)
        updatedAt := call.now } }
    call.userId (.approvalRequested s.engine.nextId cab.members.length cab.id round)

/-- `_request`. -/
def requestApproval (s : ChangeState) (cfg : ChangeSettings) (cab : Cab) (call : Call)
    (post : Bool) : Except ChangeError ChangeState :=
  match definition cab cfg with
  | none => .error { code := .cabInvalid, status := 409 }
  | some steps => (call.request steps).map (s.requested cab call post)

/-- An approved trail without a vote. -/
def autoDecided (s : ChangeState) (via : Via) (call : Call) : ChangeState :=
  let round := s.row.approvalRound + 1
  (approve
    { s with
      engine := s.engine.create ⟨round, .approved, some .auto⟩
      row := { s.row with
        approvalRound := round
        approvalId := some s.engine.nextId
        approvalVia := some via } } via s.engine.nextId call.now).record call.userId
    (.approvalOutcome s.engine.nextId round .approved (some via) (some .auto))

/-- `_auto_decide`. -/
def autoDecide (s : ChangeState) (via : Via) (call : Call) : Except ChangeError ChangeState :=
  match call.autoDecision with
  | some e => .error e
  | none => .ok (s.autoDecided via call)

/-- The approval engine comes before any write of the ticket. -/
def approvalStep (s : ChangeState) (cfg : ChangeSettings) (fromPhase : ChangePhase)
    (oldVia : Option Via) (cab : Option Cab) (data : TransitionIn) (call : Call) :
    Except ChangeError ChangeState :=
  if data.target = .approval ∨ (fromPhase, data.target) = (.draft, .implementing) then
    match cab with
    | some cab => s.requestApproval cfg cab call (data.target ≠ .approval)
    | none =>
      .error { code := .transitionRefused, status := 409, failures := [{ code := .cabMissing }] }
  else if (fromPhase, data.target) = (.draft, .scheduled) then s.autoDecide .template call
  else if (fromPhase, data.target) = (.assessment, .scheduled) then s.autoDecide .risk call
  else if data.target = .cancelled ∧ (fromPhase = .approval ∨ oldVia = some .post) then
    match s.row.approvalId with
    | some id => .ok { s with engine := s.engine.settle id .cancelled (some .cancelled) }
    | none => .ok s
  else .ok s

end ChangeState

/-- The events of a person's step that come before the approval engine is asked. -/
def stepEvents (s : ChangeState) (data : TransitionIn) (call : Call)
    (t : ChangeState) : ChangeState :=
  let t := if overridden s data call then
      t.record call.userId
        (.conflictOverride (blockConflicts s data call) (clean data.overrideReason))
    else t
  let t := if forcedTasks s data call || forcedApproval s data call then
      t.record call.userId (.forced
        (if forcedTasks s data call then some (openTasks s data call) else none)
        (forcedApproval s data call) (clean data.reason))
    else t
  t.record call.userId (.phase (some s.row.phase) data.target (clean data.reason))

def notePir (row : ChangeRow) (data : TransitionIn) : ChangeRow :=
  { row with pirNotes := (clean data.pirNotes).or row.pirNotes }

/-- The agent path. An error leaves nothing behind. -/
def transition (cfg : ChangeSettings) (s : ChangeState) (data : TransitionIn) (call : Call) :
    Except ChangeError ChangeState :=
  match call.denied with
  | some e => .error e
  | none =>
    if s.row.phase.final then .error { code := .changeFinal, status := 409 }
    else if known s data call ∧ pairOf s data = (.draft, .scheduled) ∧
        standardTemplate s.row call = false then
      .error { code := .standardTemplateInvalid, status := 422 }
    else
      match refusals cfg s data call with
      | [] =>
        (ticketStateId cfg s.row data call).bind fun stateId ↦
          let entered := s.enter data.target data.outcome call.now call.userId
          let noted := { entered with row := notePir entered.row data }
          ((stepEvents s data call noted).approvalStep cfg s.row.phase s.row.approvalVia
            (chosenCab cfg s data call) data call).bind fun t ↦
              match stateId, call.ticketRefused with
              | some _, some e => .error e
              | _, _ => .ok t
      | failures => .error { code := .transitionRefused, status := 409, failures }

end Tiqora.Itsm.Change
