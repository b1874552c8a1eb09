import Tiqora.Foundation.Text

namespace Tiqora.Itsm.Change

open Foundation

inductive ChangePhase
  | draft | submitted | assessment | approval | scheduled | implementing | review | closed
  | rejected | cancelled
  deriving DecidableEq

inductive ChangeType
  | standard | normal | emergency
  deriving DecidableEq

inductive Outcome
  | successful | failed | backedOut
  deriving DecidableEq

abbrev Pair := ChangePhase × ChangePhase

instance : LawfulBEq Pair := inferInstance

/-- `FINAL_PHASES`; the other phases are `REOPENABLE_PHASES`. -/
def ChangePhase.final (p : ChangePhase) : Bool := p = .closed || p = .cancelled

/-- The change types that may take a step; none if the step does not exist. -/
def transitions : Pair → List ChangeType
  | (.draft, .submitted) => [.normal]
  | (.draft, .scheduled) => [.standard]
  | (.draft, .approval) => [.emergency]
  | (.draft, .implementing) => [.emergency]
  | (.submitted, .assessment) => [.normal]
  | (.submitted, .draft) => [.normal]
  | (.assessment, .approval) => [.normal]
  | (.assessment, .scheduled) => [.normal]
  | (.approval, .scheduled) => [.normal, .emergency]
  | (.approval, .rejected) => [.normal, .emergency]
  | (.approval, .assessment) => [.normal]
  | (.approval, .draft) => [.emergency]
  | (.rejected, .draft) => [.normal, .emergency]
  | (.scheduled, .implementing) => [.standard, .normal, .emergency]
  | (.scheduled, .draft) => [.standard, .normal, .emergency]
  | (.implementing, .review) => [.normal, .emergency, .standard]
  | (.implementing, .closed) => [.standard]
  | (.review, .closed) => [.standard, .normal, .emergency]
  | (.draft, .cancelled) => [.standard, .normal, .emergency]
  | (.submitted, .cancelled) => [.standard, .normal, .emergency]
  | (.assessment, .cancelled) => [.standard, .normal, .emergency]
  | (.approval, .cancelled) => [.standard, .normal, .emergency]
  | (.scheduled, .cancelled) => [.standard, .normal, .emergency]
  | (.rejected, .cancelled) => [.standard, .normal, .emergency]
  | _ => []

def systemOnly : List Pair :=
  [(.approval, .scheduled), (.approval, .rejected), (.approval, .assessment), (.approval, .draft)]

def systemAlso : Pair → List ChangeType
  | (.implementing, .review) => [.emergency]
  | _ => []

structure GuardContext where
  changeType : ChangeType
  phase : ChangePhase
  target : ChangePhase
  isManager : Bool
  hasWindow : Bool
  plansComplete : Bool
  questionnaireComplete : Bool
  impactComputed : Bool
  blockConflicts : ℕ
  overrideReason : Option (List Char)
  openTasks : ℕ
  force : Bool
  outcome : Option Outcome
  pirNotesPresent : Bool
  approvalPending : Bool
  approvalRejected : Bool
  cabChosen : Bool
  processTicket : Bool
  emergencyPostApproval : Bool := false
  standardRequiresReview : Bool := false
  approvalCancelled : Bool := false
  forceApproval : Bool := false
  autoLowRisk : Bool := false

inductive GuardCode
  | windowMissing | plansMissing | questionnaireIncomplete | impactPending | blockConflict
  | tasksOpen | outcomeMissing | pirMissing | approvalPending | cabMissing | transitionNotAllowed
  | systemOnly | processTicket | autoApprovalNotEligible | cabEmpty | reasonMissing
  deriving DecidableEq

structure GuardFailure where
  code : GuardCode
  overridable : Bool := false
  deriving DecidableEq

namespace GuardContext

variable (ctx : GuardContext)

def pair : Pair := (ctx.phase, ctx.target)

def pairAllowed (system : Bool) : Bool :=
  ctx.changeType ∈ transitions ctx.pair &&
    !(system && ctx.pair ∉ systemOnly && ctx.changeType ∉ systemAlso ctx.pair) &&
    !(ctx.pair = (.draft, .implementing) && !ctx.emergencyPostApproval) &&
    !(ctx.changeType = .standard && ctx.pair = (.implementing, .review) &&
      !ctx.standardRequiresReview) &&
    !(ctx.changeType = .standard && ctx.pair = (.implementing, .closed) &&
      ctx.standardRequiresReview)

def windowFailures : List GuardFailure :=
  if ctx.target = .approval ∨ ctx.target = .scheduled ∨ ctx.target = .implementing then
    (if ctx.hasWindow then [] else [{ code := .windowMissing }]) ++
      if 0 < ctx.blockConflicts then
        let auto := decide (ctx.pair = (.assessment, .scheduled))
        if auto || !(ctx.isManager && strip (ctx.overrideReason.getD []) ≠ []) then
          [{ code := .blockConflict, overridable := !auto }]
        else []
      else []
  else []

def planFailures : List GuardFailure :=
  (if ctx.pair = (.assessment, .scheduled) ∧ ctx.autoLowRisk = false then
    [{ code := .autoApprovalNotEligible }] else []) ++
  (if (ctx.changeType = .normal ∨ ctx.changeType = .emergency) ∧
      (ctx.pair = (.assessment, .approval) ∨ ctx.pair = (.assessment, .scheduled) ∨
        ctx.pair = (.draft, .approval)) ∧ ctx.plansComplete = false then
    [{ code := .plansMissing }] else []) ++
  if ctx.changeType = .normal ∧
      (ctx.pair = (.assessment, .approval) ∨ ctx.pair = (.assessment, .scheduled)) then
    (if ctx.questionnaireComplete then [] else [{ code := .questionnaireIncomplete }]) ++
      if ctx.impactComputed then [] else [{ code := .impactPending }]
  else []

def stepFailures : List GuardFailure :=
  (if ctx.target = .approval ∧ ctx.cabChosen = false then [{ code := .cabMissing }] else []) ++
  if (ctx.pair = (.implementing, .review) ∨ ctx.pair = (.implementing, .closed)) ∧
      0 < ctx.openTasks ∧ ¬(ctx.isManager = true ∧ ctx.force = true) then
    [{ code := .tasksOpen, overridable := true }] else []

/-- Only a cancelled approval may be forced past; a decision still pending never. -/
def closeFailures : List GuardFailure :=
  if ctx.target = .closed then
    (if ctx.outcome = none then [{ code := .outcomeMissing }] else []) ++
    (if ctx.pair = (.review, .closed) ∧ ctx.changeType ≠ .standard ∧
        ctx.pirNotesPresent = false then
      [{ code := .pirMissing }] else []) ++
    (if ctx.approvalPending = true ∧
        ¬(ctx.isManager = true ∧ ctx.forceApproval = true ∧ ctx.approvalCancelled = true) then
      [{ code := .approvalPending, overridable := ctx.approvalCancelled }] else []) ++
    if ctx.approvalRejected = true ∧ ctx.outcome = some .successful then
      [{ code := .transitionNotAllowed }] else []
  else []

/-- A change whose ticket became a process ticket may only be cancelled, by a manager. -/
def processFailures (system : Bool) : List GuardFailure :=
  if ctx.target = .cancelled ∧ ctx.isManager = true ∧ system = false then
    if ctx.phase.final then [{ code := .transitionNotAllowed }] else []
  else [{ code := .processTicket }]

end GuardContext

/-- Every guard failure of a step; none means that it is allowed. -/
def checkTransition (ctx : GuardContext) (system : Bool) : List GuardFailure :=
  if ctx.processTicket then ctx.processFailures system
  else if !ctx.pairAllowed system then [{ code := .transitionNotAllowed }]
  else if !system && ctx.pair ∈ systemOnly then [{ code := .systemOnly }]
  else if system then []
  else ctx.windowFailures ++ ctx.planFailures ++ ctx.stepFailures ++ ctx.closeFailures

def allPhases : List ChangePhase :=
  [.draft, .submitted, .assessment, .approval, .scheduled, .implementing, .review, .closed,
    .rejected, .cancelled]

/-- The targets a person may be offered, preconditions aside. -/
def allowedTargets (phase : ChangePhase) (changeType : ChangeType)
    (emergencyPostApproval standardRequiresReview autoApproveLowRisk : Bool) : List ChangePhase :=
  allPhases.filter fun target ↦
    (phase, target) ∉ systemOnly &&
      !((phase, target) = (.assessment, .scheduled) && !autoApproveLowRisk) &&
      GuardContext.pairAllowed
        { changeType, phase, target, isManager := false, hasWindow := true, plansComplete := true,
          questionnaireComplete := true, impactComputed := true, blockConflicts := 0,
          overrideReason := none, openTasks := 0, force := false, outcome := none,
          pirNotesPresent := true, approvalPending := false, approvalRejected := false,
          cabChosen := true, processTicket := false, emergencyPostApproval,
          standardRequiresReview } false

variable {ctx : GuardContext}

theorem final_no_transition {p q : ChangePhase} (h : p.final = true) : transitions (p, q) = [] := by
  cases p with
  | closed | cancelled => cases q <;> rfl
  | _ => cases h

theorem no_self_transition (p : ChangePhase) : transitions (p, p) = [] := by
  cases p <;> rfl

/-- What a person's step needs, whatever the other guards say. -/
theorem checkTransition_person (h : checkTransition ctx false = []) :
    (ctx.target = .cancelled ∧ ctx.phase.final = false) ∨
      ctx.processTicket = false ∧ ctx.changeType ∈ transitions ctx.pair ∧ ctx.pair ∉ systemOnly ∧
        ctx.closeFailures = [] := by
  rw [checkTransition] at h
  split at h
  · rw [GuardContext.processFailures] at h
    split at h
    · rename_i hto
      split at h
      · cases h
      · exact .inl ⟨hto.1, Bool.eq_false_iff.2 ‹_›⟩
    · cases h
  · rename_i hprocess
    split at h
    · cases h
    · rename_i hallowed
      split at h
      · cases h
      · rename_i hsystem
        rw [Bool.not_eq_true', Bool.not_eq_false] at hallowed
        simp only [GuardContext.pairAllowed, Bool.and_eq_true, decide_eq_true_eq] at hallowed
        simp only [Bool.not_false, Bool.true_and, decide_eq_true_eq] at hsystem
        rw [if_neg Bool.false_ne_true] at h
        exact .inr ⟨Bool.eq_false_iff.2 hprocess, hallowed.1.1.1.1, hsystem,
          (List.append_eq_nil_iff.1 h).2⟩

theorem closeFailures_nil (h : ctx.closeFailures = []) (hto : ctx.target = .closed) :
    (ctx.approvalPending = true → ctx.isManager = true ∧ ctx.forceApproval = true ∧
      ctx.approvalCancelled = true) ∧
        ¬(ctx.approvalRejected = true ∧ ctx.outcome = some .successful) := by
  rw [GuardContext.closeFailures, if_pos hto, List.append_eq_nil_iff, List.append_eq_nil_iff] at h
  obtain ⟨⟨-, hpending⟩, hrejected⟩ := h
  constructor
  · intro hp
    by_contra hforced
    rw [if_pos ⟨hp, hforced⟩] at hpending
    cases hpending
  · intro hr
    rw [if_pos hr] at hrejected
    cases hrejected

end Tiqora.Itsm.Change
