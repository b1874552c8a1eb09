import Tiqora.Itsm.ChangeApproved

namespace Tiqora.Itsm.Change

open Foundation Approvals

variable {cfg : ChangeSettings} {s t u : ChangeState}

/-- The sets whose outcome changed the change on the way. -/
def handledIn (cfg : ChangeSettings) : ChangeState → List ChangeAction → List ℕ
  | _, [] => []
  | s, a :: as =>
    (match a with
      | .outcome call => if (onApprovalOutcome s call).1 = s then [] else [call.approvalId]
      | _ => []) ++ handledIn cfg (s.next cfg a) as

def phaseStep (p q : ChangePhase) : List (Option ChangePhase × ChangePhase) :=
  if p = q then [] else [(some p, q)]

/-- The phase changes on the way. -/
def phaseSteps (cfg : ChangeSettings) : ChangeState → List ChangeAction →
    List (Option ChangePhase × ChangePhase)
  | _, [] => []
  | s, a :: as =>
    phaseStep s.row.phase (s.next cfg a).row.phase ++ phaseSteps cfg (s.next cfg a) as

theorem newChangeState_safe (plan : ChangePlan) (templateId : Option ℕ) (engine : Engine)
    {created : EventDetail} (hcreated : created.outcomeOf = none) (now userId : ℕ) :
    ChangeSafe (newChangeState plan templateId engine created now userId) := by
  have hids : outcomeIds [⟨userId, created⟩, ⟨userId, .phase none .draft none⟩] = [] := by
    simp only [outcomeIds, List.filterMap_cons, hcreated]
    rfl
  refine ⟨fun hneeds ↦ ?_, fun h ↦ ?_, fun id hid ↦ ?_, ?_, fun id hid ↦ ?_, fun h ↦ ?_⟩
  · rcases needsApproval_of_phase hneeds with h | h | h | h <;> cases h
  · cases h
  · cases hid
  · exact hids.symm ▸ List.nodup_nil
  · have hnil : id ∈ outcomeIds [⟨userId, created⟩, ⟨userId, .phase none .draft none⟩] := hid
    rw [hids] at hnil
    cases hnil
  · cases h

theorem init_safe (h : (changeMachine cfg).init s) : ChangeSafe s := by
  rcases h with ⟨plan, template, engine, now, userId, h⟩ | ⟨typ, services, engine, now, userId, rfl⟩
  · rw [createChange] at h
    split at h
    · cases h
    split at h
    · cases h
    cases h
    exact newChangeState_safe _ _ _ rfl _ _
  · exact newChangeState_safe _ _ _ rfl _ _

theorem reachable_safe (h : (changeMachine cfg).Reachable s) : ChangeSafe s :=
  h.invariant (fun _ ↦ init_safe) fun _ a _ hs hst ↦ hst ▸ hs.next a

theorem approvalStep_events {fromPhase : ChangePhase} {oldVia : Option Via} {cab : Option Cab}
    {data : TransitionIn} {call : Call}
    (h : u.approvalStep cfg fromPhase oldVia cab data call = .ok t) :
    ∀ e ∈ u.events, e ∈ t.events := by
  rcases approvalStep_cases h with ⟨-, cab, status, rfl⟩ | ⟨-, via, rfl⟩ | ⟨-, id, rfl⟩ |
    ⟨-, -, -, -, rfl⟩
  · exact fun e he ↦ List.mem_append_left _ he
  · exact fun e he ↦ List.mem_append_left _ he
  · exact fun e he ↦ he
  · exact fun e he ↦ he

/-- A step of a person leaves its phase, and it is not a final one. -/
theorem transition_moves {data : TransitionIn} {call : Call}
    (h : transition cfg s data call = .ok t) :
    s.row.phase.final = false ∧ t.row.phase ≠ s.row.phase ∧
      s.row.approvalRound ≤ t.row.approvalRound ∧
      phaseTrail t.events = phaseTrail s.events ++ [(some s.row.phase, t.row.phase)] ∧
      ∀ e ∈ s.events, e ∈ t.events := by
  obtain ⟨hfinal, hcheck, u, hu, hstep⟩ := transition_entered h
  obtain ⟨hphase, hround, htrail⟩ := approvalStep_phase hstep
  rw [hu.round] at hround
  refine ⟨hfinal, ?_, hround, ?_, fun e he ↦ approvalStep_events hstep e (hu.events e he)⟩
  · rw [hphase, hu.phase]
    intro heq
    rcases checkTransition_person hcheck with ⟨hto, -⟩ | ⟨-, hmem, -⟩
    · have hcancel : data.target = .cancelled := hto
      rw [← heq, hcancel] at hfinal
      cases hfinal
    · have hself : s.row.plan.changeType ∈ transitions (s.row.phase, data.target) := hmem
      rw [heq, no_self_transition] at hself
      cases hself
  · rw [htrail, hu.trail, hphase, hu.phase]

theorem outcome_moves (s : ChangeState) (call : OutcomeCall) :
    (s.row.phase.final = true → onApprovalOutcome s call = (s, false)) ∧
      (onApprovalOutcome s call).1.row.approvalRound = s.row.approvalRound ∧
      phaseTrail (onApprovalOutcome s call).1.events =
        phaseTrail s.events ++ phaseStep s.row.phase (onApprovalOutcome s call).1.row.phase ∧
      ∀ e ∈ s.events, e ∈ (onApprovalOutcome s call).1.events := by
  obtain ⟨hevents, -, hphase, -, -, hround⟩ := outcomeApproved_phase s call
  have hopen : awaits s call = true → s.row.phase.final ≠ true := by
    intro ha
    rcases (awaits_spec ha).2.2.1 with h | ⟨-, h | h⟩ <;> rw [h] <;> decide
  rcases outcome_cases s call with hsame | ⟨ha, ⟨-, heq⟩ | ⟨target, extra, hsome, heq, htrail, -⟩⟩
  · rw [hsame]
    refine ⟨fun _ ↦ rfl, rfl, ?_, fun e he ↦ he⟩
    rw [phaseStep, if_pos rfl, List.append_nil]
  · rw [heq]
    refine ⟨fun hfinal ↦ absurd hfinal (hopen ha), hround, ?_, fun e he ↦ ?_⟩
    · have hp : (outcomeRecorded (outcomeApproved s call) call).row.phase = s.row.phase := hphase
      rw [hp, phaseStep, if_pos rfl, ← hevents]
      exact phaseTrail_append _ _
    · exact List.mem_append_left _ (hevents.symm ▸ he)
  · rw [heq]
    refine ⟨fun hfinal ↦ absurd hfinal (hopen ha), hround, ?_, fun e he ↦ List.mem_append_left _ he⟩
    have hne : s.row.phase ≠ target := by
      rcases systemTarget_some hsome with ⟨hp, ⟨-, rfl⟩ | rfl | rfl | rfl⟩ | ⟨hp, rfl⟩ <;>
        rw [hp] <;> decide
    have hstep : phaseStep s.row.phase target = [(some s.row.phase, target)] := if_neg hne
    exact (phaseTrail_append _ _).trans (congrArg _ (htrail.trans hstep.symm))

theorem outcome_handled {call : OutcomeCall} (h : (onApprovalOutcome s call).1 ≠ s) :
    call.approvalId ∉ outcomeIds s.events ∧
      call.approvalId ∈ outcomeIds (onApprovalOutcome s call).1.events := by
  rcases outcome_cases s call with hsame | ⟨ha, ⟨-, heq⟩ | ⟨target, extra, -, heq, -, hids, -⟩⟩
  · exact absurd (congrArg Prod.fst hsame) h
  · refine ⟨(awaits_spec ha).2.2.2, ?_⟩
    rw [heq]
    exact List.mem_filterMap.2 ⟨_, List.mem_append_right _ List.mem_cons_self, rfl⟩
  · refine ⟨(awaits_spec ha).2.2.2, ?_⟩
    rw [heq]
    have happend := outcomeIds_append s.events extra
    exact happend.symm ▸ List.mem_append_right _ (hids.symm ▸ List.mem_cons_self)

structure Moved (s t : ChangeState) : Prop where
  round : s.row.approvalRound ≤ t.row.approvalRound
  final : s.row.phase.final = true → t.row = s.row
  events : ∀ e ∈ s.events, e ∈ t.events

theorem Moved.refl (s : ChangeState) : Moved s s := ⟨Nat.le_refl _, fun _ ↦ rfl, fun _ he ↦ he⟩

theorem Moved.trans (h : Moved s t) (h' : Moved t u) : Moved s u := by
  refine ⟨h.round.trans h'.round, fun hfinal ↦ ?_, fun e he ↦ h'.events e (h.events e he)⟩
  have hrow := h.final hfinal
  rw [h'.final (hrow ▸ hfinal), hrow]

theorem Moved.outcomeIds (h : Moved s t) : ∀ id ∈ outcomeIds s.events, id ∈ outcomeIds t.events := by
  intro id hid
  obtain ⟨e, he, hout⟩ := List.mem_filterMap.1 hid
  exact List.mem_filterMap.2 ⟨e, h.events e he, hout⟩

/-- One call: the phase that it leaves stands in the timeline, next to the phase that it enters. -/
theorem next_moved (cfg : ChangeSettings) (s : ChangeState) (a : ChangeAction) :
    Moved s (s.next cfg a) ∧ phaseTrail (s.next cfg a).events =
      phaseTrail s.events ++ phaseStep s.row.phase (s.next cfg a).row.phase := by
  have hstay : ∀ {t : ChangeState}, t.row.phase = s.row.phase →
      phaseTrail t.events = phaseTrail s.events →
      phaseTrail t.events = phaseTrail s.events ++ phaseStep s.row.phase t.row.phase := by
    intro t hphase htrail
    rw [hphase, phaseStep, if_pos rfl, List.append_nil, htrail]
  cases a with
  | transition data call =>
    rw [ChangeState.next]
    cases ht : transition cfg s data call with
    | error e => exact ⟨.refl s, hstay rfl rfl⟩
    | ok t =>
      obtain ⟨hfinal, hne, hround, htrail, hevents⟩ := transition_moves ht
      refine ⟨⟨hround, fun h ↦ ?_, hevents⟩, ?_⟩
      · rw [hfinal] at h
        cases h
      · have hstep : phaseStep s.row.phase t.row.phase = [(some s.row.phase, t.row.phase)] :=
          if_neg hne.symm
        exact htrail.trans (congrArg _ hstep.symm)
  | update data call =>
    rw [ChangeState.next]
    cases ht : updateChange s data call with
    | error e => exact ⟨.refl s, hstay rfl rfl⟩
    | ok t =>
      rcases update_cases ht with rfl | ⟨plan, changed, hfinal, rfl⟩
      · exact ⟨.refl t, hstay rfl rfl⟩
      · refine ⟨⟨Nat.le_refl _, fun h ↦ ?_, fun e he ↦ List.mem_append_left _ he⟩, hstay rfl ?_⟩
        · rw [hfinal] at h
          cases h
        · exact (phaseTrail_append _ _).trans (List.append_nil _)
  | outcome call =>
    obtain ⟨hfinal, hround, htrail, hevents⟩ := outcome_moves s call
    refine ⟨⟨hround.ge, fun h ↦ ?_, hevents⟩, htrail⟩
    rw [ChangeState.next, hfinal h]
  | engine step => exact ⟨⟨Nat.le_refl _, fun _ ↦ rfl, fun e he ↦ he⟩, hstay rfl rfl⟩

theorem run_moved {as : List ChangeAction} (h : (changeMachine cfg).Run s as t) : Moved s t :=
  h.relates (fun _ _ _ _ _ ↦ trivial) Moved.refl (fun _ _ _ ↦ Moved.trans)
    (fun _ a _ _ hst ↦ by cases hst; exact (next_moved cfg _ a).1) trivial

theorem run_trail {as : List ChangeAction} (h : (changeMachine cfg).Run s as t) :
    phaseTrail t.events = phaseTrail s.events ++ phaseSteps cfg s as := by
  induction h with
  | nil => exact (List.append_nil _).symm
  | cons hst _ ih =>
    cases hst
    rw [ih, (next_moved cfg _ _).2, phaseSteps, List.append_assoc]

/-- A set that is handled once stands in the timeline, where the hook looks for it. -/
theorem run_handled {as : List ChangeAction} (h : (changeMachine cfg).Run s as t) :
    (handledIn cfg s as).Nodup ∧ ∀ id ∈ handledIn cfg s as, id ∉ outcomeIds s.events := by
  induction h with
  | nil => exact ⟨List.nodup_nil, fun id hid ↦ nomatch hid⟩
  | @cons s _ _ a as hst _ ih =>
    cases hst
    have hmoved := (next_moved cfg s a).1
    have hrest : ∀ id ∈ handledIn cfg (s.next cfg a) as, id ∉ outcomeIds s.events :=
      fun id hid hold ↦ ih.2 id hid (hmoved.outcomeIds id hold)
    cases a with
    | transition data call => exact ⟨ih.1, hrest⟩
    | update data call => exact ⟨ih.1, hrest⟩
    | engine step => exact ⟨ih.1, hrest⟩
    | outcome call =>
      by_cases hsame : (onApprovalOutcome s call).1 = s
      · rw [handledIn, if_pos hsame, List.nil_append]
        exact ⟨ih.1, hrest⟩
      · obtain ⟨hnew, hdone⟩ := outcome_handled hsame
        rw [handledIn, if_neg hsame, List.singleton_append]
        refine ⟨List.nodup_cons.2 ⟨fun hagain ↦ ih.2 _ hagain hdone, ih.1⟩, fun id hid ↦ ?_⟩
        rcases List.mem_cons.1 hid with rfl | hid
        · exact hnew
        · exact hrest id hid

theorem changes_governed {as : List ChangeAction} (hs : (changeMachine cfg).Reachable s)
    (h : (changeMachine cfg).Run s as t) :
    (t.row.needsApproval → ApprovedInRound t) ∧
      (s.row.approvalRound ≤ t.row.approvalRound ∧ (handledIn cfg s as).Nodup) ∧
      (s.row.phase.final = true → t.row = s.row) ∧
      (t.row.phase = .closed → t.row.outcome = some .successful → t.row.approvalVia = some .post →
        ∀ id ∈ t.row.approvalId, ∀ set ∈ t.engine.sets.find id, set.status ≠ .rejected) ∧
      phaseTrail t.events = phaseTrail s.events ++ phaseSteps cfg s as := by
  have hsafe := reachable_safe (hs.run h)
  have hmoved := run_moved h
  refine ⟨hsafe.approved, ⟨hmoved.round, (run_handled h).1⟩, hmoved.final, ?_, run_trail h⟩
  intro hclosed hout hvia id hid set hset
  rcases hsafe.postDecided hclosed hout hvia id hid set hset with h | h <;> rw [h] <;> decide

def plainSettings : ChangeSettings where
  defaultCabId := 0
  emergencyCabId := 0
  emergencyPostApproval := false
  autoApproveLowRisk := false
  standardRequiresReview := false
  approvalDueHours := 24
  approvalTimeout := .notify
  cabAllowSelfApproval := false
  stateOpen := "open"
  stateClosedSuccessful := "closed successful"
  stateClosedFailed := "closed unsuccessful"
  stateClosedCancelled := "removed"
  timeout_kind := .inl rfl

def standardPlan : ChangePlan where
  changeType := .standard
  reason := none
  implementationPlan := none
  backoutPlan := none
  testPlan := none
  plannedStart := some 10
  plannedEnd := some 20
  services := []
  cabId := none
  portalVisible := false

def agentCall (now : ℕ) : Call where
  userId := 2
  now := now
  denied := none
  manager := false
  process := false
  template := fun _ ↦ some ⟨.standard, true, true⟩
  cab := fun _ ↦ none
  conflicts := []
  risk := ⟨false, false, false⟩
  openTasks := 0
  questionnaireComplete := true
  impactCurrent := true
  ticketState := "open"
  ticketStateNew := false
  stateId := fun _ ↦ some 1
  request := fun _ ↦ .ok .pending
  autoDecision := none
  ticketRefused := none

def moveTo (target : ChangePhase) (outcome : Option Outcome) (now : ℕ) : ChangeAction :=
  .transition ⟨target, none, none, false, outcome, none, nofun⟩ (agentCall now)

def standardCreated : ChangeState :=
  newChangeState standardPlan (some 4) ⟨.empty, 1, nofun⟩ (.created .standard) 1 2

def standardSteps : List ChangeAction :=
  [moveTo .scheduled none 5, moveTo .implementing none 10, moveTo .closed (some .successful) 20]

def standardClosed : ChangeState := standardSteps.foldl (·.next plainSettings) standardCreated

theorem changes_governed_sample : standardClosed.row.phase = .closed ∧
    ApprovedInRound standardClosed ∧ phaseTrail standardClosed.events =
      [(none, .draft), (some .draft, .scheduled), (some .scheduled, .implementing),
        (some .implementing, .closed)] := by
  have h := changes_governed (s := standardCreated)
    (.start (.inl ⟨standardPlan, some (4, ⟨.standard, true, true⟩), ⟨.empty, 1, nofun⟩, 1, 2, rfl⟩))
    (.cons rfl (.cons rfl (.cons rfl (.nil standardClosed))) :
      (changeMachine plainSettings).Run standardCreated standardSteps standardClosed)
  refine ⟨by decide +kernel, h.1 (.inr ⟨.inr (.inr ?_), ?_⟩), h.2.2.2.2.trans ?_⟩ <;> decide +kernel

end Tiqora.Itsm.Change
