import Tiqora.Approvals.Progress

namespace Tiqora.Approvals

open Foundation

theorem newSteps_spec (position : ℕ) (specs : List StepSpec) :
    ((newSteps position specs).map (·.id)).Nodup ∧
      ∀ s ∈ newSteps position specs, position ≤ s.id ∧ s.status = .waiting := by
  induction specs generalizing position with
  | nil => simp [newSteps]
  | cons spec specs ih =>
    obtain ⟨hnd, hall⟩ := ih (position + 1)
    rw [newSteps]
    constructor
    · rw [List.map_cons, List.nodup_cons]
      refine ⟨fun hmem ↦ ?_, hnd⟩
      obtain ⟨s, hs, he⟩ := List.mem_map.mp hmem
      have hle := (hall s hs).1
      rw [he] at hle
      exact Nat.not_succ_le_self position hle
    · intro s hs
      rcases List.mem_cons.mp hs with rfl | hs
      · exact ⟨le_rfl, rfl⟩
      · exact ⟨(Nat.le_succ _).trans (hall s hs).1, (hall s hs).2⟩

theorem createRequest_sound (env : Env) (args : RequestArgs) :
    Sound [] (createRequest env args) := by
  obtain ⟨hnd, hall⟩ := newSteps_spec 1 args.definition.steps
  have hwait : ∀ s ∈ (createRequest env args).steps, s.status = .waiting :=
    fun s hs ↦ (hall s hs).2
  refine ⟨⟨hnd, by simp [createRequest], by simp [createRequest]⟩, ?_, by simp [createRequest],
    fun _ ↦ ⟨?_, ?_, ?_⟩, ?_, fun hne ↦ absurd rfl hne⟩
  · have hne := args.definition.steps_ne
    cases hsteps : args.definition.steps with
    | nil => exact absurd hsteps hne
    | cons spec specs => simp [createRequest, hsteps, newSteps]
  · intro s _ t ht _ hw
    exact absurd (hwait t ht) hw
  · intro _ _ t ht _ _
    exact hwait t ht
  · intro s hs hc
    rw [hwait s hs] at hc
    cases hc
  · intro _ s hs hact
    rw [hwait s hs] at hact
    cases hact

theorem requestApproval_cases {env : Env} {args : RequestArgs} {r : Request}
    (h : requestApproval env args = .ok r) : r = activateNextStage env (createRequest env args) := by
  unfold requestApproval at h
  simp only [require_bind_eq_ok] at h
  obtain ⟨_, _, h⟩ := h
  obtain ⟨_, _, h⟩ := bind_eq_ok.mp h
  simp only [require_bind_eq_ok] at h
  obtain ⟨_, _, h⟩ := h
  obtain ⟨_, _, h⟩ := bind_eq_ok.mp h
  obtain ⟨_, _, h⟩ := bind_eq_ok.mp h
  exact (Except.ok.inj h).symm

theorem reachable_invariant {r : Request} (h : approvalMachine.Reachable r) : Invariant r := by
  refine h.invariant ?_ ?_
  · rintro s ⟨env, args, hs⟩
    rw [requestApproval_cases hs]
    exact activateNextStage_sound (createRequest_sound env args)
  · rintro s ⟨env, op⟩ t hi hst
    obtain ⟨hp, hc⟩ := Operation.run_cases hst
    exact hc.invariant hp hi

/-- A pending request waits for the steps of one stage. -/
structure Standing (r : Request) (stage : ℕ) : Prop where
  waits : ∃ s ∈ r.steps, s.status = .active
  together : ∀ s ∈ r.steps, s.status = .active → s.spec.stage = stage
  past : ∀ s ∈ r.steps, s.spec.stage < stage → s.status = .approved
  ahead : ∀ s ∈ r.steps, stage < s.spec.stage → s.status = .waiting

theorem Ordered.standing {r : Request} (h : Ordered r.steps) {s : ApprovalStep} (hs : s ∈ r.steps)
    (hact : s.status = .active) : Standing r s.spec.stage := by
  have hpast : ∀ t ∈ r.steps, t.spec.stage < s.spec.stage → t.status = .approved :=
    fun t ht hlt ↦ h.behind t ht s hs hlt (by simp [hact])
  have hahead : ∀ t ∈ r.steps, s.spec.stage < t.spec.stage → t.status = .waiting := by
    intro t ht hlt
    by_contra hw
    have happ := h.behind s hs t ht hlt hw
    rw [hact] at happ
    cases happ
  refine ⟨⟨s, hs, hact⟩, fun t ht htact ↦ ?_, hpast, hahead⟩
  rcases Nat.lt_trichotomy t.spec.stage s.spec.stage with hlt | heq | hgt
  · have happ := hpast t ht hlt
    rw [htact] at happ
    cases happ
  · exact heq
  · have hw := hahead t ht hgt
    rw [htact] at hw
    cases hw

theorem closed_stuck {r r' : Request} {a : Env × Operation} (h : r.status ≠ .pending) :
    ¬ approvalMachine.step r a r' := fun hst ↦ h (Operation.run_cases hst).1

theorem closed_run {r r' : Request} {as : List (Env × Operation)} (h : r.status ≠ .pending)
    (hr : approvalMachine.Run r as r') : r' = r := by
  cases hr with
  | nil => rfl
  | cons hst _ => exact absurd hst (closed_stuck h)

/-- The state invariant of the engine: one stage is open while a request is pending, a closed
request has its result and nothing open, only rows of active steps wait for a vote, and a closed
request stays as it is. -/
theorem request_stands {r : Request} (h : approvalMachine.Reachable r) :
    (r.status = .pending → ∃ stage, Standing r stage) ∧
    (r.status ≠ .pending → Settled r) ∧
    (∀ a ∈ r.approvers, a.status = .pending →
      ∃ s ∈ r.steps, s.id = a.stepId ∧ s.status = .active) ∧
    (r.status ≠ .pending → ∀ as r', approvalMachine.Run r as r' → r'.status = r.status) := by
  obtain ⟨hsound, hlive⟩ := reachable_invariant h
  refine ⟨fun hp ↦ ?_, hsound.settled, hsound.rows, fun hne as r' hr ↦ ?_⟩
  · obtain ⟨s, hs, hact⟩ := hlive hp
    exact ⟨_, (hsound.ordered hp).standing hs hact⟩
  · rw [closed_run hne hr]

/-- No approval gets stuck: every active step of a pending request has somebody to vote, and
whenever the rules answer pending for the voters of a step, one of them has not voted yet or the
re-evaluation ends the step by its `on_no_approver`. -/
theorem request_votable {r : Request} (h : approvalMachine.Reachable r) :
    (r.status = .pending → ∀ s ∈ r.steps, s.status = .active →
      ∃ a ∈ r.approvers, a.stepId = s.id ∧ a.status = .pending) ∧
    ∀ env mid s, evaluateStep s.spec.rule s.spec.quorum (stepVoters env mid s.id) = .ok .pending →
      (∃ a ∈ mid.approvers, a.stepId = s.id ∧ a.status = .pending) ∨
        stepResult env mid s = .ok (some (noApproverStatus s.spec, .noApprovers)) := by
  obtain ⟨hsound, _⟩ := reachable_invariant h
  refine ⟨fun hp s hs hact ↦ hsound.votable hp s hs hact (by simp), fun env mid s hwait ↦ ?_⟩
  rcases stepVoters_wait hwait with hnil | hrow
  · right
    rw [stepResult, hwait]
    simp only [hnil]
    rfl
  · exact .inl hrow

def sampleDirectory : Directory where
  agentValid n := if n = 2 ∨ n = 3 then some 1 else none
  customers := []
  companies := []
  ticketCompany := none
  lower := id

/-- A site with two agents where every user entry names agent 3. -/
def sampleEnv : Env where
  now := 100
  moment := 100
  directory := sampleDirectory
  collect _ entries := ⟨entries.map fun e ↦ (.agent 3, e), []⟩
  delegations := []
  approvalsEnabled := true
  subjectAvailable := true
  subjectAllowsCustomers := false
  customerApproversEnabled := false
  emailLinksEnabled := false
  defaultDueHours := 1
  linkTtlHours := 1
  maxLinksPerApprover := 1
  reminderIntervalHours := 0
  reminderMax := 0
  mayWrite _ := true
  subjectRegistered := true
  ticketExists := true
  definitionRefs _ := .ok ()

def sampleStep (name : String) (stage : ℕ) : StepSpec where
  name := name
  stage := stage
  rule := .any
  quorum := none
  approvers := [⟨.user, "3"⟩]
  dueHours := none
  onTimeout := .notify
  escalation := []
  onNoApprover := .reject
  allowDelegation := false
  allowEmail := false
  quorum_iff := by decide
  escalation_iff := by decide

def sampleArgs : RequestArgs where
  subjectType := "ticket"
  title := "Order"
  approvalKey := "order"
  subjectRef := none
  actor := some (.agent 2)
  requester := none
  definition := ⟨[sampleStep "first" 1, sampleStep "second" 2], by decide⟩
  allowSelfApproval := false

def sampleRequest : Request := activateNextStage sampleEnv (createRequest sampleEnv sampleArgs)

theorem sampleRequest_created : requestApproval sampleEnv sampleArgs = .ok sampleRequest :=
  toOption_eq_some (by decide)

/-- Agent 3 approves the first of the two steps. -/
def sampleVote : Operation := .decide ⟨some (.agent 3), .approved, .ui, none, none, none⟩

def sampleVoted : Request := (sampleVote.run sampleEnv sampleRequest).getD sampleRequest

theorem sampleVoted_reachable : approvalMachine.Reachable sampleVoted := by
  have hrun : approvalMachine.step sampleRequest (sampleEnv, sampleVote) sampleVoted := by
    show sampleVote.run sampleEnv sampleRequest = some sampleVoted
    decide
  have hstart : approvalMachine.Reachable sampleRequest := .start ⟨_, _, sampleRequest_created⟩
  exact hstart.step hrun

theorem request_stands_sample : ∃ stage, Standing sampleVoted stage :=
  (request_stands sampleVoted_reachable).1 (by decide)

theorem request_votable_sample : ∃ a ∈ sampleVoted.approvers, a.stepId = 2 ∧ a.status = .pending := by
  obtain ⟨s, hs, hid, hact⟩ : ∃ s ∈ sampleVoted.steps, s.id = 2 ∧ s.status = .active := by decide
  rw [← hid]
  exact (request_votable sampleVoted_reachable).1 (by decide) s hs hact

end Tiqora.Approvals
