import Tiqora.Approvals.Runs

namespace Tiqora.Approvals

open Foundation

/-- What `decide` has checked when it casts a vote. -/
structure Castable (env : Env) (r : Request) (principal key : Principal) (row : Approver)
    (s : ApprovalStep) : Prop where
  pendingRequest : r.status = .pending
  key_eq : key = env.directory.canonicalPrincipal principal
  mem : row ∈ r.approvers
  pending : row.status = .pending
  active : ∃ t ∈ r.steps, t.id = row.stepId ∧ t.status = .active
  step : r.steps.find? (fun s ↦ s.id = row.stepId) = some s
  fresh : row.stepId ∉ votedSteps r key
  own : row.principal = key ∨ delegated env r principal row = true
  key_allowed : key ∉ excludedKeys env r
  row_allowed : row.principal ≠ key → row.principal ∉ excludedKeys env r

theorem pickApprover_cases {env : Env} {r : Request} {principal key : Principal}
    {approverId : Option ℕ} {row : Approver}
    (h : pickApprover env r principal key approverId = .ok row) :
    row ∈ r.approvers ∧ row.status = .pending ∧
      (∃ t ∈ r.steps, t.id = row.stepId ∧ t.status = .active) ∧ row.stepId ∉ votedSteps r key ∧
      (row.principal = key ∨ delegated env r principal row = true) := by
  unfold pickApprover at h
  simp only at h
  split at h
  · rename_i a as hfree
    cases h
    have hmem : row ∈ row :: as := List.mem_cons_self
    rw [← hfree, List.mem_insertionSort] at hmem
    simp only [candidateRows, List.mem_filter, decide_eq_true_eq, List.any_eq_true] at hmem
    obtain ⟨⟨⟨hrow, _, hown⟩, hp, t, ht, hact⟩, hfresh⟩ := hmem
    exact ⟨hrow, hp, ⟨t, ht, hact⟩, hfresh, hown⟩
  · cases h

theorem decide_cases {env : Env} {args : DecideArgs} {r r' : Request}
    (h : decide env args r = .ok r') :
    ∃ principal key row s comment, Castable env r principal key row s ∧
      applyVote env s (newVote env row key args.decision args.channel comment r) args.tokenId r =
        .ok r' := by
  unfold decide at h
  simp only [require_bind_eq_ok] at h
  obtain ⟨_, _, hopen, h⟩ := h
  split at h
  · cases h
  · rename_i principal _
    obtain ⟨row, hpick, h⟩ := bind_eq_ok.mp h
    obtain ⟨hmem, hp, hact, hfresh, hown⟩ := pickApprover_cases hpick
    split at h
    · cases h
    · rename_i s hs
      simp only [require_bind_eq_ok] at h
      obtain ⟨⟨hk, hr⟩, h⟩ := h
      obtain ⟨_, _, h⟩ := bind_eq_ok.mp h
      rw [require_bind_eq_ok] at h
      exact ⟨principal, _, row, s, _, ⟨hopen, rfl, hmem, hp, hact, hs, hfresh, hown, hk, hr⟩, h.2⟩

theorem redeemLink_cases {env : Env} {linkId : ℕ} {decision : Decision} {comment : Option String}
    {r r' : Request} (h : redeemLink env linkId decision comment r = .ok r') :
    ∃ args links, decide env args { r with links := links } = .ok r' := by
  unfold redeemLink at h
  rw [require_bind_eq_ok] at h
  obtain ⟨_, h⟩ := h
  split at h
  · cases h
  · simp only [require_bind_eq_ok] at h
    obtain ⟨_, _, h⟩ := h
    split at h
    · cases h
    · simp only [require_bind_eq_ok] at h
      exact ⟨_, _, h.2.2.2⟩

theorem applyVote_cases {env : Env} {s : ApprovalStep} {v : Vote} {tokenId : Option ℕ}
    {r r' : Request} (h : applyVote env s v tokenId r = .ok r') :
    ∃ result, evaluateStep s.spec.rule s.spec.quorum
        (stepVoters env (castVote env v tokenId r) s.id) = .ok result ∧
      ((result = .pending ∧ r' = castVote env v tokenId r) ∨
        ∃ outcome, (outcome = .approved ∨ outcome = .rejected) ∧
          r' = closeStep env s outcome .votes (castVote env v tokenId r)) := by
  obtain ⟨result, hresult, h⟩ := bind_eq_ok.mp h
  refine ⟨result, hresult, ?_⟩
  have h := (Except.ok.inj h).symm
  cases result with
  | pending => exact .inl ⟨rfl, h⟩
  | approved => exact .inr ⟨_, .inl rfl, h⟩
  | rejected => exact .inr ⟨_, .inr rfl, h⟩

/-- What `forward` has checked when it hands a row over. -/
structure Forwardable (env : Env) (r : Request) (row : Approver) (s : ApprovalStep)
    (target : Principal) : Prop where
  pendingRequest : r.status = .pending
  mem : row ∈ r.approvers
  pending : row.status = .pending
  step : r.steps.find? (fun s ↦ s.id = row.stepId) = some s
  active : s.status = .active
  allowed : target ∉ excludedKeys env r
  absent : ∀ a ∈ r.approvers, a.stepId = s.id → a.principal ≠ target
  unvoted : target ∉ votersInStep r s.id

theorem forward_cases {env : Env} {actor : Actor} {approverId toUserId : ℕ} {r r' : Request}
    (h : forward env actor approverId toUserId r = .ok r') :
    ∃ row s, Forwardable env r row s (.agent toUserId) ∧
      r' = handOver env row (.agent toUserId) r := by
  unfold forward at h
  split at h
  · cases h
  · cases h
  · simp only [require_bind_eq_ok] at h
    obtain ⟨_, hopen, h⟩ := h
    split at h
    · cases h
    · rename_i row hrow
      simp only [require_bind_eq_ok] at h
      obtain ⟨_, _, h⟩ := h
      split at h
      · cases h
      · rename_i s hs
        simp only [require_bind_eq_ok] at h
        obtain ⟨⟨hp, hact⟩, _, _, _, hex, habs, hvoted, h⟩ := h
        exact ⟨row, s, ⟨hopen, List.mem_of_find?_eq_some hrow, hp, hs, hact, hex, habs, hvoted⟩,
          (Except.ok.inj h).symm⟩

theorem overdue_cases {env : Env} {stepId : ℕ} {r r' : Request}
    (h : overdue env stepId r = some r') :
    ∃ s ∈ r.steps, s.id = stepId ∧ s.status = .active ∧ s.overdueAt = none ∧
      (∃ due ∈ s.dueAt, due ≤ env.moment) ∧
      (r' = markOverdue env stepId r ∨ r' = escalate env s (markOverdue env stepId r) ∨
        ∃ outcome, (outcome = .approved ∨ outcome = .rejected) ∧
          r' = closeStep env s outcome .timeout (markOverdue env stepId r)) := by
  unfold overdue at h
  split at h
  · cases h
  · rename_i s hs
    split at h
    · cases h
    · rename_i hdue
      simp only [not_or, not_not] at hdue
      obtain ⟨hact, hover, hdue⟩ := hdue
      have hlate : ∃ due ∈ s.dueAt, due ≤ env.moment := by
        cases hd : s.dueAt with
        | none => simp [hd] at hdue
        | some due => exact ⟨due, rfl, by simpa [hd] using hdue⟩
      refine ⟨s, List.mem_of_find?_eq_some hs, by simpa using List.find?_some hs, hact, hover,
        hlate, ?_⟩
      split at h
      · exact .inl (Option.some.inj h).symm
      · exact .inr (.inl (Option.some.inj h).symm)
      · exact .inr (.inr ⟨_, .inr rfl, (Option.some.inj h).symm⟩)
      · exact .inr (.inr ⟨_, .inl rfl, (Option.some.inj h).symm⟩)

/-- The steps touched by one clock: their columns other than key, definition and status. -/
def Retimes (f : ApprovalStep → ApprovalStep) : Prop :=
  ∀ s, (f s).id = s.id ∧ (f s).spec = s.spec ∧ (f s).status = s.status

theorem remind_cases {env : Env} {stepId : ℕ} {r r' : Request} (h : remind env stepId r = some r') :
    ∃ f, Retimes f ∧ r' = r.setStep stepId f := by
  unfold remind at h
  split at h
  · cases h
  · split at h
    · cases h
    · split at h
      · refine ⟨_, ?_, (Option.some.inj h).symm⟩
        exact fun _ ↦ ⟨rfl, rfl, rfl⟩
      · cases h

theorem issueLink_cases {env : Env} {approverId : ℕ} {r r' : Request}
    (h : issueLink env approverId r = .ok r') :
    r.status = .pending ∧ ∃ links next, r' = { r with links := links, nextLink := next } := by
  unfold issueLink at h
  split at h
  · cases h
  · split at h
    · cases h
    · simp only [require_bind_eq_ok] at h
      exact ⟨h.1.1, _, _, (Except.ok.inj h.2.2.2).symm⟩

theorem cancelApproval_cases {env : Env} {actor : Actor} {reason : Reason} {check : Bool}
    {r r' : Request} (h : cancelApproval env actor reason check r = .ok r') :
    r.status = .pending ∧ r' = finalize env .cancelled reason r := by
  unfold cancelApproval at h
  simp only [require_bind_eq_ok] at h
  exact ⟨h.2.2.2.1, (Except.ok.inj h.2.2.2.2).symm⟩

theorem supersede_cases {env : Env} {newId : ℕ} {r r' : Request}
    (h : supersede env newId r = .ok r') :
    r.status = .pending ∧
      r' = finalize env .cancelled .superseded { r with supersededBy := some newId } := by
  unfold supersede at h
  rw [require_bind_eq_ok] at h
  exact ⟨h.1, (Except.ok.inj h.2).symm⟩

theorem refreshApprovers_cases {env : Env} {actor : Actor} {r r' : Request}
    (h : refreshApprovers env actor r = .ok r') :
    r.status = .pending ∧
      reevaluateSteps env r.activeSteps (r.activeSteps.foldl (refreshStep env) r) = .ok r' := by
  unfold refreshApprovers at h
  simp only [require_bind_eq_ok] at h
  exact h.2.2

def dropRows (env : Env) (r : Request) : Request :=
  (r.dismiss (gone env r .removed) .removed env.now).dismiss (gone env r .notNeeded) .notNeeded
    env.now

def touchedSteps (env : Env) (r : Request) : List ApprovalStep :=
  r.activeSteps.filter fun s ↦ (dropped env r).any fun a ↦ a.stepId = s.id

theorem dropInvalid_cases {env : Env} {r r' : Request} (h : dropInvalid env r = .ok (some r')) :
    reevaluateSteps env (touchedSteps env r) (dropRows env r) = .ok r' := by
  unfold dropInvalid at h
  split at h
  · cases Except.ok.inj h
  · obtain ⟨r'', hr, h⟩ := bind_eq_ok.mp h
    rw [← Option.some.inj (Except.ok.inj h)]
    exact hr

/-- Everything that an operation can do to a pending request. -/
inductive Change (env : Env) (r : Request) : Request → Prop
  | votes {links : List Link} {principal key : Principal} {row : Approver} {s : ApprovalStep}
      {decision : Decision} {channel : Channel} {comment : Option String} {tokenId : Option ℕ}
      {r' : Request} (cast : Castable env { r with links := links } principal key row s)
      (apply : applyVote env s (newVote env row key decision channel comment
        { r with links := links }) tokenId { r with links := links } = .ok r') : Change env r r'
  | links (links : List Link) (next : ℕ) : Change env r { r with links := links, nextLink := next }
  | forwards {row : Approver} {s : ApprovalStep} {target : Principal}
      (pass : Forwardable env r row s target) : Change env r (handOver env row target r)
  | refreshes {r' : Request}
      (again : reevaluateSteps env r.activeSteps (r.activeSteps.foldl (refreshStep env) r) =
        .ok r') : Change env r r'
  | closes (successor : Option ℕ) (reason : Reason) :
      Change env r (finalize env .cancelled reason { r with supersededBy := successor })
  | retimes {f : ApprovalStep → ApprovalStep} (links : List Link) (same : Retimes f) :
      Change env r { r with steps := r.steps.map f, links := links }
  | escalates {s : ApprovalStep} (mem : s ∈ r.steps) (active : s.status = .active) :
      Change env r (escalate env s (markOverdue env s.id r))
  | timesOut {s : ApprovalStep} {outcome : StepStatus} (mem : s ∈ r.steps)
      (active : s.status = .active) (decided : outcome = .approved ∨ outcome = .rejected) :
      Change env r (closeStep env s outcome .timeout (markOverdue env s.id r))
  | drops {r' : Request}
      (again : reevaluateSteps env (touchedSteps env r) (dropRows env r) = .ok r') : Change env r r'

theorem setStep_retimes {r : Request} {stepId : ℕ} {f : ApprovalStep → ApprovalStep}
    (hf : Retimes f) : ∃ g, Retimes g ∧ r.setStep stepId f = { r with steps := r.steps.map g } := by
  refine ⟨fun s ↦ if s.id = stepId then f s else s, fun s ↦ ?_, rfl⟩
  by_cases hs : s.id = stepId
  · simpa only [hs, if_true] using hf s
  · simp only [hs, if_false, and_self]

theorem shiftStep_retimes (seen amount : ℕ) : Retimes (shiftStep seen amount) := by
  intro s
  unfold shiftStep
  split
  · split <;> exact ⟨rfl, rfl, rfl⟩
  · exact ⟨rfl, rfl, rfl⟩

theorem sweepItem_cases {r r' : Request} {work : Request → Option Request}
    (h : sweepItem r work = some r') : r.status = .pending ∧ work r = some r' := by
  unfold sweepItem at h
  split at h
  · exact ⟨‹_›, h⟩
  · cases h

theorem toOption_eq_some {α : Type} {x : Except Failure α} {a : α} (h : x.toOption = some a) :
    x = .ok a := by
  cases x with
  | error e => cases h
  | ok b => rw [Option.some.inj h]

/-- Every committed operation starts from a pending request and is one of the changes. -/
theorem Operation.run_cases {env : Env} {r r' : Request} {op : Operation}
    (h : op.run env r = some r') : r.status = .pending ∧ Change env r r' := by
  cases op with
  | decide args =>
    obtain ⟨principal, key, row, s, comment, hcast, happly⟩ := decide_cases (toOption_eq_some h)
    exact ⟨hcast.pendingRequest, Change.votes hcast happly⟩
  | redeemLink linkId decision comment =>
    obtain ⟨args, links, h⟩ := redeemLink_cases (toOption_eq_some h)
    obtain ⟨principal, key, row, s, comment, hcast, happly⟩ := decide_cases h
    exact ⟨hcast.pendingRequest, .votes hcast happly⟩
  | issueLink approverId =>
    obtain ⟨hopen, links, next, rfl⟩ := issueLink_cases (toOption_eq_some h)
    exact ⟨hopen, .links links next⟩
  | forward actor approverId toUserId =>
    obtain ⟨row, s, hpass, rfl⟩ := forward_cases (toOption_eq_some h)
    exact ⟨hpass.pendingRequest, .forwards hpass⟩
  | refreshApprovers actor =>
    obtain ⟨hopen, h⟩ := refreshApprovers_cases (toOption_eq_some h)
    exact ⟨hopen, .refreshes h⟩
  | cancelApproval actor reason check =>
    obtain ⟨hopen, rfl⟩ := cancelApproval_cases (toOption_eq_some h)
    exact ⟨hopen, .closes r.supersededBy reason⟩
  | supersede newId =>
    obtain ⟨hopen, rfl⟩ := supersede_cases (toOption_eq_some h)
    exact ⟨hopen, .closes (some newId) .superseded⟩
  | overdue stepId =>
    obtain ⟨hopen, h⟩ := sweepItem_cases h
    obtain ⟨s, hmem, rfl, hact, -, -, rfl | rfl | ⟨outcome, hout, rfl⟩⟩ := overdue_cases h
    · obtain ⟨g, hg, he⟩ : ∃ g, Retimes g ∧
          markOverdue env s.id r = { r with steps := r.steps.map g } :=
        setStep_retimes fun _ ↦ ⟨rfl, rfl, rfl⟩
      rw [he]
      exact ⟨hopen, .retimes r.links hg⟩
    · exact ⟨hopen, .escalates hmem hact⟩
    · exact ⟨hopen, .timesOut hmem hact hout⟩
  | remind stepId =>
    obtain ⟨hopen, h⟩ := sweepItem_cases h
    obtain ⟨f, hf, rfl⟩ := remind_cases h
    obtain ⟨g, hg, he⟩ := setStep_retimes hf
    rw [he]
    exact ⟨hopen, .retimes r.links hg⟩
  | dropInvalid =>
    have h : sweepItem r (fun r ↦ (Approvals.dropInvalid env r).toOption.join) = some r' := h
    obtain ⟨hopen, h⟩ := sweepItem_cases h
    have h := toOption_eq_some (Option.join_eq_some_iff.mp h)
    exact ⟨hopen, .drops (dropInvalid_cases h)⟩
  | shiftTimers since seen amount =>
    have h : sweepItem r (fun r ↦ some (Approvals.shiftTimers since seen r amount)) = some r' := h
    obtain ⟨hopen, h⟩ := sweepItem_cases h
    rw [← Option.some.inj h]
    exact ⟨hopen, .retimes _ (shiftStep_retimes seen amount)⟩

end Tiqora.Approvals
