import Tiqora.Approvals.Safety

namespace Tiqora.Approvals

open Foundation

/-- What an operation does to the times of a step: it leaves them, or it starts a waiting step. -/
def Timed (now : ℕ) (s t : ApprovalStep) : Prop :=
  (t.activatedAt = s.activatedAt ∧ t.dueAt = s.dueAt ∧ t.overdueAt = s.overdueAt ∧
    (t.status = .waiting → s.status = .waiting)) ∨
  (s.status = .waiting ∧ t.status ≠ .waiting ∧ t.activatedAt = some now ∧
    t.overdueAt = s.overdueAt)

theorem Timed.refl (now : ℕ) (s : ApprovalStep) : Timed now s s := .inl ⟨rfl, rfl, rfl, id⟩

theorem Timed.trans {now : ℕ} {s t u : ApprovalStep} (h : Timed now s t) (h' : Timed now t u) :
    Timed now s u := by
  rcases h with ⟨ha, hd, ho, hw⟩ | ⟨hw, hn, ha, ho⟩
  · rcases h' with ⟨ha', hd', ho', hw'⟩ | ⟨hw', hn', ha', ho'⟩
    · exact .inl ⟨ha'.trans ha, hd'.trans hd, ho'.trans ho, fun h ↦ hw (hw' h)⟩
    · exact .inr ⟨hw hw', hn', ha', ho'.trans ho⟩
  · rcases h' with ⟨ha', _, ho', hw'⟩ | ⟨hw', _, _, _⟩
    · exact .inr ⟨hw, fun h ↦ hn (hw' h), ha'.trans ha, ho'.trans ho⟩
    · exact absurd hw' hn

/-- The steps of a request before and after an operation at this time. -/
def Steady (now : ℕ) (r r' : Request) : Prop :=
  ∃ g : ApprovalStep → ApprovalStep, r'.steps = r.steps.map g ∧
    ∀ s ∈ r.steps, (g s).id = s.id ∧ Timed now s (g s)

theorem Steady.of_steps {now : ℕ} {r r' : Request} (h : r'.steps = r.steps) : Steady now r r' :=
  ⟨id, by rw [h, List.map_id], fun s _ ↦ ⟨rfl, .refl now s⟩⟩

theorem Steady.trans {now : ℕ} {r s t : Request} (h : Steady now r s) (h' : Steady now s t) :
    Steady now r t := by
  obtain ⟨g, hg, hgs⟩ := h
  obtain ⟨f, hf, hfs⟩ := h'
  refine ⟨f ∘ g, by rw [hf, hg, List.map_map], fun u hu ↦ ?_⟩
  have hmem : g u ∈ s.steps := hg ▸ List.mem_map_of_mem hu
  exact ⟨(hfs _ hmem).1.trans (hgs u hu).1, (hgs u hu).2.trans (hfs _ hmem).2⟩

theorem foldl_steps {α : Type} {f : Request → α → Request}
    (hf : ∀ r a, (f r a).steps = r.steps) (as : List α) (r : Request) :
    (as.foldl f r).steps = r.steps := by
  induction as generalizing r with
  | nil => rfl
  | cons a as ih => exact (ih (f r a)).trans (hf r a)

section Parts

variable (env : Env)

theorem finalize_steady (status : ApprovalStatus) (reason : Reason) (r : Request) :
    Steady env.now r (finalize env status reason r) := by
  refine ⟨cancelStep env reason, rfl, fun s _ ↦ ?_⟩
  have hclosed := (cancelStep_closed env reason s).1
  unfold cancelStep at hclosed ⊢
  split
  · exact ⟨rfl, .inl ⟨rfl, rfl, rfl, fun h ↦ nomatch h⟩⟩
  · exact ⟨rfl, .refl _ _⟩

theorem activateStage_steady {r : Request} (hk : Keyed r) (stage : ℕ) :
    Steady env.now r (activateStage env stage r) := by
  obtain ⟨g, new, ha⟩ := activateSteps_activated env r (stageSteps_nodup hk stage)
  refine ⟨g, ha.steps, fun s hs ↦ ⟨(ha.keeps s).1, ?_⟩⟩
  by_cases hmem : s.id ∈ (stageSteps r stage).map (·.id)
  · refine .inr ⟨((mem_stageSteps hk hs).mp hmem).2, fun hw ↦ ?_, ha.times s hmem⟩
    rcases ha.entered s hmem with he | he | he <;> rw [he] at hw <;> cases hw
  · rw [ha.others s hmem]
    exact .refl _ _

theorem activateFrom_steady (fuel : ℕ) {r : Request} (hk : Keyed r) :
    Steady env.now r (activateFrom env fuel r) := by
  induction fuel generalizing r with
  | zero => exact .of_steps rfl
  | succ fuel ih =>
    unfold activateFrom
    split
    · exact .of_steps rfl
    · split
      · exact finalize_steady env _ _ r
      · split
        · exact .of_steps rfl
        · split
          · split
            · exact finalize_steady env _ _ r
            · exact .of_steps rfl
          · exact (activateStage_steady env hk _).trans
              (ih ((activateStage_evolves env r _).keyed hk))

theorem recordOutcome_steady (now stepId : ℕ) {outcome : StepStatus} (reason : Reason) (r : Request)
    (h : outcome ≠ .waiting) : Steady env.now r (recordOutcome now stepId outcome reason r) := by
  refine ⟨recordedStep now stepId outcome reason, rfl, fun s _ ↦ ?_⟩
  unfold recordedStep
  split
  · exact ⟨rfl, .inl ⟨rfl, rfl, rfl, fun hw ↦ absurd hw h⟩⟩
  · exact ⟨rfl, .refl _ _⟩

theorem closeStep_steady (s : ApprovalStep) {outcome : StepStatus} (reason : Reason) {r : Request}
    (hk : Keyed r) (h : outcome = .approved ∨ outcome = .rejected) :
    Steady env.now r (closeStep env s outcome reason r) := by
  have hne : outcome ≠ .waiting := by
    rintro rfl
    rcases h with h | h <;> cases h
  have hclosed : Steady env.now r ((recordOutcome env.moment s.id outcome reason r).dismiss
      (pendingIn s.id) .notNeeded env.now) :=
    (recordOutcome_steady env _ _ reason r hne).trans (.of_steps (Request.dismiss_steps ..))
  refine hclosed.trans (activateFrom_steady env _ ?_)
  exact ((recordOutcome_evolves r _ _ _ _).trans (dismiss_evolves _ _
    (fun _ ha ↦ (of_decide_eq_true ha).2) id)).keyed hk

theorem reevaluateSteps_steady {ss : List ApprovalStep} {r r' : Request} (hk : Keyed r)
    (h : reevaluateSteps env ss r = .ok r') : Steady env.now r r' := by
  induction ss generalizing r with
  | nil => rw [← Except.ok.inj h]; exact .of_steps rfl
  | cons s ss ih =>
    unfold reevaluateSteps at h
    split at h
    · exact ih hk h
    · obtain ⟨result, hresult, h⟩ := bind_eq_ok.mp h
      rcases stepResult_cases hresult with ⟨outcome, reason, hout, rfl⟩ | ⟨rfl, _⟩
      · exact (closeStep_steady env s reason hk hout).trans
          (ih ((closeStep_evolves env r _ _ _).keyed hk) h)
      · exact ih hk h

theorem refreshStep_steps (r : Request) (s : ApprovalStep) :
    (refreshStep env r s).steps = r.steps := by
  obtain ⟨new, he, -⟩ := addApprovers_eq env.moment s.id
    ((resolveStep env r s.id s.spec.approvers false).approvers.filter
      fun x ↦ x.principal ∉ present r s.id)
    (r.dismiss (departed (resolveStep env r s.id s.spec.approvers false) s.id) .removed env.now)
  rw [refreshStep, refreshWith, he]
  rfl

theorem escalateTo_steps (stepId : ℕ) (r : Request) (x : ResolvedApprover) :
    (escalateTo env stepId r x).steps = r.steps := by
  unfold escalateTo
  split
  · rfl
  · split
    · split <;> rfl
    · rfl

theorem applyVote_steady {s : ApprovalStep} {v : Vote} {tokenId : Option ℕ} {r r' : Request}
    (hk : Keyed r) (h : applyVote env s v tokenId r = .ok r') : Steady env.now r r' := by
  have hcast : Steady env.now r (castVote env v tokenId r) := .of_steps (castVote_steps ..)
  obtain ⟨_, _, ⟨_, rfl⟩ | ⟨outcome, hout, rfl⟩⟩ := applyVote_cases h
  · exact hcast
  · exact hcast.trans (closeStep_steady env s _ (hk.castVote env v tokenId) hout)

theorem decide_steady {args : DecideArgs} {r r' : Request} (hk : Keyed r)
    (h : decide env args r = .ok r') : Steady env.now r r' := by
  obtain ⟨_, _, _, _, _, _, happly⟩ := decide_cases h
  exact applyVote_steady env hk happly

theorem remind_steady {stepId : ℕ} {r r' : Request} (h : remind env stepId r = some r') :
    Steady env.now r r' := by
  unfold remind at h
  split at h
  · cases h
  · split at h
    · cases h
    · split at h
      · rw [← Option.some.inj h]
        refine ⟨_, rfl, fun s _ ↦ ?_⟩
        split
        · exact ⟨rfl, .inl ⟨rfl, rfl, rfl, id⟩⟩
        · exact ⟨rfl, .refl _ _⟩
      · cases h

/-- Setting off the deadline of a step records when, and apart from that changes no times. -/
theorem overdue_steady {stepId : ℕ} {r r' : Request} (hk : Keyed r)
    (h : overdue env stepId r = some r') :
    ∃ s ∈ r.steps, s.id = stepId ∧ s.status = .active ∧ s.overdueAt = none ∧
      (∃ due ∈ s.dueAt, due ≤ env.moment) ∧ Steady env.now (markOverdue env stepId r) r' := by
  obtain ⟨s, hs, hid, hact, hnone, hdue, he⟩ := overdue_cases h
  refine ⟨s, hs, hid, hact, hnone, hdue, ?_⟩
  rcases he with rfl | rfl | ⟨outcome, hout, rfl⟩
  · exact .of_steps rfl
  · exact .of_steps (foldl_steps (escalateTo_steps env s.id) _ _)
  · exact closeStep_steady env s _ ((markOverdue_evolves env r stepId).keyed hk) hout

end Parts

theorem Operation.run_steady {env : Env} {r r' : Request} {op : Operation} (hk : Keyed r)
    (hop : op.timing = false) (h : op.run env r = some r') : Steady env.now r r' := by
  cases op with
  | decide args => exact decide_steady env hk (toOption_eq_some h)
  | redeemLink linkId decision comment =>
    obtain ⟨args, links, h⟩ := redeemLink_cases (toOption_eq_some h)
    have hk' : Keyed { r with links := links } := hk.of_eq rfl rfl rfl
    have hr : Steady env.now r { r with links := links } := .of_steps rfl
    exact hr.trans (decide_steady env hk' h)
  | issueLink approverId =>
    obtain ⟨_, links, next, rfl⟩ := issueLink_cases (toOption_eq_some h)
    exact .of_steps rfl
  | forward actor approverId toUserId =>
    obtain ⟨row, s, _, rfl⟩ := forward_cases (toOption_eq_some h)
    exact .of_steps (handOver_steps ..)
  | refreshApprovers actor =>
    obtain ⟨_, h⟩ := refreshApprovers_cases (toOption_eq_some h)
    have hsteps := foldl_steps (refreshStep_steps env) r.activeSteps r
    exact (Steady.of_steps hsteps).trans (reevaluateSteps_steady env
      ((foldl_evolves r (refreshStep_evolves env) _).keyed hk) h)
  | cancelApproval actor reason check =>
    obtain ⟨_, rfl⟩ := cancelApproval_cases (toOption_eq_some h)
    exact finalize_steady env _ _ r
  | supersede newId =>
    obtain ⟨_, rfl⟩ := supersede_cases (toOption_eq_some h)
    have hr : Steady env.now r { r with supersededBy := some newId } := .of_steps rfl
    exact hr.trans (finalize_steady env _ _ _)
  | overdue stepId => cases hop
  | remind stepId => exact remind_steady env (sweepItem_cases h).2
  | dropInvalid =>
    have h : sweepItem r (fun r ↦ (Approvals.dropInvalid env r).toOption.join) = some r' := h
    have h := toOption_eq_some (Option.join_eq_some_iff.mp (sweepItem_cases h).2)
    have hsteps : (dropRows env r).steps = r.steps := by simp [dropRows]
    exact (Steady.of_steps hsteps).trans (reevaluateSteps_steady env
      ((dropRows_evolves env r).keyed hk) (dropInvalid_cases h))
  | shiftTimers since seen amount => cases hop

end Tiqora.Approvals
