import Tiqora.Approvals.Activation
import Tiqora.Approvals.Inversion

namespace Tiqora.Approvals

open Foundation

theorem Settles.active {old new : StepStatus} (h : Settles old new) (hn : new = .active) :
    old = .active := by
  rcases h with rfl | ⟨rfl, _⟩
  · exact hn
  · rfl

/-- A part of an operation on a pending request that decides active steps at most, leaves
pending rows to steps that stay active, and takes the last voter of stale steps only. -/
theorem Sound.change {stale stale' : List ℕ} {r r' : Request} {g : ApprovalStep → ApprovalStep}
    (h : Sound stale r) (hp : r.status = .pending) (hp' : r'.status = .pending) (hk : Keyed r')
    (hsteps : r'.steps = r.steps.map g)
    (hg : ∀ s ∈ r.steps, (g s).id = s.id ∧ (g s).spec = s.spec ∧ Settles s.status (g s).status)
    (hrows : ∀ a ∈ r'.approvers, a.status = .pending →
      ∃ s ∈ r.steps, s.id = a.stepId ∧ (g s).status = .active)
    (hvote : ∀ s ∈ r.steps, s.status = .active → (g s).status = .active → s.id ∉ stale' →
      ∃ a ∈ r'.approvers, a.stepId = s.id ∧ a.status = .pending) : Sound stale' r' where
  keyed := hk
  nonempty := by
    rw [hsteps]
    exact fun hnil ↦ h.nonempty (List.map_eq_nil_iff.mp hnil)
  rows := by
    intro a ha hpa
    obtain ⟨s, hs, hid, hact⟩ := hrows a ha hpa
    rw [hsteps]
    exact ⟨g s, List.mem_map_of_mem hs, (hg s hs).1.trans hid, hact⟩
  ordered _ := by
    rw [hsteps]
    exact (h.ordered hp).map (fun s hs ↦ (hg s hs).2.1) fun s hs ↦ (hg s hs).2.2
  votable _ := by
    rw [hsteps]
    simp only [List.forall_mem_map]
    intro s hs hact hstale
    rw [(hg s hs).1] at hstale ⊢
    exact hvote s hs ((hg s hs).2.2.active hact) hact hstale
  settled hne := absurd hp' hne

theorem mem_mark_pending {r : Request} {p : Approver → Bool} {status : ApproverStatus}
    (hs : status ≠ .pending) {a : Approver} :
    a ∈ (r.mark p status).approvers ∧ a.status = .pending ↔
      a ∈ r.approvers ∧ a.status = .pending ∧ p a = false := by
  constructor
  · rintro ⟨ha, hp⟩
    obtain ⟨b, hb, rfl⟩ := List.mem_map.mp ha
    split at hp
    · exact absurd hp hs
    · rename_i hpb
      rw [if_neg hpb]
      exact ⟨hb, hp, by simpa using hpb⟩
  · rintro ⟨ha, hp, hpa⟩
    refine ⟨List.mem_map.mpr ⟨a, ha, ?_⟩, hp⟩
    rw [if_neg (by simp [hpa])]

theorem mem_dismiss_pending {r : Request} {p : Approver → Bool} {status : ApproverStatus} {now : ℕ}
    (hs : status ≠ .pending) {a : Approver} :
    a ∈ (r.dismiss p status now).approvers ∧ a.status = .pending ↔
      a ∈ r.approvers ∧ a.status = .pending ∧ p a = false := mem_mark_pending hs

theorem mem_setStatus_pending {r : Request} {approverId : ℕ} {status : ApproverStatus}
    (hs : status ≠ .pending) {a : Approver} :
    a ∈ (r.setApprover approverId fun a ↦ { a with status }).approvers ∧ a.status = .pending ↔
      a ∈ r.approvers ∧ a.status = .pending ∧ a.id ≠ approverId := by
  constructor
  · rintro ⟨ha, hp⟩
    obtain ⟨b, hb, rfl⟩ := List.mem_map.mp ha
    split at hp
    · exact absurd hp hs
    · rename_i hid
      rw [if_neg hid]
      exact ⟨hb, hp, hid⟩
  · rintro ⟨ha, hp, hid⟩
    refine ⟨List.mem_map.mpr ⟨a, ha, ?_⟩, hp⟩
    rw [if_neg hid]

section Evaluation

theorem inRule_of_regular (rows : List Approver) (fuel : ℕ) {a : Approver}
    (h : a.decisive = false) : inRule rows fuel a = true := by
  cases fuel with
  | zero => rfl
  | succ fuel => simp [inRule, h]

theorem mem_stepVoters {env : Env} {r : Request} {stepId : ℕ} {v : VoterState} :
    v ∈ stepVoters env r stepId ↔
      ∃ a ∈ r.approvers, a.stepId = stepId ∧ voterState r a = some v := by
  simp only [stepVoters, List.mem_filterMap, List.mem_insertionSort, List.mem_filter,
    decide_eq_true_eq, and_assoc]

theorem voterState_pending {r : Request} {a : Approver} {v : VoterState}
    (h : voterState r a = some v) (hv : v.status = .pending) : a.status = .pending := by
  obtain ⟨status, hstatus, rfl⟩ := Option.map_eq_some_iff.mp h
  cases hs : a.status <;> rw [hs] at hstatus <;> simp_all [ApproverStatus.voteResult]

/-- The pending answer leaves somebody to vote, unless nobody is eligible at all. -/
theorem stepVoters_wait {env : Env} {r : Request} {s : ApprovalStep}
    (h : evaluateStep s.spec.rule s.spec.quorum (stepVoters env r s.id) = .ok .pending) :
    stepVoters env r s.id = [] ∨ ∃ a ∈ r.approvers, a.stepId = s.id ∧ a.status = .pending := by
  have hin : ∀ v ∈ stepVoters env r s.id, v.decisive = false → v.inRule = true := by
    intro v hv hd
    obtain ⟨a, _, _, hvs⟩ := mem_stepVoters.mp hv
    obtain ⟨status, _, rfl⟩ := Option.map_eq_some_iff.mp hvs
    exact inRule_of_regular _ _ hd
  rcases evaluateStep_pending hin h with hnil | ⟨v, hv, hpend⟩
  · exact .inl hnil
  · obtain ⟨a, ha, hid, hvs⟩ := mem_stepVoters.mp hv
    exact .inr ⟨a, ha, hid, voterState_pending hvs hpend⟩

theorem VoteResult.outcome_result {result : VoteResult} {outcome : StepStatus}
    (h : result.outcome = some outcome) : outcome = .approved ∨ outcome = .rejected := by
  cases result <;> cases h
  · exact .inl rfl
  · exact .inr rfl

theorem VoteResult.outcome_none {result : VoteResult} (h : result.outcome = none) :
    result = .pending := by
  cases result <;> cases h
  rfl

theorem stepResult_cases {env : Env} {r : Request} {s : ApprovalStep}
    {result : Option (StepStatus × Reason)} (h : stepResult env r s = .ok result) :
    (∃ outcome reason, (outcome = .approved ∨ outcome = .rejected) ∧
      result = some (outcome, reason)) ∨
    result = none ∧ ∃ a ∈ r.approvers, a.stepId = s.id ∧ a.status = .pending := by
  obtain ⟨vote, hvote, h⟩ := bind_eq_ok.mp h
  have h := (Except.ok.inj h).symm
  cases hout : vote.outcome with
  | some outcome =>
    rw [hout] at h
    exact .inl ⟨_, _, vote.outcome_result hout, h⟩
  | none =>
    rw [hout] at h
    rw [VoteResult.outcome_none hout] at hvote
    simp only at h
    split at h
    · exact .inl ⟨_, _, noApproverStatus_result s.spec, h⟩
    · rename_i hne
      exact .inr ⟨h, (stepVoters_wait hvote).resolve_left hne⟩

end Evaluation

def recordedStep (now stepId : ℕ) (outcome : StepStatus) (reason : Reason)
    (t : ApprovalStep) : ApprovalStep :=
  if t.id = stepId then
    { t with status := outcome, reason := some reason, decidedAt := some now }
  else t

theorem closeStep_sound (env : Env) (reason : Reason) {stale : List ℕ} {s t : ApprovalStep}
    {outcome : StepStatus} {r : Request} (h : Sound (s.id :: stale) r) (hp : r.status = .pending)
    (ht : t ∈ r.steps) (hid : t.id = s.id) (hact : t.status = .active)
    (hout : outcome = .approved ∨ outcome = .rejected) :
    Sound stale (closeStep env s outcome reason r) ∧ Live (closeStep env s outcome reason r) := by
  have hkeep : ∀ u : ApprovalStep, u.id ≠ s.id → recordedStep env.moment s.id outcome reason u = u :=
    fun u hu ↦ if_neg hu
  have hdone : ∀ u : ApprovalStep, u.id = s.id →
      (recordedStep env.moment s.id outcome reason u).status = outcome := by
    intro u hu
    rw [recordedStep, if_pos hu]
  have hne : outcome ≠ .active := by
    rintro rfl
    rcases hout with h | h <;> cases h
  apply activateNextStage_sound
  have hk : Keyed ((recordOutcome env.moment s.id outcome reason r).dismiss (pendingIn s.id) .notNeeded
      env.now) := ((recordOutcome_evolves r _ _ _ _).trans (dismiss_evolves _ _
        (fun _ ha ↦ (of_decide_eq_true ha).2) id)).keyed h.keyed
  refine Sound.change (g := recordedStep env.moment s.id outcome reason) h hp hp hk rfl ?_ ?_ ?_
  · intro u hu
    by_cases hus : u.id = s.id
    · have hut : u = t := h.keyed.step_eq hu ht (hus.trans hid.symm)
      rw [recordedStep, if_pos hus]
      exact ⟨rfl, rfl, .inr ⟨hut ▸ hact, hout⟩⟩
    · rw [hkeep u hus]
      exact ⟨rfl, rfl, .inl rfl⟩
  · intro a ha hpa
    obtain ⟨ha, -, hno⟩ := (mem_dismiss_pending (by simp)).mp ⟨ha, hpa⟩
    have hother : a.stepId ≠ s.id := by
      intro he
      simp [pendingIn, he, hpa] at hno
    obtain ⟨u, hu, hua, hact'⟩ := h.rows a ha hpa
    refine ⟨u, hu, hua, ?_⟩
    rw [hkeep u (hua ▸ hother)]
    exact hact'
  · intro u hu hact' hact'' hstale
    have hus : u.id ≠ s.id := fun he ↦ hne ((hdone u he).symm.trans hact'')
    obtain ⟨a, ha, hau, hpa⟩ := h.votable hp u hu hact' (by simp [hus, hstale])
    have hmem : a ∈ ((recordOutcome env.moment s.id outcome reason r).dismiss (pendingIn s.id) .notNeeded
        env.now).approvers ∧ a.status = .pending :=
      (mem_dismiss_pending (by simp)).mpr ⟨ha, hpa, by simp [pendingIn, hau, hus]⟩
    exact ⟨a, hmem.1, hau, hpa⟩

theorem statusOf_active {r : Request} {stepId : ℕ} (h : r.statusOf stepId = some .active) :
    ∃ t ∈ r.steps, t.id = stepId ∧ t.status = .active := by
  obtain ⟨t, ht, hact⟩ := Option.map_eq_some_iff.mp h
  exact ⟨t, List.mem_of_find?_eq_some ht, by simpa using List.find?_some ht, hact⟩

theorem statusOf_of_mem {r : Request} (h : Keyed r) {t : ApprovalStep} (ht : t ∈ r.steps) :
    r.statusOf t.id = some t.status := by
  cases hf : r.steps.find? (fun s ↦ s.id = t.id) with
  | none => exact absurd (List.find?_eq_none.mp hf t ht) (by simp)
  | some u =>
    have hu : u = t := h.step_eq (List.mem_of_find?_eq_some hf) ht (by simpa using List.find?_some hf)
    rw [Request.statusOf, hf, hu]
    rfl

theorem reevaluateSteps_sound {env : Env} {ss : List ApprovalStep} {r r' : Request}
    (h : Sound (ss.map (·.id)) r) (hlive : Live r) (hr : reevaluateSteps env ss r = .ok r') :
    Sound [] r' ∧ Live r' := by
  induction ss generalizing r with
  | nil => rw [← Except.ok.inj hr]; exact ⟨h, hlive⟩
  | cons s ss ih =>
    unfold reevaluateSteps at hr
    split at hr
    · rename_i hskip
      refine ih ?_ hlive hr
      refine { h with votable := fun hp t ht hact hstale ↦ h.votable hp t ht hact ?_ }
      rw [List.map_cons, List.mem_cons, not_or]
      refine ⟨fun he ↦ ?_, hstale⟩
      rw [← he, statusOf_of_mem h.keyed ht] at hskip
      exact hskip.elim (fun hne ↦ hne hp) fun hne ↦ hne (congrArg some hact)
    · rename_i hact
      rw [not_or, not_not, not_not] at hact
      obtain ⟨hp, hact⟩ := hact
      obtain ⟨t, ht, hid, hact⟩ := statusOf_active hact
      obtain ⟨result, hresult, hr⟩ := bind_eq_ok.mp hr
      rcases stepResult_cases hresult with ⟨outcome, reason, hout, rfl⟩ | ⟨rfl, a, ha, hid', hpa⟩
      · obtain ⟨hs, hl⟩ := closeStep_sound env reason h hp ht hid hact hout
        exact ih hs hl hr
      · refine ih ?_ hlive hr
        refine { h with votable := fun hp u hu hact hstale ↦ ?_ }
        by_cases hus : u.id = s.id
        · exact ⟨a, ha, hid'.trans hus.symm, hpa⟩
        · exact h.votable hp u hu hact (by simpa [hus] using hstale)

/-- A part of an operation that leaves the steps as they are. -/
theorem Sound.voters {stale stale' : List ℕ} {r r' : Request} (h : Sound stale r)
    (hp : r.status = .pending) (hp' : r'.status = .pending) (hk : Keyed r')
    (hsteps : r'.steps = r.steps)
    (hrows : ∀ a ∈ r'.approvers, a.status = .pending →
      ∃ s ∈ r.steps, s.id = a.stepId ∧ s.status = .active)
    (hvote : ∀ s ∈ r.steps, s.status = .active → s.id ∉ stale' →
      ∃ a ∈ r'.approvers, a.stepId = s.id ∧ a.status = .pending) : Sound stale' r' := by
  refine Sound.change (g := id) h hp hp' hk (by rw [hsteps, List.map_id]) ?_ hrows ?_
  · intro s _
    exact ⟨rfl, rfl, .inl rfl⟩
  · intro s hs hact _
    exact hvote s hs hact

theorem live_of_steps {r r' : Request} (h : Live r) (hs : r'.status = r.status)
    (hsteps : r'.steps = r.steps) : Live r' := by
  intro hp
  rw [hsteps]
  exact h (hs ▸ hp)

theorem refreshStep_sound (env : Env) {stale : List ℕ} {r : Request} {s t : ApprovalStep}
    (h : Sound stale r) (hp : r.status = .pending) (ht : t ∈ r.steps) (hid : t.id = s.id)
    (hact : t.status = .active) (hstale : s.id ∈ stale) :
    Sound stale (refreshStep env r s) ∧ (refreshStep env r s).status = r.status ∧
      (refreshStep env r s).steps = r.steps := by
  have hk := (refreshStep_evolves env r s).keyed h.keyed
  unfold refreshStep refreshWith at hk ⊢
  generalize resolveStep env r s.id s.spec.approvers false = resolution at hk ⊢
  obtain ⟨new, he, -, hnew⟩ := addApprovers_eq env.moment s.id
    (resolution.approvers.filter fun x ↦ x.principal ∉ present r s.id)
    (r.dismiss (departed resolution s.id) .removed env.now)
  rw [he] at hk ⊢
  refine ⟨h.voters hp hp hk rfl ?_ ?_, rfl, rfl⟩
  · intro a ha hpa
    rcases List.mem_append.mp ha with ha | ha
    · exact h.rows a ((mem_dismiss_pending (by simp)).mp ⟨ha, hpa⟩).1 hpa
    · exact ⟨t, ht, hid.trans (hnew a ha).1.symm, hact⟩
  · intro u hu hact' hno
    obtain ⟨a, ha, hau, hpa⟩ := h.votable hp u hu hact' hno
    have hus : u.id ≠ s.id := fun he ↦ hno (he ▸ hstale)
    have hmem : a ∈ (r.dismiss (departed resolution s.id) .removed env.now).approvers ∧
        a.status = .pending :=
      (mem_dismiss_pending (by simp)).mpr ⟨ha, hpa, by simp [departed, hau, hus]⟩
    exact ⟨a, List.mem_append_left _ hmem.1, hau, hpa⟩

theorem refreshSteps_sound (env : Env) {stale : List ℕ} {ss : List ApprovalStep} {r : Request}
    (h : Sound stale r) (hp : r.status = .pending)
    (hss : ∀ s ∈ ss, s.id ∈ stale ∧ s ∈ r.steps ∧ s.status = .active) :
    Sound stale (ss.foldl (refreshStep env) r) ∧
      (ss.foldl (refreshStep env) r).status = r.status ∧
      (ss.foldl (refreshStep env) r).steps = r.steps := by
  induction ss generalizing r with
  | nil => exact ⟨h, rfl, rfl⟩
  | cons s ss ih =>
    obtain ⟨hstale, hs, hact⟩ := hss s List.mem_cons_self
    obtain ⟨hsound, hstatus, hsteps⟩ := refreshStep_sound env h hp hs rfl hact hstale
    obtain ⟨hsound', hstatus', hsteps'⟩ := ih hsound (hstatus.trans hp) fun t ht ↦
      hsteps ▸ hss t (List.mem_cons_of_mem _ ht)
    exact ⟨hsound', hstatus'.trans hstatus, hsteps'.trans hsteps⟩

theorem mem_dropRows_pending {env : Env} {r : Request} {a : Approver} :
    a ∈ (dropRows env r).approvers ∧ a.status = .pending ↔
      a ∈ r.approvers ∧ a.status = .pending ∧ gone env r .removed a = false ∧
        gone env r .notNeeded a = false := by
  unfold dropRows
  rw [mem_dismiss_pending (by simp)]
  constructor
  · rintro ⟨ha, hp, hn⟩
    obtain ⟨ha, -, hr⟩ := (mem_dismiss_pending (by simp)).mp ⟨ha, hp⟩
    exact ⟨ha, hp, hr, hn⟩
  · rintro ⟨ha, hp, hr, hn⟩
    have hmem : a ∈ (r.dismiss (gone env r .removed) .removed env.now).approvers ∧
        a.status = .pending := (mem_dismiss_pending (by simp)).mpr ⟨ha, hp, hr⟩
    exact ⟨hmem.1, hp, hn⟩

theorem gone_pending {env : Env} {r : Request} {status : ApproverStatus} {a : Approver}
    (h : gone env r status a = true) : a.status = .pending := by
  have hc := (of_decide_eq_true h).1
  exact (of_decide_eq_true hc).1

theorem dropRows_evolves (env : Env) (r : Request) : Evolves r (dropRows env r) :=
  (dismiss_evolves r _ (fun _ h ↦ gone_pending h) id).trans
    (dismiss_evolves _ _ (fun _ h ↦ gone_pending h) id)

theorem dropRows_sound {env : Env} {r : Request} (h : Sound [] r) (hp : r.status = .pending) :
    Sound ((touchedSteps env r).map (·.id)) (dropRows env r) := by
  refine h.voters hp (by simpa [dropRows] using hp) ((dropRows_evolves env r).keyed h.keyed)
    (by simp [dropRows]) ?_ ?_
  · intro a ha hpa
    exact h.rows a (mem_dropRows_pending.mp ⟨ha, hpa⟩).1 hpa
  · intro s hs hact hno
    obtain ⟨a, ha, hid, hpa⟩ := h.votable hp s hs hact (by simp)
    have hstay : ¬ (gone env r .removed a = true ∨ gone env r .notNeeded a = true) := by
      intro hgone
      apply hno
      refine List.mem_map_of_mem (List.mem_filter.mpr ⟨?_, ?_⟩)
      · exact List.mem_filter.mpr ⟨hs, decide_eq_true hact⟩
      · refine List.any_eq_true.mpr ⟨a, ?_, decide_eq_true hid⟩
        exact List.mem_filter.mpr ⟨ha, decide_eq_true hgone⟩
    rw [not_or, Bool.not_eq_true, Bool.not_eq_true] at hstay
    exact ⟨a, (mem_dropRows_pending.mpr ⟨ha, hpa, hstay⟩).1, hid, hpa⟩

/-- Rows keep their step and status, and new ones belong to an active step. -/
theorem Sound.extend {stale : List ℕ} {r r' : Request} {t : ApprovalStep} (h : Sound stale r)
    (f : Approver → Approver) (new : List Approver) (hp : r.status = .pending)
    (hp' : r'.status = .pending) (hk : Keyed r') (hsteps : r'.steps = r.steps)
    (ha : r'.approvers = r.approvers.map f ++ new)
    (hf : ∀ a, (f a).stepId = a.stepId ∧ (f a).status = a.status) (ht : t ∈ r.steps)
    (hact : t.status = .active) (hnew : ∀ a ∈ new, a.stepId = t.id) : Sound stale r' := by
  refine h.voters hp hp' hk hsteps ?_ ?_
  · intro a hmem hpa
    rw [ha] at hmem
    rcases List.mem_append.mp hmem with hmem | hmem
    · obtain ⟨b, hb, rfl⟩ := List.mem_map.mp hmem
      rw [(hf b).1]
      exact h.rows b hb ((hf b).2 ▸ hpa)
    · exact ⟨t, ht, (hnew a hmem).symm, hact⟩
  · intro s hs hact' hno
    obtain ⟨a, hmem, hid, hpa⟩ := h.votable hp s hs hact' hno
    rw [ha]
    exact ⟨f a, List.mem_append_left _ (List.mem_map_of_mem hmem), (hf a).1.trans hid,
      (hf a).2.trans hpa⟩

def decisiveRow (approverId : ℕ) (value : Bool) (a : Approver) : Approver :=
  if a.id = approverId then { a with decisive := value } else a

theorem decisiveRow_keeps (approverId : ℕ) (value : Bool) (a : Approver) :
    (decisiveRow approverId value a).stepId = a.stepId ∧
      (decisiveRow approverId value a).status = a.status := by
  unfold decisiveRow
  split <;> exact ⟨rfl, rfl⟩

theorem escalateTo_sound (env : Env) {stale : List ℕ} {r : Request} {t : ApprovalStep}
    (x : ResolvedApprover) (h : Sound stale r) (hp : r.status = .pending) (ht : t ∈ r.steps)
    (hact : t.status = .active) : Sound stale (escalateTo env t.id r x) ∧
      (escalateTo env t.id r x).status = r.status ∧ (escalateTo env t.id r x).steps = r.steps := by
  have hk := (escalateTo_evolves env r t.id x).keyed h.keyed
  unfold escalateTo at hk ⊢
  split
  · exact ⟨h, rfl, rfl⟩
  · rename_i hv
    rw [if_neg hv] at hk
    split
    · rename_i a ha
      rw [ha] at hk
      dsimp only at hk
      split
      · rename_i hpa
        rw [if_pos hpa] at hk
        refine ⟨h.extend (decisiveRow a.id true) [] hp hp hk rfl ?_ (decisiveRow_keeps a.id true)
          ht hact (by simp), rfl, rfl⟩
        rw [List.append_nil]
        rfl
      · exact ⟨h, rfl, rfl⟩
    · rename_i hnone
      rw [hnone] at hk
      refine ⟨h.extend (decisiveRow r.nextApprover true) [decisiveRow r.nextApprover true
          ⟨r.nextApprover, t.id, x.principal, x.source, false, .pending, env.moment⟩] hp hp hk rfl ?_
          (decisiveRow_keeps r.nextApprover true) ht hact ?_, rfl, rfl⟩
      · exact List.map_append
      · intro a ha
        rw [List.mem_singleton.mp ha]
        exact (decisiveRow_keeps _ _ _).1

theorem escalateAll_sound (env : Env) (xs : List ResolvedApprover) {stale : List ℕ} {r : Request}
    {t : ApprovalStep} (h : Sound stale r) (hp : r.status = .pending) (ht : t ∈ r.steps)
    (hact : t.status = .active) : Sound stale (xs.foldl (escalateTo env t.id) r) ∧
      (xs.foldl (escalateTo env t.id) r).status = r.status ∧
      (xs.foldl (escalateTo env t.id) r).steps = r.steps := by
  induction xs generalizing r with
  | nil => exact ⟨h, rfl, rfl⟩
  | cons x xs ih =>
    obtain ⟨hs, hstatus, hsteps⟩ := escalateTo_sound env x h hp ht hact
    obtain ⟨hs', hstatus', hsteps'⟩ := ih hs (hstatus.trans hp) (hsteps ▸ ht)
    exact ⟨hs', hstatus'.trans hstatus, hsteps'.trans hsteps⟩

theorem Sound.retimes {stale : List ℕ} {r : Request} {f : ApprovalStep → ApprovalStep}
    {links : List Link} (h : Sound stale r) (hp : r.status = .pending) (hf : Retimes f) :
    Sound stale { r with steps := r.steps.map f, links := links } := by
  have hk : Keyed { r with steps := r.steps.map f, links := links } := by
    refine h.keyed.of_eq ?_ rfl rfl
    rw [List.map_map]
    exact List.map_congr_left fun s _ ↦ (hf s).1
  refine Sound.change (g := f) h hp hp hk rfl ?_ ?_ ?_
  · intro s _
    exact ⟨(hf s).1, (hf s).2.1, .inl (hf s).2.2⟩
  · intro a ha hpa
    obtain ⟨s, hs, hid, hact⟩ := h.rows a ha hpa
    exact ⟨s, hs, hid, (hf s).2.2.trans hact⟩
  · intro s hs hact _ hno
    exact h.votable hp s hs hact hno

theorem live_retimes {r : Request} {f : ApprovalStep → ApprovalStep} {links : List Link}
    (h : Live r) (hf : Retimes f) : Live { r with steps := r.steps.map f, links := links } := by
  intro hp
  obtain ⟨s, hs, hact⟩ := h hp
  exact ⟨f s, List.mem_map_of_mem hs, (hf s).2.2.trans hact⟩

theorem markOverdue_sound (env : Env) (stepId : ℕ) {stale : List ℕ} {r : Request}
    (h : Sound stale r) (hlive : Live r) (hp : r.status = .pending) :
    Sound stale (markOverdue env stepId r) ∧ Live (markOverdue env stepId r) := by
  obtain ⟨g, hg, he⟩ : ∃ g, Retimes g ∧
      markOverdue env stepId r = { r with steps := r.steps.map g } :=
    setStep_retimes fun _ ↦ ⟨rfl, rfl, rfl⟩
  rw [he]
  exact ⟨h.retimes hp hg, live_retimes hlive hg⟩

theorem mem_markOverdue (env : Env) {r : Request} {s : ApprovalStep} (hs : s ∈ r.steps)
    (hact : s.status = .active) :
    ∃ t ∈ (markOverdue env s.id r).steps, t.id = s.id ∧ t.status = .active := by
  refine ⟨{ s with overdueAt := some env.moment }, List.mem_map.mpr ⟨s, hs, ?_⟩, rfl, hact⟩
  rw [if_pos rfl]

theorem mem_castVote_pending {env : Env} {v : Vote} {tokenId : Option ℕ} {r : Request}
    {a : Approver} : a ∈ (castVote env v tokenId r).approvers ∧ a.status = .pending ↔
      a ∈ r.approvers ∧ a.status = .pending ∧ a.id ≠ v.approverId ∧
        ownPending v.stepId v.decidedBy a = false := by
  have hvoted : v.decision.status ≠ .pending := by cases v.decision <;> simp [Decision.status]
  unfold castVote
  rw [mem_dismiss_pending (by simp)]
  constructor
  · rintro ⟨ha, hp, hown⟩
    obtain ⟨ha, -, hid⟩ := (mem_setStatus_pending hvoted).mp ⟨ha, hp⟩
    exact ⟨ha, hp, hid, hown⟩
  · rintro ⟨ha, hp, hid, hown⟩
    exact ⟨((mem_setStatus_pending hvoted).mpr ⟨ha, hp, hid⟩).1, hp, hown⟩

@[simp] theorem castVote_status (env : Env) (v : Vote) (tokenId : Option ℕ) (r : Request) :
    (castVote env v tokenId r).status = r.status := by
  simp [castVote, recordVote]

@[simp] theorem castVote_steps (env : Env) (v : Vote) (tokenId : Option ℕ) (r : Request) :
    (castVote env v tokenId r).steps = r.steps := by
  simp [castVote, recordVote]

@[simp] theorem markOverdue_status (env : Env) (stepId : ℕ) (r : Request) :
    (markOverdue env stepId r).status = r.status := rfl

theorem castVote_sound (env : Env) (tokenId : Option ℕ) {v : Vote} {r : Request} {row : Approver}
    (h : Sound [] r) (hp : r.status = .pending) (hrow : row ∈ r.approvers)
    (hv : v.approverId = row.id) (hvs : v.stepId = row.stepId) :
    Sound [row.stepId] (castVote env v tokenId r) := by
  refine h.voters hp (by simpa using hp) (h.keyed.castVote env v tokenId) (by simp) ?_ ?_
  · intro a ha hpa
    exact h.rows a (mem_castVote_pending.mp ⟨ha, hpa⟩).1 hpa
  · intro s hs hact hno
    obtain ⟨a, ha, hid, hpa⟩ := h.votable hp s hs hact (by simp)
    have hother : a.stepId ≠ row.stepId := by
      rw [hid]
      simpa using hno
    have hne : a.id ≠ v.approverId := by
      intro he
      exact hother (congrArg (·.stepId) (h.keyed.approver_eq ha hrow (he.trans hv)))
    exact ⟨a, (mem_castVote_pending.mpr ⟨ha, hpa, hne, by simp [ownPending, hvs, hother]⟩).1, hid,
      hpa⟩

theorem castVote_voted {env : Env} {v : Vote} {tokenId : Option ℕ} {r : Request} {row : Approver}
    (hrow : row ∈ r.approvers) (hv : v.approverId = row.id) :
    { row with status := v.decision.status } ∈ (castVote env v tokenId r).approvers := by
  have hrec : { row with status := v.decision.status } ∈ (recordVote v r).approvers :=
    List.mem_map.mpr ⟨row, hrow, by rw [if_pos hv.symm]⟩
  refine List.mem_map.mpr ⟨_, hrec, ?_⟩
  rw [if_neg]
  intro hown
  have hp := (of_decide_eq_true hown).2.1
  cases hd : v.decision <;> rw [hd] at hp <;> cases hp

/-- The step of a vote keeps an eligible voter: the one who just voted. -/
theorem stepVoters_castVote (env : Env) (tokenId : Option ℕ) {v : Vote} {r : Request} {row : Approver} (hrow : row ∈ r.approvers) (hv : v.approverId = row.id) :
    stepVoters env (castVote env v tokenId r) row.stepId ≠ [] := by
  obtain ⟨status, hstatus⟩ : ∃ x, v.decision.status.voteResult = some x := by
    cases v.decision
    · exact ⟨_, rfl⟩
    · exact ⟨_, rfl⟩
  have hmem : (⟨status, row.decisive, inRule (castVote env v tokenId r).approvers
      (castVote env v tokenId r).approvers.length
        { row with status := v.decision.status }⟩ : VoterState) ∈
      stepVoters env (castVote env v tokenId r) row.stepId := by
    refine mem_stepVoters.mpr ⟨_, castVote_voted hrow hv, rfl, ?_⟩
    rw [voterState, hstatus]
    rfl
  exact List.ne_nil_of_mem hmem

theorem applyVote_sound {env : Env} {s : ApprovalStep} {v : Vote} {tokenId : Option ℕ}
    {r r' : Request} {row : Approver} (h : Sound [] r) (hlive : Live r) (hp : r.status = .pending)
    (hrow : row ∈ r.approvers) (hv : v.approverId = row.id) (hvs : v.stepId = row.stepId)
    (hs : s.id = row.stepId) (hact : ∃ t ∈ r.steps, t.id = row.stepId ∧ t.status = .active)
    (hr : applyVote env s v tokenId r = .ok r') : Sound [] r' ∧ Live r' := by
  have hcast := castVote_sound env tokenId h hp hrow hv hvs
  obtain ⟨result, hresult, ⟨rfl, rfl⟩ | ⟨outcome, hout, rfl⟩⟩ := applyVote_cases hr
  · refine ⟨{ hcast with votable := fun _ t ht hta _ ↦ ?_ },
      live_of_steps hlive (castVote_status ..) (castVote_steps ..)⟩
    by_cases hts : t.id = s.id
    · have hne := stepVoters_castVote env tokenId hrow hv
      rw [← hs] at hne
      obtain ⟨a, ha, hid, hpa⟩ := (stepVoters_wait hresult).resolve_left hne
      exact ⟨a, ha, hid.trans hts.symm, hpa⟩
    · exact hcast.votable (by simpa using hp) t ht hta (by simpa [← hs] using hts)
  · obtain ⟨t, ht, hid, hta⟩ := hact
    rw [← hs] at hcast hid
    rw [← castVote_steps env v tokenId r] at ht
    rw [← castVote_status env v tokenId r] at hp
    exact closeStep_sound env _ hcast hp ht hid hta hout

def forwardedRow (row a : Approver) : Approver :=
  if a.id = row.id then { a with status := .forwarded } else a

def takenRow (env : Env) (r : Request) (row : Approver) (target : Principal) : Approver :=
  ⟨r.nextApprover, row.stepId, target, .forward row.id, row.decisive, .pending, env.now⟩

theorem handOver_approvers (env : Env) (target : Principal) {r : Request} {row : Approver}
    (hk : Keyed r) (hrow : row ∈ r.approvers) : (handOver env row target r).approvers =
      r.approvers.map (forwardedRow row) ++ [takenRow env r row target] := by
  have hfresh := hk.fresh row hrow
  have hold : (r.approvers.map fun a ↦
      if a.id = r.nextApprover then { a with decisive := row.decisive } else a) = r.approvers := by
    conv_rhs => rw [← List.map_id r.approvers]
    apply List.map_congr_left
    intro a ha
    have hlt := hk.fresh a ha
    rw [if_neg (by omega)]
    rfl
  unfold handOver
  simp only [Request.revokeLinks, Request.setApprover, Request.addApprover, List.map_append,
    hold, List.map_cons, List.map_nil, if_true]
  rw [if_neg (by omega)]
  rfl

@[simp] theorem handOver_status (env : Env) (row : Approver) (target : Principal) (r : Request) :
    (handOver env row target r).status = r.status := by
  simp [handOver]

@[simp] theorem handOver_steps (env : Env) (row : Approver) (target : Principal) (r : Request) :
    (handOver env row target r).steps = r.steps := by
  simp [handOver]

theorem handOver_sound {env : Env} {r : Request} {row : Approver} {s : ApprovalStep}
    {target : Principal} (h : Sound [] r) (hpass : Forwardable env r row s target) :
    Sound [] (handOver env row target r) := by
  have hp := hpass.pendingRequest
  have happ := handOver_approvers env target h.keyed hpass.mem
  have hs : s ∈ r.steps := List.mem_of_find?_eq_some hpass.step
  have hsid : s.id = row.stepId := by simpa using List.find?_some hpass.step
  refine h.voters hp (by simpa using hp) (h.keyed.handOver env row target) (by simp) ?_ ?_
  · intro a ha hpa
    rw [happ] at ha
    rcases List.mem_append.mp ha with ha | ha
    · obtain ⟨b, hb, rfl⟩ := List.mem_map.mp ha
      unfold forwardedRow at hpa ⊢
      split at hpa
      · cases hpa
      · rename_i hid
        rw [if_neg hid]
        exact h.rows b hb hpa
    · rw [List.mem_singleton.mp ha]
      exact ⟨s, hs, hsid, hpass.active⟩
  · intro t ht hact _
    rw [happ]
    by_cases hts : t.id = row.stepId
    · exact ⟨_, List.mem_append_right _ (List.mem_singleton_self _), hts.symm, rfl⟩
    · obtain ⟨a, ha, hid, hpa⟩ := h.votable hp t ht hact (by simp)
      refine ⟨a, List.mem_append_left _ (List.mem_map.mpr ⟨a, ha, ?_⟩), hid, hpa⟩
      rw [forwardedRow, if_neg]
      intro he
      rw [h.keyed.approver_eq ha hpass.mem he] at hid
      exact hts hid.symm

theorem Sound.of_links {stale : List ℕ} {r : Request} (h : Sound stale r) (hp : r.status = .pending)
    (links : List Link) (next : ℕ) : Sound stale { r with links := links, nextLink := next } :=
  h.voters hp hp (h.keyed.of_eq rfl rfl rfl) rfl h.rows fun s hs hact hno ↦
    h.votable hp s hs hact hno

/-- The invariant between operations. -/
def Invariant (r : Request) : Prop := Sound [] r ∧ Live r

theorem Change.invariant {env : Env} {r r' : Request} (hc : Change env r r')
    (hp : r.status = .pending) (h : Invariant r) : Invariant r' := by
  obtain ⟨h, hlive⟩ := h
  cases hc with
  | @votes links _ _ row s _ _ _ _ _ cast apply =>
    have hl : Sound [] { r with links := links } := h.of_links hp links r.nextLink
    have hsid : s.id = row.stepId := by simpa using List.find?_some cast.step
    exact applyVote_sound hl hlive hp cast.mem rfl rfl hsid cast.active apply
  | links links next => exact ⟨h.of_links hp links next, hlive⟩
  | forwards pass =>
    exact ⟨handOver_sound h pass, live_of_steps hlive (handOver_status ..) (handOver_steps ..)⟩
  | refreshes again =>
    have hs : Sound (r.activeSteps.map (·.id)) r := h.mono (by simp)
    obtain ⟨hs, hstatus, hsteps⟩ := refreshSteps_sound env hs hp fun s hs ↦
      ⟨List.mem_map_of_mem hs, List.mem_of_mem_filter hs,
        of_decide_eq_true (List.mem_filter.mp hs).2⟩
    exact reevaluateSteps_sound hs (live_of_steps hlive hstatus hsteps) again
  | closes successor reason =>
    have hs : Sound [] { r with supersededBy := successor } :=
      h.voters hp hp (h.keyed.of_eq rfl rfl rfl) rfl h.rows fun s hs hact hno ↦
        h.votable hp s hs hact hno
    exact ⟨finalize_sound hs (by simp) (by simp) (by simp),
      live_of_closed (by simp [finalize, Request.revokeApprovalLinks])⟩
  | retimes links same => exact ⟨h.retimes hp same, live_retimes hlive same⟩
  | @escalates s mem active =>
    obtain ⟨hs, hl⟩ := markOverdue_sound env s.id h hlive hp
    obtain ⟨t, ht, hid, hact⟩ := mem_markOverdue env mem active
    obtain ⟨hs', hstatus, hsteps⟩ := escalateAll_sound env
      (resolveStep env (markOverdue env s.id r) s.id s.spec.escalation true).approvers hs hp ht hact
    rw [hid] at hs' hstatus hsteps
    exact ⟨hs', live_of_steps hl hstatus hsteps⟩
  | timesOut mem active decided =>
    obtain ⟨hs, _⟩ := markOverdue_sound env _ h hlive hp
    obtain ⟨t, ht, hid, hact⟩ := mem_markOverdue env mem active
    exact closeStep_sound env _ (hs.mono (by simp)) hp ht hid hact decided
  | drops again => exact reevaluateSteps_sound (dropRows_sound h hp) hlive again

theorem forwardedRow_aging {row : Approver} (hrow : row.status = .pending) {r : Request}
    (hk : Keyed r) (hmem : row ∈ r.approvers) {a : Approver} (ha : a ∈ r.approvers) :
    Aging a (forwardedRow row a) := by
  unfold forwardedRow
  split
  · rename_i hid
    rw [hk.approver_eq ha hmem hid]
    exact ⟨rfl, rfl, rfl, rfl, .inr ⟨hrow, id⟩⟩
  · exact Aging.refl a

theorem handOver_evolves {env : Env} {r : Request} {row : Approver} {s : ApprovalStep}
    {target : Principal} (hk : Keyed r) (hpass : Forwardable env r row s target) :
    Evolves r (handOver env row target r) := by
  refine ⟨rfl, rfl, rfl, rfl, rfl, rfl, Nat.le_succ _, by simp, _, _,
    handOver_approvers env target hk hpass.mem,
    fun a ha ↦ forwardedRow_aging hpass.pending hk hpass.mem ha, by simp, ?_⟩
  intro a ha
  rw [List.mem_singleton.mp ha]
  exact ⟨id, le_rfl, Nat.lt_succ_self _⟩

theorem retimes_evolves {r : Request} {f : ApprovalStep → ApprovalStep} (links : List Link)
    (hf : Retimes f) : Evolves r { r with steps := r.steps.map f, links := links } := by
  refine .of_map id (fun a _ ↦ Aging.refl a) (by simp) rfl ?_ rfl rfl rfl rfl rfl rfl
  rw [List.map_map]
  apply List.map_congr_left
  intro s _
  simp only [Function.comp_apply, (hf s).1, (hf s).2.1]

theorem applyVote_evolves {env : Env} {s : ApprovalStep} {v : Vote} {tokenId : Option ℕ}
    {r r' : Request} (h : applyVote env s v tokenId r = .ok r') :
    Evolves (castVote env v tokenId r) r' := by
  obtain ⟨_, _, ⟨_, rfl⟩ | ⟨outcome, _, rfl⟩⟩ := applyVote_cases h
  · exact .refl _
  · exact closeStep_evolves env _ _ _ _

theorem links_evolves (r : Request) (links : List Link) (next : ℕ) :
    Evolves r { r with links := links, nextLink := next } :=
  .of_map id (fun a _ ↦ Aging.refl a) (by simp) rfl rfl rfl rfl rfl rfl rfl rfl

/-- Every change is an evolution but for a vote, which is cast first. -/
theorem Change.evolves {env : Env} {r r' : Request} (hc : Change env r r') (hk : Keyed r) :
    Evolves r r' ∨ ∃ links principal key row s decision channel comment tokenId,
      Castable env { r with links := links } principal key row s ∧
      Evolves (castVote env (newVote env row key decision channel comment
        { r with links := links }) tokenId { r with links := links }) r' := by
  cases hc with
  | @votes links principal key row s decision channel comment tokenId _ cast apply =>
    exact .inr ⟨links, principal, key, row, s, decision, channel, comment, tokenId, cast,
      applyVote_evolves apply⟩
  | links links next => exact .inl (links_evolves r links next)
  | forwards pass => exact .inl (handOver_evolves hk pass)
  | refreshes again =>
    exact .inl ((foldl_evolves r (refreshStep_evolves env) _).trans
      (reevaluateSteps_evolves env again))
  | closes successor reason =>
    have hev : Evolves r { r with supersededBy := successor } :=
      .of_map id (fun a _ ↦ Aging.refl a) (by simp) rfl rfl rfl rfl rfl rfl rfl rfl
    exact .inl (hev.trans (finalize_evolves env _ _ _))
  | retimes links same => exact .inl (retimes_evolves links same)
  | escalates mem active =>
    exact .inl ((markOverdue_evolves env r _).trans (escalate_evolves env _ _))
  | timesOut mem active decided =>
    exact .inl ((markOverdue_evolves env r _).trans (closeStep_evolves env _ _ _ _))
  | drops again =>
    exact .inl ((dropRows_evolves env r).trans (reevaluateSteps_evolves env again))

theorem castVote_subjectType (env : Env) (v : Vote) (tokenId : Option ℕ) (r : Request) :
    (castVote env v tokenId r).subjectType = r.subjectType := by
  simp [castVote, Request.dismiss, Request.mark, Request.revokeLinks, recordVote,
    Request.setApprover]

theorem Operation.run_subjectType {env : Env} {r r' : Request} {op : Operation} (hk : Keyed r)
    (h : op.run env r = some r') : r'.subjectType = r.subjectType := by
  rcases (Operation.run_cases h).2.evolves hk with hev | ⟨_, _, _, _, _, _, _, _, _, _, hev⟩
  · exact hev.subjectType
  · exact hev.subjectType.trans (castVote_subjectType ..)

end Tiqora.Approvals
