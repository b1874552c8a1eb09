import Tiqora.Approvals.Evolution

namespace Tiqora.Approvals

open Foundation

theorem addApprovers_eq (now stepId : ℕ) (found : List ResolvedApprover) (r : Request) :
    ∃ new : List Approver, addApprovers now stepId found r =
        { r with approvers := r.approvers ++ new, nextApprover := r.nextApprover + found.length } ∧
      new.length = found.length ∧ ∀ a ∈ new, a.stepId = stepId ∧ a.status = .pending := by
  induction found generalizing r with
  | nil => exact ⟨[], by simp [addApprovers], rfl, by simp⟩
  | cons x found ih =>
    obtain ⟨new, he, hlen, hnew⟩ := ih (r.addApprover stepId x now)
    refine ⟨⟨r.nextApprover, stepId, x.principal, x.source, false, .pending, now⟩ :: new,
      ?_, by simp [hlen], ?_⟩
    · rw [addApprovers, List.foldl_cons]
      rw [addApprovers] at he
      rw [he]
      simp only [Request.addApprover, List.append_assoc, List.singleton_append, List.length_cons]
      congr 1
      omega
    · intro a ha
      rcases List.mem_cons.mp ha with rfl | ha
      · exact ⟨rfl, rfl⟩
      · exact hnew a ha

/-- What activating the steps with these keys does: each is active with somebody to vote, or has
its result at once. -/
structure Activated (now : ℕ) (todo : List ℕ) (r r' : Request) (g : ApprovalStep → ApprovalStep)
    (new : List Approver) : Prop where
  status : r'.status = r.status
  steps : r'.steps = r.steps.map g
  approvers : r'.approvers = r.approvers ++ new
  keeps : ∀ s, (g s).id = s.id ∧ (g s).spec = s.spec
  others : ∀ s, s.id ∉ todo → g s = s
  entered : ∀ s, s.id ∈ todo →
    (g s).status = .active ∨ (g s).status = .approved ∨ (g s).status = .rejected
  times : ∀ s, s.id ∈ todo → (g s).activatedAt = some now ∧ (g s).overdueAt = s.overdueAt
  rows : ∀ a ∈ new, a.status = .pending ∧ a.stepId ∈ todo ∧
    ∀ s, s.id = a.stepId → (g s).status = .active
  voters : ∀ s, s.id ∈ todo → (g s).status = .active → ∃ a ∈ new, a.stepId = s.id

theorem Activated.nil (now : ℕ) (r : Request) : Activated now [] r r id [] where
  status := rfl
  steps := by simp
  approvers := by simp
  keeps _ := ⟨rfl, rfl⟩
  others _ _ := rfl
  entered _ hs := by simp at hs
  times _ hs := by simp at hs
  rows _ ha := by simp at ha
  voters _ hs := by simp at hs

theorem Activated.other {now id : ℕ} {r r' : Request} {g : ApprovalStep → ApprovalStep}
    {new : List Approver} (h : Activated now [id] r r' g new) {s : ApprovalStep} (hs : s.id ≠ id) :
    g s = s := h.others s (by simpa using hs)

theorem Activated.cons {now id : ℕ} {todo : List ℕ} {r r' r'' : Request}
    {g h : ApprovalStep → ApprovalStep} {new new' : List Approver} (hid : id ∉ todo)
    (hg : Activated now [id] r r' g new) (hh : Activated now todo r' r'' h new') :
    Activated now (id :: todo) r r'' (h ∘ g) (new ++ new') := by
  have hhead : ∀ s, s.id = id → h (g s) = g s := fun s hs ↦
    hh.others (g s) (by rwa [(hg.keeps s).1, hs])
  constructor
  · exact hh.status.trans hg.status
  · rw [hh.steps, hg.steps, List.map_map]
  · rw [hh.approvers, hg.approvers, List.append_assoc]
  · intro s
    exact ⟨(hh.keeps (g s)).1.trans (hg.keeps s).1, (hh.keeps (g s)).2.trans (hg.keeps s).2⟩
  · intro s hs
    rw [List.mem_cons, not_or] at hs
    rw [Function.comp_apply, hg.other hs.1, hh.others s hs.2]
  · intro s hs
    by_cases hsid : s.id = id
    · rw [Function.comp_apply, hhead s hsid]
      exact hg.entered s (by simp [hsid])
    · rw [Function.comp_apply, hg.other hsid]
      exact hh.entered s ((List.mem_cons.mp hs).resolve_left hsid)
  · intro s hs
    by_cases hsid : s.id = id
    · rw [Function.comp_apply, hhead s hsid]
      exact hg.times s (by simp [hsid])
    · rw [Function.comp_apply, hg.other hsid]
      exact hh.times s ((List.mem_cons.mp hs).resolve_left hsid)
  · intro a ha
    rcases List.mem_append.mp ha with ha | ha
    · obtain ⟨hp, hmem, hact⟩ := hg.rows a ha
      refine ⟨hp, by simp [List.mem_singleton.mp hmem], fun s hs ↦ ?_⟩
      rw [Function.comp_apply, hhead s (hs.trans (List.mem_singleton.mp hmem))]
      exact hact s hs
    · obtain ⟨hp, hmem, hact⟩ := hh.rows a ha
      refine ⟨hp, List.mem_cons_of_mem _ hmem, fun s hs ↦ ?_⟩
      have hsid : s.id ≠ id := fun he ↦ hid (he ▸ hs ▸ hmem)
      rw [Function.comp_apply, hg.other hsid]
      exact hact s hs
  · intro s hs hact
    by_cases hsid : s.id = id
    · rw [Function.comp_apply, hhead s hsid] at hact
      obtain ⟨a, ha, he⟩ := hg.voters s (by simp [hsid]) hact
      exact ⟨a, List.mem_append_left _ ha, he⟩
    · rw [Function.comp_apply, hg.other hsid] at hact
      obtain ⟨a, ha, he⟩ := hh.voters s ((List.mem_cons.mp hs).resolve_left hsid) hact
      exact ⟨a, List.mem_append_right _ ha, he⟩

theorem noApproverStatus_result (spec : StepSpec) :
    noApproverStatus spec = .approved ∨ noApproverStatus spec = .rejected := by
  unfold noApproverStatus
  cases spec.onNoApprover
  · exact .inr rfl
  · exact .inl rfl

def startedStep (env : Env) (s t : ApprovalStep) : ApprovalStep :=
  if t.id = s.id then
    { t with status := .active, activatedAt := some env.now, dueAt := dueAt env s.spec }
  else t

def endedStep (env : Env) (s t : ApprovalStep) : ApprovalStep :=
  if t.id = s.id then
    { t with status := noApproverStatus s.spec, reason := some .noApprovers,
             decidedAt := some env.now }
  else t

theorem startedStep_keeps (env : Env) (s t : ApprovalStep) :
    (startedStep env s t).id = t.id ∧ (startedStep env s t).spec = t.spec := by
  unfold startedStep
  split <;> exact ⟨rfl, rfl⟩

theorem endedStep_keeps (env : Env) (s t : ApprovalStep) :
    (endedStep env s t).id = t.id ∧ (endedStep env s t).spec = t.spec := by
  unfold endedStep
  split <;> exact ⟨rfl, rfl⟩

theorem startedStep_times (env : Env) {s t : ApprovalStep} (h : t.id = s.id) :
    (startedStep env s t).activatedAt = some env.now ∧
      (startedStep env s t).overdueAt = t.overdueAt := by
  rw [startedStep, if_pos h]
  exact ⟨rfl, rfl⟩

theorem endedStep_times (env : Env) (s t : ApprovalStep) :
    (endedStep env s t).activatedAt = t.activatedAt ∧
      (endedStep env s t).overdueAt = t.overdueAt := by
  unfold endedStep
  split <;> exact ⟨rfl, rfl⟩

theorem activateWith_activated (env : Env) (s : ApprovalStep) (found : List ResolvedApprover)
    (r : Request) : ∃ g new, Activated env.now [s.id] r (activateWith env s found r) g new := by
  unfold activateWith
  split
  · rename_i hdec
    have hfound : found.length ≠ 0 := by
      intro hz
      simp [decidable, hz] at hdec
    obtain ⟨new, he, hlen, hnew⟩ := addApprovers_eq env.now s.id found (startStep env s r)
    have hact : ∀ t : ApprovalStep, t.id = s.id → (startedStep env s t).status = .active := by
      intro t ht
      rw [startedStep, if_pos ht]
    refine ⟨startedStep env s, new, ?_⟩
    rw [he]
    constructor
    · rfl
    · rfl
    · rfl
    · exact startedStep_keeps env s
    · intro t ht
      rw [startedStep, if_neg (by simpa using ht)]
    · intro t ht
      exact .inl (hact t (List.mem_singleton.mp ht))
    · intro t ht
      exact startedStep_times env (List.mem_singleton.mp ht)
    · intro a ha
      obtain ⟨hid, hp⟩ := hnew a ha
      exact ⟨hp, by simp [hid], fun t ht ↦ hact t (ht.trans hid)⟩
    · intro t ht _
      obtain ⟨a, ha⟩ := List.exists_mem_of_length_pos (by omega : 0 < new.length)
      exact ⟨a, ha, (hnew a ha).1.trans (List.mem_singleton.mp ht).symm⟩
  · have hout : ∀ t : ApprovalStep, t.id = s.id →
        (endedStep env s (startedStep env s t)).status = noApproverStatus s.spec := by
      intro t ht
      rw [endedStep, if_pos ((startedStep_keeps env s t).1.trans ht)]
    refine ⟨endedStep env s ∘ startedStep env s, [], ?_⟩
    constructor
    · rfl
    · rw [← List.map_map]; rfl
    · rw [List.append_nil]; rfl
    · intro t
      obtain ⟨h₁, h₂⟩ := startedStep_keeps env s t
      obtain ⟨h₃, h₄⟩ := endedStep_keeps env s (startedStep env s t)
      exact ⟨h₃.trans h₁, h₄.trans h₂⟩
    · intro t ht
      have hne : t.id ≠ s.id := by simpa using ht
      rw [Function.comp_apply, startedStep, if_neg hne, endedStep, if_neg hne]
    · intro t ht
      rw [Function.comp_apply, hout t (List.mem_singleton.mp ht)]
      exact .inr (noApproverStatus_result s.spec)
    · intro t ht
      obtain ⟨h₁, h₂⟩ := startedStep_times env (List.mem_singleton.mp ht)
      obtain ⟨h₃, h₄⟩ := endedStep_times env s (startedStep env s t)
      exact ⟨h₃.trans h₁, h₄.trans h₂⟩
    · intro a ha
      cases ha
    · intro t ht hact
      rw [Function.comp_apply, hout t (List.mem_singleton.mp ht)] at hact
      rcases noApproverStatus_result s.spec with he | he <;> rw [he] at hact <;> cases hact

theorem activateSteps_activated (env : Env) {todo : List ApprovalStep} (r : Request)
    (hnd : (todo.map (·.id)).Nodup) :
    ∃ g new, Activated env.now (todo.map (·.id)) r (todo.foldl (activateStep env) r) g new := by
  induction todo generalizing r with
  | nil => exact ⟨_, _, .nil env.now r⟩
  | cons s todo ih =>
    rw [List.map_cons, List.nodup_cons] at hnd
    obtain ⟨g, new, hg⟩ := activateWith_activated env s
      (resolveStep env r s.id s.spec.approvers false).approvers r
    obtain ⟨h, new', hh⟩ := ih (activateStep env r s) hnd.2
    exact ⟨_, _, hg.cons hnd.1 hh⟩

def stageSteps (r : Request) (stage : ℕ) : List ApprovalStep :=
  r.steps.filter fun s ↦ s.spec.stage = stage ∧ s.status = .waiting

theorem stageSteps_nodup {r : Request} (h : Keyed r) (stage : ℕ) :
    ((stageSteps r stage).map (·.id)).Nodup :=
  h.steps.sublist (List.filter_sublist.map _)

theorem mem_stageSteps {r : Request} (h : Keyed r) {stage : ℕ} {s : ApprovalStep}
    (hs : s ∈ r.steps) : s.id ∈ (stageSteps r stage).map (·.id) ↔
      s.spec.stage = stage ∧ s.status = .waiting := by
  constructor
  · intro hmem
    obtain ⟨t, ht, he⟩ := List.mem_map.mp hmem
    obtain ⟨ht, hst⟩ := List.mem_filter.mp ht
    rw [h.step_eq hs ht he.symm]
    exact of_decide_eq_true hst
  · intro hst
    exact List.mem_map_of_mem (List.mem_filter.mpr ⟨hs, decide_eq_true hst⟩)

theorem countP_lt_countP {α : Type} {p q : α → Bool} {l : List α}
    (h : ∀ x ∈ l, q x = true → p x = true) (hex : ∃ x ∈ l, p x = true ∧ q x = false) :
    l.countP q < l.countP p := by
  obtain ⟨x, hx, hp, hq⟩ := hex
  obtain ⟨l₁, l₂, rfl⟩ := List.append_of_mem hx
  have h₁ : l₁.countP q ≤ l₁.countP p :=
    List.countP_mono_left fun y hy ↦ h y (List.mem_append_left _ hy)
  have h₂ : l₂.countP q ≤ l₂.countP p :=
    List.countP_mono_left fun y hy ↦ h y (List.mem_append_right _ (List.mem_cons_of_mem _ hy))
  rw [List.countP_append, List.countP_append, List.countP_cons_of_pos hp,
    List.countP_cons_of_neg (by simp [hq])]
  omega

theorem Activated.waiting_lt {now : ℕ} {todo : List ℕ} {r r' : Request} {g : ApprovalStep → ApprovalStep}
    {new : List Approver} (h : Activated now todo r r' g new) {s : ApprovalStep} (hs : s ∈ r.steps)
    (hw : s.status = .waiting) (hmem : s.id ∈ todo) : waitingSteps r' < waitingSteps r := by
  unfold waitingSteps
  rw [h.steps, List.countP_map]
  apply countP_lt_countP
  · intro t _ ht
    have hwt : (g t).status = .waiting := of_decide_eq_true ht
    by_cases htodo : t.id ∈ todo
    · rcases h.entered t htodo with he | he | he <;> rw [he] at hwt <;> cases hwt
    · rw [h.others t htodo] at hwt
      exact decide_eq_true hwt
  · refine ⟨s, hs, decide_eq_true hw, ?_⟩
    rcases h.entered s hmem with he | he | he <;> simp [he]

/-- A stage is entered when nobody is asked any more and no step of it or before it is left. -/
theorem Activated.sound {stale : List ℕ} {r r' : Request} {now stage : ℕ}
    {g : ApprovalStep → ApprovalStep} {new : List Approver}
    (ha : Activated now ((stageSteps r stage).map (·.id)) r r' g new) (h : Sound stale r)
    (hk : Keyed r') (hp : r.status = .pending) (hidle : ∀ s ∈ r.steps, s.status ≠ .active)
    (hrej : ∀ s ∈ r.steps, s.status ≠ .rejected)
    (hmin : ∀ s ∈ r.steps, s.status = .waiting → stage ≤ s.spec.stage) : Sound stale r' := by
  have hord := h.ordered hp
  have hpast : ∀ s ∈ r.steps, s.status ≠ .waiting → s.status = .approved := by
    intro s hs hw
    have hact := hidle s hs
    have hr := hrej s hs
    have hc := hord.kept s hs
    cases hst : s.status <;> simp_all
  have hkeep : ∀ s ∈ r.steps, s.status ≠ .waiting → g s = s := fun s hs hw ↦
    ha.others s fun hmem ↦ hw ((mem_stageSteps h.keyed hs).mp hmem).2
  have hin : ∀ s ∈ r.steps, s.spec.stage = stage → s.status = .waiting → (g s).status ≠ .waiting ∧
      (g s).status ≠ .cancelled := by
    intro s hs hst hw
    rcases ha.entered s ((mem_stageSteps h.keyed hs).mpr ⟨hst, hw⟩) with he | he | he <;>
      simp [he]
  have hout : ∀ s ∈ r.steps, s.spec.stage ≠ stage → g s = s := fun s hs hne ↦
    ha.others s fun hmem ↦ hne ((mem_stageSteps h.keyed hs).mp hmem).1
  constructor
  · exact hk
  · rw [ha.steps]
    exact fun hnil ↦ h.nonempty (List.map_eq_nil_iff.mp hnil)
  · intro a hmem hpa
    rw [ha.approvers] at hmem
    rcases List.mem_append.mp hmem with hmem | hmem
    · obtain ⟨s, hs, _, hact⟩ := h.rows a hmem hpa
      exact absurd hact (hidle s hs)
    · obtain ⟨_, hid, hact⟩ := ha.rows a hmem
      obtain ⟨s, hs, he⟩ := List.mem_map.mp hid
      rw [ha.steps]
      exact ⟨g s, List.mem_map_of_mem (List.mem_of_mem_filter hs), (ha.keeps s).1.trans he,
        hact s he⟩
  · intro _
    rw [ha.steps]
    constructor
    · simp only [List.forall_mem_map]
      intro s hs t ht hst hw
      rw [(ha.keeps s).2, (ha.keeps t).2] at hst
      have hlow : s.spec.stage < stage ∨ t.status ≠ .waiting := by
        by_cases htw : t.status = .waiting
        · by_cases hts : t.spec.stage = stage
          · exact .inl (hts ▸ hst)
          · rw [hout t ht hts] at hw; exact .inr hw
        · exact .inr htw
      have hsw : s.status ≠ .waiting := by
        rcases hlow with hlow | htw
        · intro hsw
          have hle := hmin s hs hsw
          omega
        · rw [hord.behind s hs t ht hst htw]; simp
      rw [hkeep s hs hsw]
      exact hpast s hs hsw
    · simp only [List.forall_mem_map]
      intro s hs t ht hst hw
      rw [(ha.keeps s).2, (ha.keeps t).2] at hst
      by_cases hsk : s.spec.stage = stage
      · by_cases hsw : s.status = .waiting
        · exact absurd hw (hin s hs hsk hsw).1
        · rw [hkeep s hs hsw] at hw; exact absurd hw hsw
      · rw [hout s hs hsk] at hw
        rw [hout t ht (hst ▸ hsk)]
        exact hord.level s hs t ht hst hw
    · simp only [List.forall_mem_map]
      intro s hs
      by_cases hsk : s.spec.stage = stage
      · by_cases hsw : s.status = .waiting
        · exact (hin s hs hsk hsw).2
        · rw [hkeep s hs hsw]; exact hord.kept s hs
      · rw [hout s hs hsk]; exact hord.kept s hs
  · intro _
    rw [ha.steps, ha.approvers]
    simp only [List.forall_mem_map]
    intro s hs hact _
    by_cases hmem : s.id ∈ (stageSteps r stage).map (·.id)
    · obtain ⟨a, hnew, he⟩ := ha.voters s hmem hact
      exact ⟨a, List.mem_append_right _ hnew, he.trans (ha.keeps s).1.symm, (ha.rows a hnew).1⟩
    · rw [ha.others s hmem] at hact
      exact absurd hact (hidle s hs)
  · intro hne
    exact absurd (ha.status.trans hp) hne

theorem mem_stages {r : Request} {p : ℕ × StepStatus} :
    p ∈ r.stages ↔ ∃ s ∈ r.steps, (s.spec.stage, s.status) = p := List.mem_map

/-- The loop ends with a request that is closed or has an active step. -/
theorem activateFrom_sound {stale : List ℕ} {env : Env} {fuel : ℕ} {r : Request}
    (h : Sound stale r) (hfuel : waitingSteps r < fuel) :
    Sound stale (activateFrom env fuel r) ∧ Live (activateFrom env fuel r) := by
  induction fuel generalizing r with
  | zero => omega
  | succ fuel ih =>
    unfold activateFrom
    split
    · rename_i hclosed
      exact ⟨h, live_of_closed hclosed⟩
    rename_i hp
    rw [not_not] at hp
    split
    · rename_i hres
      obtain ⟨p, hmem, hrej⟩ := requestResult_rejected.mp hres
      obtain ⟨s, hs, rfl⟩ := mem_stages.mp hmem
      exact ⟨finalize_sound h (by simp) (by simp) fun _ ↦ ⟨s, hs, hrej⟩, live_of_closed (by simp [finalize, Request.revokeApprovalLinks])⟩
    rename_i hres
    have hrej : ∀ s ∈ r.steps, s.status ≠ .rejected := fun s hs he ↦
      hres (requestResult_rejected.mpr ⟨_, mem_stages.mpr ⟨s, hs, rfl⟩, he⟩)
    split
    · rename_i hact
      refine ⟨h, fun _ ↦ ?_⟩
      simpa using hact
    rename_i hact
    have hidle : ∀ s ∈ r.steps, s.status ≠ .active := by simpa using hact
    split
    · rename_i hnext
      have happ : ∀ s ∈ r.steps, s.status = .approved := by
        intro s hs
        have hw : s.status ≠ .waiting := nextStage_eq_none hnext _ (mem_stages.mpr ⟨s, hs, rfl⟩)
        have hact := hidle s hs
        have hr := hrej s hs
        have hc := (h.ordered hp).kept s hs
        cases hst : s.status <;> simp_all
      have hdone : requestResult r.stages = .approved := by
        refine requestResult_approved.mpr ⟨fun hnil ↦ h.nonempty (List.map_eq_nil_iff.mp hnil), ?_⟩
        intro p hmem
        obtain ⟨s, hs, rfl⟩ := mem_stages.mp hmem
        exact happ s hs
      rw [if_pos hdone]
      exact ⟨finalize_sound h (by simp) (fun _ ↦ happ) (by simp), live_of_closed (by simp [finalize, Request.revokeApprovalLinks])⟩
    · rename_i stage hnext
      obtain ⟨hmem, hmin⟩ := nextStage_eq_some hnext
      obtain ⟨s, hs, he⟩ := mem_stages.mp hmem
      obtain ⟨g, new, ha⟩ := activateSteps_activated env r (stageSteps_nodup h.keyed stage)
      refine ih (ha.sound h ((activateStage_evolves env r stage).keyed h.keyed) hp hidle hrej ?_) ?_
      · intro t ht hw
        exact hmin _ (mem_stages.mpr ⟨t, ht, by rw [hw]⟩)
      · have hwait : s.status = .waiting := congrArg Prod.snd he
        have hlt := ha.waiting_lt hs hwait
          ((mem_stageSteps h.keyed hs).mpr ⟨congrArg Prod.fst he, hwait⟩)
        have hstage : activateStage env stage r =
            (stageSteps r stage).foldl (activateStep env) r := rfl
        rw [hstage]
        omega

theorem activateNextStage_sound {stale : List ℕ} {env : Env} {r : Request} (h : Sound stale r) :
    Sound stale (activateNextStage env r) ∧ Live (activateNextStage env r) :=
  activateFrom_sound h (Nat.lt_succ_self _)

end Tiqora.Approvals
