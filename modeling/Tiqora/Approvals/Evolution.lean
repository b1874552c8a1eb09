import Tiqora.Approvals.Runs

namespace Tiqora.Approvals

open Foundation

def ApproverStatus.voted : ApproverStatus → Prop
  | .approved | .rejected => True
  | .pending | .forwarded | .removed | .notNeeded => False

/-- A row keeps its identity, and its status only leaves `pending`, never for a vote. -/
structure Aging (a b : Approver) : Prop where
  id : b.id = a.id
  stepId : b.stepId = a.stepId
  principal : b.principal = a.principal
  source : b.source = a.source
  status : b.status = a.status ∨ a.status = .pending ∧ ¬ b.status.voted

theorem Aging.refl (a : Approver) : Aging a a := ⟨rfl, rfl, rfl, rfl, .inl rfl⟩

theorem Aging.trans {a b c : Approver} (h : Aging a b) (h' : Aging b c) : Aging a c where
  id := h'.id.trans h.id
  stepId := h'.stepId.trans h.stepId
  principal := h'.principal.trans h.principal
  source := h'.source.trans h.source
  status := by
    rcases h'.status with hs' | ⟨hs', hv'⟩
    · rcases h.status with hs | ⟨hs, hv⟩
      · exact .inl (hs'.trans hs)
      · exact .inr ⟨hs, by rwa [hs']⟩
    · rcases h.status with hs | ⟨hs, hv⟩
      · exact .inr ⟨hs ▸ hs', hv'⟩
      · exact .inr ⟨hs, hv'⟩

theorem Aging.voted_iff {a b : Approver} (h : Aging a b) : b.status.voted ↔ a.status.voted := by
  rcases h.status with hs | ⟨hs, hv⟩
  · rw [hs]
  · constructor
    · intro h'; exact absurd h' hv
    · intro h'; rw [hs] at h'; exact h'.elim

/-- What every part of an operation but the vote itself does: the identity of the request, its
steps and its votes stay, old rows age, and new rows come with fresh ids. -/
structure Evolves (r r' : Request) : Prop where
  subjectType : r'.subjectType = r.subjectType
  allowSelf : r'.allowSelfApproval = r.allowSelfApproval
  requester : r'.requester = r.requester
  creator : r'.creator = r.creator
  votes : r'.votes = r.votes
  nextVote : r'.nextVote = r.nextVote
  next : r.nextApprover ≤ r'.nextApprover
  steps : r'.steps.map (fun s ↦ (s.id, s.spec)) = r.steps.map fun s ↦ (s.id, s.spec)
  approvers : ∃ (f : Approver → Approver) (new : List Approver),
    r'.approvers = r.approvers.map f ++ new ∧ (∀ a ∈ r.approvers, Aging a (f a)) ∧
    (new.map (·.id)).Nodup ∧
    ∀ a ∈ new, ¬ a.status.voted ∧ r.nextApprover ≤ a.id ∧ a.id < r'.nextApprover

theorem Evolves.of_map {r r' : Request} (f : Approver → Approver)
    (hf : ∀ a ∈ r.approvers, Aging a (f a))
    (ha : r'.approvers = r.approvers.map f) (hn : r'.nextApprover = r.nextApprover)
    (hs : r'.steps.map (fun s ↦ (s.id, s.spec)) = r.steps.map fun s ↦ (s.id, s.spec))
    (hu : r'.subjectType = r.subjectType) (hw : r'.allowSelfApproval = r.allowSelfApproval)
    (hq : r'.requester = r.requester) (hc : r'.creator = r.creator) (hv : r'.votes = r.votes)
    (hx : r'.nextVote = r.nextVote) : Evolves r r' :=
  ⟨hu, hw, hq, hc, hv, hx, hn.ge, hs, f, [], by simpa using ha, hf, by simp, by simp⟩

theorem Evolves.refl (r : Request) : Evolves r r :=
  .of_map id (fun a _ ↦ Aging.refl a) (by simp) rfl rfl rfl rfl rfl rfl rfl rfl

theorem Evolves.trans {r s t : Request} (h : Evolves r s) (h' : Evolves s t) : Evolves r t := by
  obtain ⟨f, new, ha, hf, hnd, hnew⟩ := h.approvers
  obtain ⟨g, new', ha', hg, hnd', hnew'⟩ := h'.approvers
  have hold : ∀ a ∈ r.approvers, f a ∈ s.approvers := fun a hmem ↦
    ha ▸ List.mem_append_left _ (List.mem_map_of_mem hmem)
  have hadded : ∀ a ∈ new, Aging a (g a) := fun a hmem ↦
    hg a (ha ▸ List.mem_append_right _ hmem)
  refine ⟨h'.subjectType.trans h.subjectType, h'.allowSelf.trans h.allowSelf,
    h'.requester.trans h.requester, h'.creator.trans h.creator, h'.votes.trans h.votes,
    h'.nextVote.trans h.nextVote, h.next.trans h'.next, h'.steps.trans h.steps,
    fun a ↦ g (f a), new.map g ++ new', ?_,
    fun a hmem ↦ (hf a hmem).trans (hg (f a) (hold a hmem)), ?_, ?_⟩
  · rw [ha', ha, List.map_append, List.map_map, List.append_assoc]
    rfl
  · have hids : (new.map g).map (·.id) = new.map (·.id) := by
      rw [List.map_map]
      exact List.map_congr_left fun a hmem ↦ (hadded a hmem).id
    rw [List.map_append, hids, List.nodup_append]
    refine ⟨hnd, hnd', ?_⟩
    rintro i hi j hj rfl
    obtain ⟨a, hmem, rfl⟩ := List.mem_map.mp hi
    obtain ⟨b, hmem', he⟩ := List.mem_map.mp hj
    have h₁ := (hnew a hmem).2.2
    have h₂ := (hnew' b hmem').2.1
    omega
  · intro a hmem
    rcases List.mem_append.mp hmem with hmem | hmem
    · obtain ⟨b, hb, rfl⟩ := List.mem_map.mp hmem
      obtain ⟨hv, hlo, hhi⟩ := hnew b hb
      have hage := hadded b hb
      refine ⟨fun hv' ↦ hv (hage.voted_iff.mp hv'), ?_, ?_⟩
      · rw [hage.id]; exact hlo
      · rw [hage.id]; exact hhi.trans_le h'.next
    · obtain ⟨hv, hlo, hhi⟩ := hnew' a hmem
      exact ⟨hv, h.next.trans hlo, hhi⟩

section Parts

variable (env : Env) (r : Request)

theorem setStep_evolves {stepId : ℕ} {f : ApprovalStep → ApprovalStep}
    (hf : ∀ s, (f s).id = s.id ∧ (f s).spec = s.spec) : Evolves r (r.setStep stepId f) := by
  refine .of_map id (fun a _ ↦ Aging.refl a) (by simp [Request.setStep]) rfl ?_ rfl rfl rfl rfl rfl rfl
  simp only [Request.setStep, List.map_map]
  apply List.map_congr_left
  intro s _
  simp only [Function.comp_apply]
  split <;> simp [hf s]

theorem mark_evolves {p : Approver → Bool} {status : ApproverStatus}
    (hp : ∀ a, p a = true → a.status = .pending) (hs : ¬ status.voted) :
    Evolves r (r.mark p status) := by
  refine .of_map (fun a ↦ if p a then { a with status } else a) (fun a _ ↦ ?_) rfl rfl rfl rfl rfl
    rfl rfl rfl rfl
  by_cases hpa : p a = true
  · simp only [hpa, if_true]
    exact ⟨rfl, rfl, rfl, rfl, .inr ⟨hp a hpa, hs⟩⟩
  · rw [if_neg hpa]
    exact Aging.refl a

theorem revokeLinks_evolves (ids : List ℕ) (redeemed : Option ℕ) (now : ℕ) :
    Evolves r (r.revokeLinks ids redeemed now) :=
  .of_map id (fun a _ ↦ Aging.refl a) (by simp [Request.revokeLinks]) rfl rfl rfl rfl rfl rfl rfl rfl

theorem dismiss_evolves {p : Approver → Bool} {status : ApproverStatus} (now : ℕ)
    (hp : ∀ a, p a = true → a.status = .pending) (hs : ¬ status.voted) :
    Evolves r (r.dismiss p status now) :=
  (mark_evolves r hp hs).trans (revokeLinks_evolves _ _ _ _)

theorem addApprover_evolves (stepId : ℕ) (x : ResolvedApprover) (now : ℕ) :
    Evolves r (r.addApprover stepId x now) := by
  refine ⟨rfl, rfl, rfl, rfl, rfl, rfl, Nat.le_succ _, rfl, id,
    [⟨r.nextApprover, stepId, x.principal, x.source, false, .pending, now⟩], ?_,
    fun a _ ↦ Aging.refl a, by simp, ?_⟩
  · rw [List.map_id]; rfl
  · intro a ha
    rw [List.mem_singleton.mp ha]
    exact ⟨id, le_rfl, Nat.lt_succ_self _⟩

theorem setDecisive_evolves (approverId : ℕ) (value : Bool) :
    Evolves r (r.setApprover approverId fun a ↦ { a with decisive := value }) := by
  refine .of_map _ (fun a _ ↦ ?_) rfl rfl rfl rfl rfl rfl rfl rfl rfl
  by_cases h : a.id = approverId
  · rw [if_pos h]; exact ⟨rfl, rfl, rfl, rfl, .inl rfl⟩
  · rw [if_neg h]; exact Aging.refl a

theorem closeOpenSteps_evolves (reason : Reason) : Evolves r (closeOpenSteps env reason r) := by
  refine .of_map _ (fun a _ ↦ ?_) rfl rfl ?_ rfl rfl rfl rfl rfl rfl
  · split
    · rename_i h
      have hp : a.status = .pending := (of_decide_eq_true h).1
      exact ⟨rfl, rfl, rfl, rfl, .inr ⟨hp, id⟩⟩
    · exact Aging.refl a
  · simp only [closeOpenSteps, List.map_map]
    apply List.map_congr_left
    intro s _
    simp only [Function.comp_apply, cancelStep]
    split <;> rfl

theorem finalize_evolves (status : ApprovalStatus) (reason : Reason) :
    Evolves r (finalize env status reason r) := by
  obtain ⟨hu, hw, hq, hc, hv, hx, hn, hs, ha⟩ := closeOpenSteps_evolves env r reason
  exact ⟨hu, hw, hq, hc, hv, hx, hn, hs, ha⟩

theorem foldl_evolves {α : Type} {f : Request → α → Request} (hf : ∀ r a, Evolves r (f r a))
    (as : List α) : Evolves r (as.foldl f r) := by
  induction as generalizing r with
  | nil => exact .refl r
  | cons a as ih => exact (hf r a).trans (ih (f r a))

theorem addApprovers_evolves (now stepId : ℕ) (found : List ResolvedApprover) :
    Evolves r (addApprovers now stepId found r) :=
  foldl_evolves r (fun r x ↦ addApprover_evolves r stepId x now) found

theorem setStage_evolves (stage : Option ℕ) : Evolves r { r with currentStage := stage } :=
  .of_map id (fun a _ ↦ Aging.refl a) (by simp) rfl rfl rfl rfl rfl rfl rfl rfl

theorem startStep_evolves (s : ApprovalStep) : Evolves r (startStep env s r) := by
  have hstage := setStage_evolves (r.setStep s.id fun t ↦
    { t with status := .active, activatedAt := some env.now, dueAt := dueAt env s.spec })
    (some s.spec.stage)
  refine (setStep_evolves r ?_).trans hstage
  exact fun _ ↦ ⟨rfl, rfl⟩

theorem recordOutcome_evolves (now stepId : ℕ) (outcome : StepStatus) (reason : Reason) :
    Evolves r (recordOutcome now stepId outcome reason r) :=
  setStep_evolves r fun _ ↦ ⟨rfl, rfl⟩

theorem activateWith_evolves (s : ApprovalStep) (found : List ResolvedApprover) :
    Evolves r (activateWith env s found r) := by
  unfold activateWith
  split
  · exact (startStep_evolves env r s).trans (addApprovers_evolves _ _ _ _)
  · exact (startStep_evolves env r s).trans (recordOutcome_evolves _ _ _ _ _)

theorem activateStep_evolves (s : ApprovalStep) : Evolves r (activateStep env r s) :=
  activateWith_evolves env r s _

theorem activateStage_evolves (stage : ℕ) : Evolves r (activateStage env stage r) :=
  foldl_evolves r (activateStep_evolves env) _

theorem activateFrom_evolves (fuel : ℕ) : Evolves r (activateFrom env fuel r) := by
  induction fuel generalizing r with
  | zero => exact .refl r
  | succ fuel ih =>
    unfold activateFrom
    split
    · exact .refl r
    · split
      · exact finalize_evolves env r _ _
      · split
        · exact .refl r
        · split
          · split
            · exact finalize_evolves env r _ _
            · exact .refl r
          · exact (activateStage_evolves env r _).trans (ih _)

theorem closeStep_evolves (s : ApprovalStep) (outcome : StepStatus) (reason : Reason) :
    Evolves r (closeStep env s outcome reason r) :=
  (recordOutcome_evolves r _ _ _ _).trans ((dismiss_evolves _ _
    (fun _ ha ↦ (of_decide_eq_true ha).2) id).trans (activateFrom_evolves env _ _))

theorem reevaluateSteps_evolves {ss : List ApprovalStep} {r r' : Request}
    (h : reevaluateSteps env ss r = .ok r') : Evolves r r' := by
  induction ss generalizing r with
  | nil => rw [← Except.ok.inj h]; exact .refl r
  | cons s ss ih =>
    unfold reevaluateSteps at h
    split at h
    · exact ih h
    · obtain ⟨result, -, h⟩ := bind_eq_ok.mp h
      split at h
      · exact (closeStep_evolves env r _ _ _).trans (ih h)
      · exact ih h

theorem refreshStep_evolves (s : ApprovalStep) : Evolves r (refreshStep env r s) :=
  (dismiss_evolves r _ (fun _ ha ↦ (of_decide_eq_true ha).2.1) id).trans
    (addApprovers_evolves _ _ _ _)

theorem markOverdue_evolves (stepId : ℕ) : Evolves r (markOverdue env stepId r) :=
  setStep_evolves r fun _ ↦ ⟨rfl, rfl⟩

theorem escalateTo_evolves (stepId : ℕ) (x : ResolvedApprover) :
    Evolves r (escalateTo env stepId r x) := by
  unfold escalateTo
  split
  · exact .refl r
  · split
    · split
      · exact setDecisive_evolves r _ _
      · exact .refl r
    · exact (addApprover_evolves r _ _ _).trans (setDecisive_evolves _ _ _)

theorem escalate_evolves (s : ApprovalStep) : Evolves r (escalate env s r) :=
  foldl_evolves r (escalateTo_evolves env · s.id) _

end Parts

/-- Every table of a request has its keys once, and approver keys are never used again. -/
structure Keyed (r : Request) : Prop where
  steps : (r.steps.map (·.id)).Nodup
  approvers : (r.approvers.map (·.id)).Nodup
  fresh : ∀ a ∈ r.approvers, a.id < r.nextApprover

theorem Keyed.step_eq {r : Request} (h : Keyed r) {s t : ApprovalStep} (hs : s ∈ r.steps)
    (ht : t ∈ r.steps) (he : s.id = t.id) : s = t :=
  List.inj_on_of_nodup_map h.steps hs ht he

theorem Keyed.approver_eq {r : Request} (h : Keyed r) {a b : Approver} (ha : a ∈ r.approvers)
    (hb : b ∈ r.approvers) (he : a.id = b.id) : a = b :=
  List.inj_on_of_nodup_map h.approvers ha hb he

theorem Keyed.of_eq {r r' : Request} (h : Keyed r)
    (hs : r'.steps.map (·.id) = r.steps.map (·.id))
    (ha : r'.approvers.map (·.id) = r.approvers.map (·.id))
    (hn : r'.nextApprover = r.nextApprover) : Keyed r' where
  steps := hs ▸ h.steps
  approvers := ha ▸ h.approvers
  fresh := by
    intro a hmem
    obtain ⟨b, hb, he⟩ := List.mem_map.mp (ha ▸ List.mem_map_of_mem hmem)
    rw [hn, ← he]
    exact h.fresh b hb

theorem Evolves.keyed {r r' : Request} (h : Evolves r r') (hk : Keyed r) : Keyed r' := by
  obtain ⟨f, new, ha, hf, hnd, hnew⟩ := h.approvers
  have hids : (r.approvers.map f).map (·.id) = r.approvers.map (·.id) := by
    rw [List.map_map]
    exact List.map_congr_left fun a hmem ↦ (hf a hmem).id
  have hsteps : r'.steps.map (·.id) = r.steps.map (·.id) := by
    have hmap := congrArg (List.map Prod.fst) h.steps
    simpa only [List.map_map, Function.comp_def] using hmap
  refine ⟨hsteps ▸ hk.steps, ?_, ?_⟩
  · rw [ha, List.map_append, hids, List.nodup_append]
    refine ⟨hk.approvers, hnd, ?_⟩
    rintro i hi j hj rfl
    obtain ⟨a, hmem, rfl⟩ := List.mem_map.mp hi
    obtain ⟨b, hmem', he⟩ := List.mem_map.mp hj
    have h₁ := hk.fresh a hmem
    have h₂ := (hnew b hmem').2.1
    omega
  · intro a hmem
    rw [ha] at hmem
    rcases List.mem_append.mp hmem with hmem | hmem
    · obtain ⟨b, hb, rfl⟩ := List.mem_map.mp hmem
      rw [(hf b hb).id]
      exact (hk.fresh b hb).trans_le h.next
    · exact (hnew a hmem).2.2

theorem setApprover_ids (r : Request) (approverId : ℕ) {f : Approver → Approver}
    (hf : ∀ a, (f a).id = a.id) :
    (r.setApprover approverId f).approvers.map (·.id) = r.approvers.map (·.id) := by
  rw [Request.setApprover, List.map_map]
  apply List.map_congr_left
  intro a _
  simp only [Function.comp_apply]
  split
  · exact hf a
  · rfl

theorem Keyed.castVote {r : Request} (h : Keyed r) (env : Env) (v : Vote) (tokenId : Option ℕ) :
    Keyed (castVote env v tokenId r) := by
  have hrec : Keyed (recordVote v r) := h.of_eq rfl (setApprover_ids r _ fun _ ↦ rfl) rfl
  refine (dismiss_evolves _ _ ?_ id).keyed ((revokeLinks_evolves _ _ _ _).keyed hrec)
  exact fun _ ha ↦ (of_decide_eq_true ha).2.1

theorem Keyed.handOver {r : Request} (h : Keyed r) (env : Env) (row : Approver)
    (target : Principal) : Keyed (handOver env row target r) := by
  have hadd := ((addApprover_evolves r row.stepId ⟨target, .forward row.id⟩ env.now).trans
    (setDecisive_evolves _ r.nextApprover row.decisive)).keyed h
  exact (revokeLinks_evolves _ _ _ _).keyed (hadd.of_eq rfl (setApprover_ids _ _ fun _ ↦ rfl) rfl)

/-- How the stages of a pending request stand: a stage is entered once all earlier steps are
approved, and entered as a whole. -/
structure Ordered (steps : List ApprovalStep) : Prop where
  behind : ∀ s ∈ steps, ∀ t ∈ steps, s.spec.stage < t.spec.stage → t.status ≠ .waiting →
    s.status = .approved
  level : ∀ s ∈ steps, ∀ t ∈ steps, s.spec.stage = t.spec.stage → s.status = .waiting →
    t.status = .waiting
  kept : ∀ s ∈ steps, s.status ≠ .cancelled

/-- The status of an entered step stays or, while active, becomes a result. -/
def Settles (old new : StepStatus) : Prop :=
  new = old ∨ old = .active ∧ (new = .approved ∨ new = .rejected)

theorem Settles.waiting_iff {old new : StepStatus} (h : Settles old new) :
    new = .waiting ↔ old = .waiting := by
  rcases h with rfl | ⟨rfl, rfl | rfl⟩ <;> simp

theorem Ordered.map {steps : List ApprovalStep} {g : ApprovalStep → ApprovalStep}
    (h : Ordered steps) (hspec : ∀ s ∈ steps, (g s).spec = s.spec)
    (hg : ∀ s ∈ steps, Settles s.status (g s).status) : Ordered (steps.map g) where
  behind := by
    simp only [List.forall_mem_map]
    intro s hs t ht hst hw
    rw [hspec s hs, hspec t ht] at hst
    have happ := h.behind s hs t ht hst fun hw' ↦ hw ((hg t ht).waiting_iff.mpr hw')
    rcases hg s hs with he | ⟨he, _⟩
    · rw [he, happ]
    · rw [happ] at he; cases he
  level := by
    simp only [List.forall_mem_map]
    intro s hs t ht hst hw
    rw [hspec s hs, hspec t ht] at hst
    exact (hg t ht).waiting_iff.mpr (h.level s hs t ht hst ((hg s hs).waiting_iff.mp hw))
  kept := by
    simp only [List.forall_mem_map]
    intro s hs hc
    rcases hg s hs with he | ⟨_, he | he⟩
    · exact h.kept s hs (he ▸ hc)
    all_goals rw [he] at hc; cases hc

/-- A closed request has its result and nothing left to decide. -/
structure Settled (r : Request) : Prop where
  approved : r.status = .approved → ∀ s ∈ r.steps, s.status = .approved
  rejected : r.status = .rejected → ∃ s ∈ r.steps, s.status = .rejected
  closed : ∀ s ∈ r.steps, s.status ≠ .waiting ∧ s.status ≠ .active
  silent : ∀ a ∈ r.approvers, a.status ≠ .pending
  dead : ∀ l ∈ r.links, ¬ l.live

/-- The invariant between two parts of an operation; the steps in `stale` may have lost their
voters and are looked at again before the operation ends. -/
structure Sound (stale : List ℕ) (r : Request) : Prop where
  keyed : Keyed r
  nonempty : r.steps ≠ []
  rows : ∀ a ∈ r.approvers, a.status = .pending →
    ∃ s ∈ r.steps, s.id = a.stepId ∧ s.status = .active
  ordered : r.status = .pending → Ordered r.steps
  votable : r.status = .pending → ∀ s ∈ r.steps, s.status = .active → s.id ∉ stale →
    ∃ a ∈ r.approvers, a.stepId = s.id ∧ a.status = .pending
  settled : r.status ≠ .pending → Settled r

/-- A pending request waits for at least one step. -/
def Live (r : Request) : Prop := r.status = .pending → ∃ s ∈ r.steps, s.status = .active

theorem Sound.mono {stale stale' : List ℕ} {r : Request} (h : Sound stale r)
    (hsub : ∀ i ∈ stale, i ∈ stale') : Sound stale' r :=
  { h with votable := fun hp s hs hact hn ↦ h.votable hp s hs hact fun hi ↦ hn (hsub _ hi) }

theorem cancelStep_closed (env : Env) (reason : Reason) (s : ApprovalStep) :
    (cancelStep env reason s).status ≠ .waiting ∧ (cancelStep env reason s).status ≠ .active := by
  unfold cancelStep
  cases hs : s.status <;> simp [StepStatus.open, hs]

theorem cancelStep_of_closed {env : Env} {reason : Reason} {s : ApprovalStep}
    (h : s.status.open = false) : cancelStep env reason s = s := by
  rw [cancelStep, if_neg (by simp [h])]

theorem closeOpenSteps_silent (env : Env) (reason : Reason) {r : Request}
    (hrows : ∀ a ∈ r.approvers, a.status = .pending →
      ∃ s ∈ r.steps, s.id = a.stepId ∧ s.status = .active) :
    ∀ a ∈ (closeOpenSteps env reason r).approvers, a.status ≠ .pending := by
  intro a ha
  obtain ⟨b, hb, rfl⟩ := List.mem_map.mp ha
  split
  · simp
  · rename_i hno
    intro hp
    obtain ⟨s, hs, hid, hact⟩ := hrows b hb hp
    simp only [decide_eq_true_eq, List.any_eq_true] at hno
    exact hno ⟨hp, s, hs, hid, by rw [hact]; rfl⟩

theorem revokeApprovalLinks_dead (r : Request) (now : ℕ) :
    ∀ l ∈ (r.revokeApprovalLinks now).links, ¬ l.live := by
  intro l hl
  obtain ⟨m, _, rfl⟩ := List.mem_map.mp hl
  split
  · rintro ⟨_, hrev⟩; cases hrev
  · assumption

theorem finalize_settled {env : Env} {status : ApprovalStatus} {reason : Reason} {r : Request}
    (hrows : ∀ a ∈ r.approvers, a.status = .pending →
      ∃ s ∈ r.steps, s.id = a.stepId ∧ s.status = .active)
    (happ : status = .approved → ∀ s ∈ r.steps, s.status = .approved)
    (hrej : status = .rejected → ∃ s ∈ r.steps, s.status = .rejected) :
    Settled (finalize env status reason r) where
  approved := by
    intro hs s hmem
    obtain ⟨t, ht, rfl⟩ := List.mem_map.mp hmem
    have hstep := happ hs t ht
    rw [cancelStep_of_closed (by rw [hstep]; rfl), hstep]
  rejected := by
    intro hs
    obtain ⟨s, hmem, hstep⟩ := hrej hs
    refine ⟨_, List.mem_map_of_mem hmem, ?_⟩
    rw [cancelStep_of_closed (by rw [hstep]; rfl), hstep]
  closed := by
    intro s hmem
    obtain ⟨t, _, rfl⟩ := List.mem_map.mp hmem
    exact cancelStep_closed env reason t
  silent := closeOpenSteps_silent env reason hrows
  dead := revokeApprovalLinks_dead _ _

theorem Sound.of_settled {stale : List ℕ} {r : Request} (hk : Keyed r) (hne : r.steps ≠ [])
    (hclosed : r.status ≠ .pending) (h : Settled r) : Sound stale r where
  keyed := hk
  nonempty := hne
  rows a ha hp := absurd hp (h.silent a ha)
  ordered hp := absurd hp hclosed
  votable hp := absurd hp hclosed
  settled _ := h

theorem finalize_sound {stale stale' : List ℕ} {env : Env} {status : ApprovalStatus}
    {reason : Reason} {r : Request} (h : Sound stale r) (hstatus : status ≠ .pending)
    (happ : status = .approved → ∀ s ∈ r.steps, s.status = .approved)
    (hrej : status = .rejected → ∃ s ∈ r.steps, s.status = .rejected) :
    Sound stale' (finalize env status reason r) := by
  refine .of_settled ((finalize_evolves env r status reason).keyed h.keyed) ?_ hstatus
    (finalize_settled h.rows happ hrej)
  intro hnil
  exact h.nonempty (List.map_eq_nil_iff.mp hnil)

theorem live_of_closed {r : Request} (h : r.status ≠ .pending) : Live r :=
  fun hp ↦ absurd hp h

end Tiqora.Approvals
