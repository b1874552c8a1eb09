import Mathlib
import Tiqora.Approvals.Steadiness
import Tiqora.Approvals.Timers

namespace Tiqora.Approvals

open Foundation

theorem Timed.activated {now : ℕ} {s t : ApprovalStep} (h : Timed now s t) :
    t.activatedAt = s.activatedAt ∨ t.activatedAt = some now := by
  rcases h with ⟨ha, _⟩ | ⟨_, _, ha, _⟩
  · exact .inl ha
  · exact .inr ha

theorem Timed.overdue {now : ℕ} {s t : ApprovalStep} (h : Timed now s t) :
    t.overdueAt = s.overdueAt := by
  rcases h with ⟨_, _, ho, _⟩ | ⟨_, _, _, ho⟩ <;> exact ho

/-- A step that has started keeps its times. -/
theorem Timed.started {now : ℕ} {s t : ApprovalStep} (h : Timed now s t)
    (hs : s.status ≠ .waiting) :
    t.status ≠ .waiting ∧ t.activatedAt = s.activatedAt ∧ t.dueAt = s.dueAt := by
  rcases h with ⟨ha, hd, _, hw⟩ | ⟨hw, _⟩
  · exact ⟨fun h ↦ hs (hw h), ha, hd⟩
  · exact absurd hw hs

theorem shiftStep_keeps (seen amount : ℕ) (s : ApprovalStep) :
    (shiftStep seen amount s).id = s.id ∧ (shiftStep seen amount s).status = s.status ∧
      (shiftStep seen amount s).activatedAt = s.activatedAt ∧
      (shiftStep seen amount s).overdueAt = s.overdueAt := by
  unfold shiftStep
  split
  · split <;> exact ⟨rfl, rfl, rfl, rfl⟩
  · exact ⟨rfl, rfl, rfl, rfl⟩

theorem shiftStep_dueAt (seen amount : ℕ) (s : ApprovalStep) : (shiftStep seen amount s).dueAt =
    if Site.deadlineMoves seen s then s.dueAt.map (· + amount) else s.dueAt := by
  unfold shiftStep Site.deadlineMoves
  cases ha : s.activatedAt with
  | none => simp
  | some activated =>
    by_cases hm : s.status = .active ∧ activated ≤ seen
    · by_cases ho : s.overdueAt = none
      · cases hd : s.dueAt <;> simp [hm, ho]
      · simp [hm, ho]
    · have hno : ¬ (s.status = .active ∧ activated ≤ seen ∧ s.dueAt.isSome ∧ s.overdueAt = none) :=
        fun h ↦ hm ⟨h.1, h.2.1⟩
      simp only [if_neg hm, Option.any_some, decide_eq_true_eq]
      rw [if_neg hno]

/-- How one action outside the timer transaction meets a request. -/
inductive Touch (st st' : Site) (i : ℕ) (r : Request) : Request → Prop
  | same : Touch st st' i r r
  | ran {env : Env} {op : Operation} {r' : Request} (run : op.run env r = some r')
      (timing : op.timing = false) (now : env.now = st'.clock) : Touch st st' i r r'
  | fired {env : Env} {stepId : ℕ} {tick : Tick} {r' : Request}
      (run : (Operation.overdue stepId).run env r = some r') (now : env.now = st'.clock)
      (moment : env.moment = tick.moment) (during : st.tick = some tick)
      (item : ⟨.overdue, i, stepId⟩ ∈ tick.items) : Touch st st' i r r'

def SweepAction.isTimers : SweepAction → Bool
  | .timers .. => true
  | .fetch _ | .item _ | .stop | .create .. | .operate .. => false

theorem runOn_requests {st : Site} {request : ℕ} {env : Env} {op : Operation} {i : ℕ}
    {r' : Request} (h : (st.runOn request env op).requests[i]? = some r') :
    ∃ r, st.requests[i]? = some r ∧ (r' = r ∨ i = request ∧ op.run env r = some r') := by
  unfold Site.runOn at h
  rw [List.getElem?_modify] at h
  obtain ⟨r, hr, he⟩ := Option.map_eq_some_iff.mp h
  refine ⟨r, hr, ?_⟩
  split at he
  · rename_i hi
    cases hrun : op.run env r with
    | none => rw [hrun] at he; exact .inl he.symm
    | some r'' => rw [hrun] at he; exact .inr ⟨hi.symm, by rw [← he]; rfl⟩
  · exact .inl he.symm

theorem step_requests {st st' : Site} {a : SweepAction} (h : a.step st st')
    (ha : a.isTimers = false) {i : ℕ} {r' : Request} (hr' : st'.requests[i]? = some r') :
    (∃ r, st.requests[i]? = some r ∧ Touch st st' i r r') ∨
      st.requests[i]? = none ∧ ∃ env args, requestApproval env args = .ok r' ∧
        env.now = st'.clock := by
  cases a with
  | timers read sweep => cases ha
  | fetch items =>
    obtain ⟨tick, _, _, rfl⟩ := h
    exact .inl ⟨r', hr', .same⟩
  | item env =>
    obtain ⟨tick, item, rest, ht, hi, hm, _, rfl⟩ := h
    obtain ⟨r, hr, rfl | ⟨rfl, hrun⟩⟩ := runOn_requests hr'
    · exact .inl ⟨_, hr, .same⟩
    · refine .inl ⟨r, hr, ?_⟩
      unfold Item.operation at hrun
      have hmem : item ∈ tick.items := hi ▸ List.mem_cons_self
      split at hrun
      · rename_i hw
        have he : item = ⟨.overdue, item.request, item.stepId⟩ := by rw [← hw]
        rw [he] at hmem
        exact .fired hrun rfl hm ht hmem
      · exact .ran hrun rfl rfl
  | stop =>
    subst h
    exact .inl ⟨r', hr', .same⟩
  | create env args =>
    obtain ⟨_, r, hr, rfl⟩ := h
    rcases Nat.lt_or_ge i st.requests.length with hlt | hge
    · rw [List.getElem?_append_left hlt] at hr'
      exact .inl ⟨r', hr', .same⟩
    · rw [List.getElem?_append_right hge] at hr'
      have he : r = r' := by
        have hmem := List.mem_of_getElem? hr'
        exact (List.mem_singleton.mp hmem).symm
      exact .inr ⟨List.getElem?_eq_none hge, env, args, he ▸ hr, rfl⟩
  | operate request env op =>
    obtain ⟨hop, _, rfl⟩ := h
    obtain ⟨r, hr, rfl | ⟨rfl, hrun⟩⟩ := runOn_requests hr'
    · exact .inl ⟨_, hr, .same⟩
    · exact .inl ⟨r, hr, .ran hrun hop rfl⟩

theorem step_keeps_requests {st st' : Site} {a : SweepAction} (h : a.step st st') {i : ℕ}
    {r : Request} (hr : st.requests[i]? = some r) : ∃ r', st'.requests[i]? = some r' := by
  have hlt : i < st.requests.length := (List.getElem?_eq_some_iff.mp hr).1
  have hlen : st.requests.length ≤ st'.requests.length := by
    cases a with
    | timers read sweep => obtain ⟨_, rfl⟩ := h; simp [Site.runTimers]
    | fetch items => obtain ⟨_, _, _, rfl⟩ := h; exact le_rfl
    | item env => obtain ⟨_, _, _, _, _, _, _, rfl⟩ := h; simp [Site.runOn]
    | stop => subst h; exact le_rfl
    | create env args => obtain ⟨_, _, _, rfl⟩ := h; simp
    | operate request env op => obtain ⟨_, _, rfl⟩ := h; simp [Site.runOn]
  exact ⟨_, List.getElem?_eq_getElem (hlt.trans_le hlen)⟩

/-- Outside the timer transaction the timer state stays, and a sweep under way keeps its time and
its paused types. -/
theorem step_frame {st st' : Site} {a : SweepAction} (h : a.step st st')
    (ha : a.isTimers = false) :
    st'.timers = st.timers ∧ st'.pauses = st.pauses ∧ st.clock ≤ st'.clock ∧
      ∀ tick', st'.tick = some tick' → ∃ tick, st.tick = some tick ∧ tick'.moment = tick.moment ∧
        tick'.paused = tick.paused ∧
        ∀ item ∈ tick'.items, item ∈ tick.items ∨ st.candidate tick item := by
  cases a with
  | timers read sweep => cases ha
  | fetch items =>
    obtain ⟨tick, ht, hc, rfl⟩ := h
    refine ⟨rfl, rfl, le_rfl, fun tick' ht' ↦ ⟨tick, ht, ?_⟩⟩
    obtain rfl := Option.some.inj ht'
    exact ⟨rfl, rfl, fun item hi ↦ .inr (hc item hi)⟩
  | item env =>
    obtain ⟨tick, item, rest, ht, hi, _, hle, rfl⟩ := h
    refine ⟨rfl, rfl, hle, fun tick' ht' ↦ ⟨tick, ht, ?_⟩⟩
    obtain rfl := Option.some.inj ht'
    exact ⟨rfl, rfl, fun item hi' ↦ .inl (hi ▸ List.mem_cons_of_mem _ hi')⟩
  | stop =>
    subst h
    refine ⟨rfl, rfl, le_rfl, fun tick' ht' ↦ ?_⟩
    cases ht'
  | create env args =>
    obtain ⟨hle, _, _, rfl⟩ := h
    exact ⟨rfl, rfl, hle, fun tick' ht' ↦ ⟨tick', ht', rfl, rfl, fun item hi ↦ .inl hi⟩⟩
  | operate request env op =>
    obtain ⟨_, hle, rfl⟩ := h
    exact ⟨rfl, rfl, hle, fun tick' ht' ↦ ⟨tick', ht', rfl, rfl, fun item hi ↦ .inl hi⟩⟩

/-- What an action outside the timer transaction does to the times of a step. -/
structure StepEffect (st st' : Site) (i : ℕ) (s t : ApprovalStep) : Prop where
  id : t.id = s.id
  started : s.status ≠ .waiting →
    t.status ≠ .waiting ∧ t.activatedAt = s.activatedAt ∧ t.dueAt = s.dueAt
  activated : t.activatedAt = s.activatedAt ∨ t.activatedAt = some st'.clock
  overdue : t.overdueAt = s.overdueAt ∨ ∃ tick, st.tick = some tick ∧
    ⟨.overdue, i, s.id⟩ ∈ tick.items ∧ t.overdueAt = some tick.moment ∧
    ∃ due ∈ s.dueAt, due ≤ tick.moment

theorem Timed.effect {st st' : Site} {i : ℕ} {s t : ApprovalStep} (h : Timed st'.clock s t)
    (hid : t.id = s.id) : StepEffect st st' i s t :=
  ⟨hid, h.started, h.activated, .inl h.overdue⟩

theorem Touch.steps {st st' : Site} {i : ℕ} {r r' : Request} (h : Touch st st' i r r')
    (hk : Keyed r) : ∃ g, r'.steps = r.steps.map g ∧
      ∀ s ∈ r.steps, StepEffect st st' i s (g s) := by
  cases h with
  | same => exact ⟨id, by simp, fun s _ ↦ (Timed.refl _ s).effect rfl⟩
  | ran run timing now =>
    obtain ⟨g, hg, hgs⟩ := Operation.run_steady hk timing run
    rw [now] at hgs
    exact ⟨g, hg, fun s hs ↦ (hgs s hs).2.effect (hgs s hs).1⟩
  | @fired env stepId tick r' run now moment during item =>
    obtain ⟨s₀, hs₀, hid₀, _, _, hdue, g, hg, hgs⟩ := overdue_steady env hk (sweepItem_cases run).2
    rw [now] at hgs
    let mark := fun s : ApprovalStep ↦
      if s.id = stepId then { s with overdueAt := some env.moment } else s
    have hmark : (markOverdue env stepId r).steps = r.steps.map mark := rfl
    refine ⟨g ∘ mark, by rw [hg, hmark, List.map_map], fun s hs ↦ ?_⟩
    obtain ⟨hid, ht⟩ := hgs (mark s) (hmark ▸ List.mem_map_of_mem hs)
    by_cases hsid : s.id = stepId
    · have hm : mark s = { s with overdueAt := some env.moment } := if_pos hsid
      rw [hm] at hid ht
      have hover := ht.overdue
      rw [Function.comp_apply, hm]
      have he : s = s₀ := hk.step_eq hs hs₀ (hsid.trans hid₀.symm)
      rw [moment] at hdue
      rw [← hsid] at item
      refine ⟨hid, ht.started, ht.activated, .inr ⟨tick, during, item, ?_, he ▸ hdue⟩⟩
      rw [hover, ← moment]
    · have hm : mark s = s := if_neg hsid
      rw [hm] at hid ht
      rw [Function.comp_apply, hm]
      exact ht.effect hid

theorem Touch.request {st st' : Site} {i : ℕ} {r r' : Request} (h : Touch st st' i r r')
    (hr : approvalMachine.Reachable r) : approvalMachine.Reachable r' ∧
      r'.subjectType = r.subjectType ∧ (r'.status = .pending → r.status = .pending) := by
  have hstep : ∀ {env op}, Operation.run env r op = some r' →
      approvalMachine.Reachable r' ∧ r'.subjectType = r.subjectType ∧
        (r'.status = .pending → r.status = .pending) := by
    intro env op hrun
    have hst : approvalMachine.step r (env, op) r' := hrun
    exact ⟨hr.step hst, Operation.run_subjectType (reachable_invariant hr).1.keyed hrun,
      fun _ ↦ (Operation.run_cases hrun).1⟩
  cases h with
  | same => exact ⟨hr, rfl, id⟩
  | ran run _ _ => exact hstep run
  | fired run _ _ _ _ => exact hstep run

theorem reachable_keyed {r : Request} (h : approvalMachine.Reachable r) : Keyed r :=
  (reachable_invariant h).1.keyed

/-- The timer transaction on a request: an operation of the sweeper, or nothing. -/
theorem shiftRequest_request (st : Site) (read : TimersRead) {r : Request}
    (hr : approvalMachine.Reachable r) : approvalMachine.Reachable (st.shiftRequest read r) ∧
      (st.shiftRequest read r).subjectType = r.subjectType ∧
      (st.shiftRequest read r).status = r.status := by
  unfold Site.shiftRequest
  split
  · rename_i since seen _
    split
    · rename_i hp
      refine ⟨?_, rfl, rfl⟩
      have hst : approvalMachine.step r (sampleEnv, .shiftTimers since seen (read.moment - since))
          (shiftTimers since seen r (read.moment - since)) := if_pos hp
      exact hr.step hst
    · exact ⟨hr, rfl, rfl⟩
  · exact ⟨hr, rfl, rfl⟩

theorem newSteps_fresh (position : ℕ) (specs : List StepSpec) :
    ∀ s ∈ newSteps position specs, s.activatedAt = none ∧ s.overdueAt = none := by
  induction specs generalizing position with
  | nil => simp [newSteps]
  | cons spec specs ih =>
    intro s hs
    rcases List.mem_cons.mp hs with rfl | hs
    · exact ⟨rfl, rfl⟩
    · exact ih (position + 1) s hs

theorem requestApproval_times {env : Env} {args : RequestArgs} {r : Request}
    (h : requestApproval env args = .ok r) :
    ∀ s ∈ r.steps, (∀ a ∈ s.activatedAt, a = env.now) ∧ s.overdueAt = none := by
  obtain ⟨g, hg, hgs⟩ := activateFrom_steady env (waitingSteps (createRequest env args) + 1)
    (createRequest_sound env args).keyed
  rw [requestApproval_cases h]
  intro s hs
  unfold activateNextStage at hs
  rw [hg] at hs
  obtain ⟨t, ht, rfl⟩ := List.mem_map.mp hs
  obtain ⟨hact, hover⟩ := newSteps_fresh 1 args.definition.steps t ht
  obtain ⟨_, htimed⟩ := hgs t ht
  refine ⟨fun a ha ↦ ?_, htimed.overdue.trans hover⟩
  rcases htimed.activated with he | he
  · rw [he, hact] at ha; cases ha
  · rw [he] at ha; exact (Option.some.inj ha).symm

/-- What holds of a site between any two actions. -/
structure Timely (st : Site) : Prop where
  requests : ∀ (i : ℕ) (r : Request), st.requests[i]? = some r → approvalMachine.Reachable r
  past : ∀ (i : ℕ) (r : Request), st.requests[i]? = some r → ∀ s ∈ r.steps, ∀ a ∈ s.activatedAt, a ≤ st.clock
  running : ∀ key tick, st.timers key = some (.running tick) → tick ≤ st.clock
  paused : ∀ key since seen, st.timers key = some (.paused since seen) →
    since ≤ seen ∧ seen ≤ st.clock
  chain : ∀ i id, (st.pauses i id).Pairwise fun x y ↦ x.moment ≤ y.since
  proper : ∀ i id, ∀ p ∈ st.pauses i id, p.since < p.moment ∧ p.moment ≤ st.clock
  owned : ∀ i id, ∀ p ∈ st.pauses i id, ∃ r, st.requests[i]? = some r ∧
    (∀ e, st.timers r.subjectType = some e → p.moment ≤ e.since) ∧
    ∃ s ∈ r.steps, s.id = id ∧ s.status ≠ .waiting
  items : ∀ tick, st.tick = some tick → ∀ item ∈ tick.items, ∃ r,
    st.requests[item.request]? = some r ∧ r.subjectType ∉ tick.paused

theorem Timely.since_le {st : Site} (h : Timely st) {key : String} {e : TimerEntry}
    (he : st.timers key = some e) : e.since ≤ st.clock := by
  cases e with
  | running tick => exact h.running key tick he
  | paused since seen => exact (h.paused key since seen he).1.trans (h.paused key since seen he).2

theorem Timely.touch {st st' : Site} {a : SweepAction} (h : Timely st) (hst : a.step st st')
    (ha : a.isTimers = false) : Timely st' := by
  obtain ⟨htimers, hpauses, hclock, htick⟩ := step_frame hst ha
  constructor
  · intro i r' hr'
    rcases step_requests hst ha hr' with ⟨r, hr, ht⟩ | ⟨_, env, args, hreq, _⟩
    · exact (ht.request (h.requests i r hr)).1
    · exact .start ⟨env, args, hreq⟩
  · intro i r' hr' t ht' a ha'
    rcases step_requests hst ha hr' with ⟨r, hr, ht⟩ | ⟨_, env, args, hreq, hnow⟩
    · obtain ⟨g, hg, heff⟩ := ht.steps (reachable_keyed (h.requests i r hr))
      rw [hg] at ht'
      obtain ⟨s, hs, rfl⟩ := List.mem_map.mp ht'
      rcases (heff s hs).activated with he | he
      · rw [he] at ha'
        exact (h.past i r hr s hs a ha').trans hclock
      · rw [he] at ha'
        exact (Option.some.inj ha').ge
    · exact ((requestApproval_times hreq t ht').1 a ha').trans hnow |>.le
  · intro key tick he
    rw [htimers] at he
    exact (h.running key tick he).trans hclock
  · intro key since seen he
    rw [htimers] at he
    exact ⟨(h.paused key since seen he).1, (h.paused key since seen he).2.trans hclock⟩
  · rw [hpauses]
    exact h.chain
  · rw [hpauses]
    intro i id p hp
    exact ⟨(h.proper i id p hp).1, (h.proper i id p hp).2.trans hclock⟩
  · rw [hpauses, htimers]
    intro i id p hp
    obtain ⟨r, hr, hentry, s, hs, hid, hw⟩ := h.owned i id p hp
    obtain ⟨r', hr'⟩ := step_keeps_requests hst hr
    rcases step_requests hst ha hr' with ⟨r₀, hr₀, ht⟩ | ⟨hnone, _⟩
    · obtain rfl := Option.some.inj (hr.symm.trans hr₀)
      have hreach := h.requests i r hr
      obtain ⟨g, hg, heff⟩ := ht.steps (reachable_keyed hreach)
      refine ⟨r', hr', ?_, g s, hg ▸ List.mem_map_of_mem hs, (heff s hs).id.trans hid,
        ((heff s hs).started hw).1⟩
      rw [(ht.request hreach).2.1]
      exact hentry
    · rw [hr] at hnone; cases hnone
  · intro tick' ht' item hitem
    obtain ⟨tick, ht, _, hp, hitems⟩ := htick tick' ht'
    rw [hp]
    obtain ⟨r, hr, hno⟩ : ∃ r, st.requests[item.request]? = some r ∧ r.subjectType ∉ tick.paused := by
      rcases hitems item hitem with hmem | ⟨r, hr, hno, _⟩
      · exact h.items tick ht item hmem
      · exact ⟨r, hr, hno⟩
    obtain ⟨r', hr'⟩ := step_keeps_requests hst hr
    refine ⟨r', hr', ?_⟩
    rcases step_requests hst ha hr' with ⟨r₀, hr₀, ht⟩ | ⟨hnone, _⟩
    · obtain rfl := Option.some.inj (hr.symm.trans hr₀)
      rw [(ht.request (h.requests _ r hr)).2.1]
      exact hno
    · rw [hr] at hnone; cases hnone

theorem runTimers_requests {st : Site} {read : TimersRead} {sweep : Bool} {i : ℕ} {r' : Request}
    (h : (st.runTimers read sweep).requests[i]? = some r') :
    ∃ r, st.requests[i]? = some r ∧ r' = st.shiftRequest read r := by
  rw [Site.runTimers, List.getElem?_map] at h
  obtain ⟨r, hr, he⟩ := Option.map_eq_some_iff.mp h
  exact ⟨r, hr, he.symm⟩

theorem shiftRequest_steps (st : Site) (read : TimersRead) (r : Request) :
    ∃ g, (st.shiftRequest read r).steps = r.steps.map g ∧ ∀ s, (g s).id = s.id ∧
      (g s).status = s.status ∧ (g s).activatedAt = s.activatedAt ∧
      (g s).overdueAt = s.overdueAt := by
  have hsame : ∃ g : ApprovalStep → ApprovalStep, r.steps = r.steps.map g ∧ ∀ s, (g s).id = s.id ∧
      (g s).status = s.status ∧ (g s).activatedAt = s.activatedAt ∧
      (g s).overdueAt = s.overdueAt := ⟨id, by simp, fun _ ↦ ⟨rfl, rfl, rfl, rfl⟩⟩
  unfold Site.shiftRequest
  split
  · split
    · exact ⟨_, rfl, shiftStep_keeps _ _⟩
    · exact hsame
  · exact hsame

theorem endingPause_eq_some {read : TimersRead} {key : String} {entry : Option TimerEntry}
    {since seen : ℕ} : endingPause read key entry = some (since, seen) ↔
      read.stands key = false ∧ entry = some (.paused since seen) ∧ since < read.moment := by
  unfold endingPause
  constructor
  · intro h
    split at h
    · cases h
    · rename_i hs
      split at h
      · split at h
        · rename_i hlt
          cases h
          exact ⟨by simpa using hs, rfl, hlt⟩
        · cases h
      all_goals cases h
  · rintro ⟨hs, rfl, hlt⟩
    simp [hs, hlt]

theorem mem_newPauses {st : Site} {read : TimersRead} {i id : ℕ} {p : Pause}
    (h : p ∈ st.newPauses read i id) : ∃ r since seen, st.requests[i]? = some r ∧
      st.timers r.subjectType = some (.paused since seen) ∧ since < read.moment ∧
      p = ⟨since, read.moment⟩ ∧ r.status = .pending ∧ read.stands r.subjectType = false ∧
      ∃ s ∈ r.steps, s.id = id ∧ Site.deadlineMoves seen s = true := by
  unfold Site.newPauses at h
  split at h
  · cases h
  · rename_i r hr
    split at h
    · rename_i since seen hend
      obtain ⟨hstands, hentry, hlt⟩ := endingPause_eq_some.mp hend
      split at h
      · rename_i hcond
        obtain ⟨hp, hany⟩ := hcond
        obtain ⟨s, hs, hmoves⟩ := List.any_eq_true.mp hany
        obtain ⟨hid, hmoves⟩ := of_decide_eq_true hmoves
        exact ⟨r, since, seen, hr, hentry, hlt, List.mem_singleton.mp h, hp, hstands, s, hs, hid,
          hmoves⟩
      · cases h
    · cases h

theorem newPauses_length (st : Site) (read : TimersRead) (i id : ℕ) :
    (st.newPauses read i id).Pairwise fun _ _ ↦ False := by
  unfold Site.newPauses
  split
  · exact .nil
  · split
    · split
      · exact List.pairwise_singleton _ _
      · exact .nil
    · exact .nil

theorem nextEntry_since {read : TimersRead} {key : String} {entry : Option TimerEntry} {n : ℕ}
    (h : ∀ e, entry = some e → n ≤ e.since) (hn : n ≤ read.moment) :
    n ≤ (nextEntry read key entry).since := by
  unfold nextEntry
  split
  · cases entry with
    | none => exact hn
    | some e => exact h e rfl
  · exact hn

theorem Timely.timers {st : Site} {read : TimersRead} {sweep : Bool} (h : Timely st)
    (hclock : st.clock ≤ read.moment) : Timely (st.runTimers read sweep) := by
  constructor
  · intro i r' hr'
    obtain ⟨r, hr, rfl⟩ := runTimers_requests hr'
    exact (shiftRequest_request st read (h.requests i r hr)).1
  · intro i r' hr' t ht a ha
    obtain ⟨r, hr, rfl⟩ := runTimers_requests hr'
    obtain ⟨g, hg, hgs⟩ := shiftRequest_steps st read r
    rw [hg] at ht
    obtain ⟨s, hs, rfl⟩ := List.mem_map.mp ht
    rw [(hgs s).2.2.1] at ha
    exact (h.past i r hr s hs a ha).trans hclock
  · intro key tick he
    simp only [Site.runTimers, nextEntry] at he ⊢
    split at he
    · split at he
      · cases he
      · cases he; exact le_rfl
    · cases he
  · intro key since seen he
    simp only [Site.runTimers, nextEntry] at he ⊢
    split at he
    · split at he
      · cases he
        refine ⟨?_, le_rfl⟩
        cases hentry : st.timers key with
        | none => exact le_rfl
        | some e => exact (h.since_le hentry).trans hclock
      · cases he
    · cases he
  · intro i id
    refine List.pairwise_append.mpr ⟨h.chain i id,
      (newPauses_length st read i id).imp fun hf ↦ hf.elim, ?_⟩
    intro x hx y hy
    obtain ⟨r, since, seen, hr, hentry, _, rfl, _⟩ := mem_newPauses hy
    obtain ⟨r₀, hr₀, hbehind, _⟩ := h.owned i id x hx
    obtain rfl := Option.some.inj (hr.symm.trans hr₀)
    exact hbehind _ hentry
  · intro i id p hp
    rcases List.mem_append.mp hp with hp | hp
    · exact ⟨(h.proper i id p hp).1, (h.proper i id p hp).2.trans hclock⟩
    · obtain ⟨r, since, seen, _, _, hlt, rfl, _⟩ := mem_newPauses hp
      exact ⟨hlt, le_rfl⟩
  · intro i id p hp
    have hex : ∃ r, st.requests[i]? = some r ∧ (∃ s ∈ r.steps, s.id = id ∧ s.status ≠ .waiting) ∧
        p.moment ≤ (nextEntry read r.subjectType (st.timers r.subjectType)).since := by
      rcases List.mem_append.mp hp with hp | hp
      · obtain ⟨r, hr, hbehind, hs⟩ := h.owned i id p hp
        exact ⟨r, hr, hs, nextEntry_since hbehind ((h.proper i id p hp).2.trans hclock)⟩
      · obtain ⟨r, since, seen, hr, _, _, rfl, _, hstands, s, hs, hid, hmoves⟩ := mem_newPauses hp
        refine ⟨r, hr, ⟨s, hs, hid, ?_⟩, ?_⟩
        · rw [(of_decide_eq_true hmoves).1]
          simp
        · rw [nextEntry, if_neg (by simp [hstands])]
          exact le_rfl
    obtain ⟨r, hr, ⟨s, hs, hid, hw⟩, hle⟩ := hex
    obtain ⟨g, hg, hgs⟩ := shiftRequest_steps st read r
    refine ⟨st.shiftRequest read r, ?_, ?_, g s, hg ▸ List.mem_map_of_mem hs, (hgs s).1.trans hid,
      by rw [(hgs s).2.1]; exact hw⟩
    · rw [Site.runTimers, List.getElem?_map, hr]
      rfl
    · rw [(shiftRequest_request st read (h.requests i r hr)).2.1]
      intro e he
      simp only [Site.runTimers] at he
      split at he
      · rw [← Option.some.inj he]; exact hle
      · cases he
  · intro tick ht item hitem
    simp only [Site.runTimers] at ht
    split at ht
    · rw [← Option.some.inj ht] at hitem
      cases hitem
    · cases ht

theorem Timely.step {st st' : Site} {a : SweepAction} (h : Timely st) (hst : a.step st st') :
    Timely st' := by
  cases ha : a.isTimers with
  | true =>
    cases a <;> cases ha
    obtain ⟨hclock, rfl⟩ := hst
    exact h.timers hclock
  | false => exact h.touch hst ha

theorem sweepMachine_timely {st : Site} (h : sweepMachine.Reachable st) : Timely st := by
  refine h.invariant ?_ fun s a t hs hst ↦ hs.step hst
  rintro s ⟨hreq, htimers, htick, hpauses⟩
  constructor <;> simp [hreq, htimers, htick, hpauses]

/-- How long the deadline of a step was moved so far. -/
def Site.pausedFor (st : Site) (i id : ℕ) : ℕ := ((st.pauses i id).map Pause.length).sum

/-- The timer transaction and one step: its deadline moves by the pause and the history says so,
or neither. -/
theorem shiftRequest_step {st : Site} (read : TimersRead) {i : ℕ} {r : Request} {s : ApprovalStep}
    (hr : st.requests[i]? = some r) (hk : Keyed r) (hs : s ∈ r.steps) :
    ∃ t ∈ (st.shiftRequest read r).steps, t.id = s.id ∧ t.status = s.status ∧
      t.activatedAt = s.activatedAt ∧ t.overdueAt = s.overdueAt ∧
      ((∃ since seen, endingPause read r.subjectType (st.timers r.subjectType) = some (since, seen) ∧
          r.status = .pending ∧ Site.deadlineMoves seen s = true ∧
          st.newPauses read i s.id = [⟨since, read.moment⟩] ∧
          t.dueAt = s.dueAt.map (· + (read.moment - since))) ∨
        (∀ since seen, endingPause read r.subjectType (st.timers r.subjectType) =
          some (since, seen) → r.status = .pending → Site.deadlineMoves seen s = false) ∧
          st.newPauses read i s.id = [] ∧ t.dueAt = s.dueAt) := by
  have hany : ∀ seen, (r.steps.any fun u ↦ u.id = s.id ∧ Site.deadlineMoves seen u) =
      Site.deadlineMoves seen s := by
    intro seen
    rw [Bool.eq_iff_iff, List.any_eq_true]
    constructor
    · rintro ⟨u, hu, he⟩
      obtain ⟨hid, hm⟩ := of_decide_eq_true he
      rwa [← hk.step_eq hu hs hid]
    · intro hm
      exact ⟨s, hs, decide_eq_true ⟨rfl, hm⟩⟩
  unfold Site.shiftRequest Site.newPauses
  rw [hr]
  simp only [hany]
  cases hend : endingPause read r.subjectType (st.timers r.subjectType) with
  | none =>
    refine ⟨s, hs, rfl, rfl, rfl, rfl, .inr ⟨fun _ _ h ↦ ?_, rfl, rfl⟩⟩
    cases h
  | some pause =>
    obtain ⟨since, seen⟩ := pause
    simp only
    by_cases hp : r.status = .pending
    · rw [if_pos hp]
      obtain ⟨h₁, h₂, h₃, h₄⟩ := shiftStep_keeps seen (read.moment - since) s
      refine ⟨_, List.mem_map_of_mem hs, h₁, h₂, h₃, h₄, ?_⟩
      rw [shiftStep_dueAt]
      cases hm : Site.deadlineMoves seen s with
      | true =>
        exact .inl ⟨since, seen, rfl, hp, hm, by simp [hp], by simp⟩
      | false =>
        refine .inr ⟨fun _ _ h _ ↦ ?_, by simp, by simp⟩
        cases h
        exact hm
    · rw [if_neg hp]
      exact ⟨s, hs, rfl, rfl, rfl, rfl, .inr ⟨fun _ _ _ h ↦ absurd h hp, by simp [hp], rfl⟩⟩

/-- A step activated at `a` with its deadline `h` later, moved by its pauses so far. -/
def Tracked (st : Site) (i id a h : ℕ) : Prop :=
  ∃ r s, st.requests[i]? = some r ∧ s ∈ r.steps ∧ s.id = id ∧ s.status ≠ .waiting ∧
    s.activatedAt = some a ∧ s.dueAt = some (a + h + st.pausedFor i id) ∧
    ∀ m ∈ s.overdueAt, a + h + st.pausedFor i id ≤ m

theorem Tracked.step {st st' : Site} {act : SweepAction} {i id a h : ℕ} (ht : Tracked st i id a h)
    (hi : Timely st) (hst : act.step st st') : Tracked st' i id a h := by
  obtain ⟨r, s, hr, hs, rfl, hw, hact, hdue, hover⟩ := ht
  have hk := reachable_keyed (hi.requests i r hr)
  cases ha : act.isTimers with
  | true =>
    cases act <;> cases ha
    rename_i read sweep
    obtain ⟨_, rfl⟩ := hst
    obtain ⟨t, ht, hid, hstatus, hact', hover', hmove⟩ := shiftRequest_step read hr hk hs
    have hr' : (st.runTimers read sweep).requests[i]? = some (st.shiftRequest read r) := by
      rw [Site.runTimers, List.getElem?_map, hr]
      rfl
    have hsum : (st.runTimers read sweep).pausedFor i s.id =
        st.pausedFor i s.id + ((st.newPauses read i s.id).map Pause.length).sum := by
      simp only [Site.pausedFor, Site.runTimers, List.map_append, List.sum_append]
    refine ⟨_, t, hr', ht, hid, hstatus ▸ hw, hact'.trans hact, ?_⟩
    rw [hover']
    rcases hmove with ⟨since, seen, hend, _, hm, hnew, hdue'⟩ | ⟨_, hnew, hdue'⟩
    · rw [hnew] at hsum
      obtain ⟨_, _, _, hnone⟩ := of_decide_eq_true hm
      refine ⟨?_, by simp [hnone]⟩
      rw [hdue', hdue, hsum]
      simp only [Option.map_some, List.map_cons, List.map_nil, List.sum_cons, List.sum_nil,
        Pause.length]
      congr 1
      omega
    · rw [hnew] at hsum
      rw [hdue', hdue, hsum]
      exact ⟨rfl, hover⟩
  | false =>
    obtain ⟨_, hpauses, _, _⟩ := step_frame hst ha
    obtain ⟨r', hr'⟩ := step_keeps_requests hst hr
    rcases step_requests hst ha hr' with ⟨r₀, hr₀, htouch⟩ | ⟨hnone, _⟩
    · obtain rfl := Option.some.inj (hr.symm.trans hr₀)
      obtain ⟨g, hg, heff⟩ := htouch.steps hk
      obtain ⟨hw', hact', hdue'⟩ := (heff s hs).started hw
      refine ⟨r', g s, hr', hg ▸ List.mem_map_of_mem hs, (heff s hs).id, hw', hact'.trans hact, ?_⟩
      unfold Site.pausedFor at hdue hover ⊢
      rw [hpauses]
      refine ⟨hdue'.trans hdue, fun m hm ↦ ?_⟩
      rcases (heff s hs).overdue with he | ⟨tick, _, _, he, due, hd, hle⟩
      · exact hover m (he ▸ hm)
      · rw [he] at hm
        rw [hdue] at hd
        rw [← Option.some.inj hm, Option.some.inj hd]
        exact hle
    · rw [hr] at hnone; cases hnone

theorem Tracked.run {st st' : Site} {as : List SweepAction} {i id a h : ℕ}
    (ht : Tracked st i id a h) (hi : Timely st) (hrun : sweepMachine.Run st as st') :
    Tracked st' i id a h := by
  have hboth := hrun.invariant (I := fun st ↦ Timely st ∧ Tracked st i id a h) ?_ ⟨hi, ht⟩
  · exact hboth.2
  · rintro s act t ⟨hs, hts⟩ hst
    exact ⟨hs.step hst, hts.step hs hst⟩

theorem Timely.unshifted {st : Site} (h : Timely st) {i : ℕ} {r : Request} {s : ApprovalStep}
    (hr : st.requests[i]? = some r) (hs : s ∈ r.steps) (hw : s.status = .waiting) :
    st.pausedFor i s.id = 0 := by
  have hnil : st.pauses i s.id = [] := by
    apply List.eq_nil_iff_forall_not_mem.mpr
    intro p hp
    obtain ⟨r₀, hr₀, _, t, ht, hid, hno⟩ := h.owned i s.id p hp
    obtain rfl := Option.some.inj (hr.symm.trans hr₀)
    rw [(reachable_keyed (h.requests i r hr)).step_eq ht hs hid] at hno
    exact hno hw
  rw [Site.pausedFor, hnil]
  rfl

/-- The i-th request of the site has this step. -/
def Site.HasStep (st : Site) (i : ℕ) (r : Request) (s : ApprovalStep) : Prop :=
  st.requests[i]? = some r ∧ s ∈ r.steps

/-- A sweep under way leaves the types alone that it found paused, and every deadline reported
since had been reported before. -/
structure Silent (start : Site) (key : String) (st : Site) : Prop where
  tick : ∀ tick, st.tick = some tick → key ∈ tick.paused
  reported : ∀ i r s, st.HasStep i r s → r.subjectType = key → ∀ m, s.overdueAt = some m →
    ∃ r₀ s₀, start.HasStep i r₀ s₀ ∧ s₀.id = s.id ∧ s₀.overdueAt = some m

theorem Silent.step {start st st' : Site} {key : String} {a : SweepAction}
    (h : Silent start key st) (hi : Timely st) (hst : a.step st st') (ha : a.isTimers = false) :
    Silent start key st' := by
  obtain ⟨_, _, _, htick⟩ := step_frame hst ha
  constructor
  · intro tick' ht'
    obtain ⟨tick, ht, _, hp, _⟩ := htick tick' ht'
    rw [hp]
    exact h.tick tick ht
  · rintro i r' t ⟨hr', ht⟩ hkey m hm
    rcases step_requests hst ha hr' with ⟨r, hr, htouch⟩ | ⟨_, env, args, hreq, _⟩
    · have hreach := hi.requests i r hr
      rw [(htouch.request hreach).2.1] at hkey
      obtain ⟨g, hg, heff⟩ := htouch.steps (reachable_keyed hreach)
      rw [hg] at ht
      obtain ⟨s, hs, rfl⟩ := List.mem_map.mp ht
      rcases (heff s hs).overdue with he | ⟨tick, hdur, hitem, _⟩
      · rw [he] at hm
        rw [(heff s hs).id]
        exact h.reported i r s ⟨hr, hs⟩ hkey m hm
      · obtain ⟨r₀, hr₀, hno⟩ := hi.items tick hdur _ hitem
        obtain rfl := Option.some.inj (hr.symm.trans hr₀)
        exact absurd (hkey ▸ h.tick tick hdur) hno
    · rw [(requestApproval_times hreq t ht).2] at hm
      cases hm

theorem Silent.start {st : Site} {read : TimersRead} {sweep : Bool} {key : String}
    (hkey : key ∈ st.keys read) (hstands : read.stands key = true) :
    Silent (st.runTimers read sweep) key (st.runTimers read sweep) := by
  constructor
  · intro tick ht
    simp only [Site.runTimers] at ht
    split at ht
    · rw [← Option.some.inj ht]
      exact List.mem_filter.mpr ⟨hkey, hstands⟩
    · cases ht
  · intro i r s hs _ m hm
    exact ⟨r, s, hs, rfl, hm⟩

/-- Whether the ticks of an action, if it is one, find the type paused. -/
def SweepAction.pauses (key : String) : SweepAction → Bool
  | .timers read _ => read.stands key
  | .fetch _ | .item _ | .stop | .create .. | .operate .. => true

/-- A started step of a type whose last running tick was at `t₀`, in the pause since. -/
def Held (key : String) (t₀ clock i id a due : ℕ) (st : Site) : Prop :=
  clock ≤ st.clock ∧ ∃ r s, st.requests[i]? = some r ∧ r.subjectType = key ∧ s ∈ r.steps ∧
    s.id = id ∧ s.status ≠ .waiting ∧ s.activatedAt = some a ∧ s.dueAt = some due ∧
    (r.status = .pending → st.timers key = some (.running t₀) ∨
      ∃ seen, st.timers key = some (.paused t₀ seen) ∧ clock ≤ seen)

theorem mem_keys {st : Site} {read : TimersRead} {i : ℕ} {r : Request}
    (hr : st.requests[i]? = some r) (hp : r.status = .pending) : r.subjectType ∈ st.keys read := by
  refine List.mem_append_right _ (List.mem_map_of_mem (List.mem_filter.mpr ⟨?_, decide_eq_true hp⟩))
  exact List.mem_of_getElem? hr

theorem Held.step {key : String} {t₀ clock i id a due : ℕ} {st st' : Site} {act : SweepAction}
    (h : Held key t₀ clock i id a due st) (hi : Timely st) (hst : act.step st st')
    (hp : act.pauses key = true) : Held key t₀ clock i id a due st' := by
  obtain ⟨hclock, r, s, hr, rfl, hs, rfl, hw, hact, hdue, hentry⟩ := h
  have hreach := hi.requests i r hr
  have hk := reachable_keyed hreach
  cases ha : act.isTimers with
  | true =>
    cases act <;> cases ha
    rename_i read sweep
    obtain ⟨hle, rfl⟩ := hst
    have hstands : read.stands r.subjectType = true := hp
    obtain ⟨_, htype, hstatus⟩ := shiftRequest_request st read hreach
    obtain ⟨t, ht, hid, hst', hact', _, hmove⟩ := shiftRequest_step read hr hk hs
    have hdue' : t.dueAt = s.dueAt := by
      rcases hmove with ⟨since, seen, hend, _⟩ | ⟨_, _, hdue'⟩
      · rw [(endingPause_eq_some.mp hend).1] at hstands
        cases hstands
      · exact hdue'
    have hr' : (st.runTimers read sweep).requests[i]? = some (st.shiftRequest read r) := by
      rw [Site.runTimers, List.getElem?_map, hr]
      rfl
    refine ⟨hclock.trans hle, _, t, hr', htype, ht, hid, hst' ▸ hw, hact'.trans hact,
      hdue'.trans hdue, fun hp' ↦ ?_⟩
    rw [hstatus] at hp'
    right
    refine ⟨read.moment, ?_, hclock.trans hle⟩
    simp only [Site.runTimers, mem_keys hr hp', if_true, nextEntry, hstands]
    rcases hentry hp' with he | ⟨seen, he, _⟩
    · rw [he]; rfl
    · rw [he]; rfl
  | false =>
    obtain ⟨htimers, _, hle, _⟩ := step_frame hst ha
    obtain ⟨r', hr'⟩ := step_keeps_requests hst hr
    rcases step_requests hst ha hr' with ⟨r₀, hr₀, htouch⟩ | ⟨hnone, _⟩
    · obtain rfl := Option.some.inj (hr.symm.trans hr₀)
      obtain ⟨g, hg, heff⟩ := htouch.steps hk
      obtain ⟨hw', hact', hdue'⟩ := (heff s hs).started hw
      obtain ⟨_, htype, hopen⟩ := htouch.request hreach
      refine ⟨hclock.trans hle, r', g s, hr', htype, hg ▸ List.mem_map_of_mem hs, (heff s hs).id,
        hw', hact'.trans hact, hdue'.trans hdue, fun hp' ↦ ?_⟩
      rw [htimers]
      exact hentry (hopen hp')
    · rw [hr] at hnone; cases hnone

/-- The first running tick after a pause. -/
theorem Held.resume {key : String} {t₀ clock i id a due : ℕ} {st : Site} {read : TimersRead}
    {sweep : Bool} (h : Held key t₀ clock i id a due st) (hi : Timely st) (hle : st.clock ≤ read.moment)
    (hrun : read.stands key = false) (hpaused : ∃ since seen, st.timers key = some (.paused since seen))
    (ha : a ≤ clock) (hlate : t₀ < due) {r : Request} {s : ApprovalStep}
    (hstep : st.HasStep i r s) (hid : s.id = id) (hp : r.status = .pending)
    (hactive : s.status = .active) (hnone : s.overdueAt = none) :
    ∃ r' t, (st.runTimers read sweep).HasStep i r' t ∧ t.id = id ∧
      t.dueAt = some (due + (read.moment - t₀)) ∧ read.moment < due + (read.moment - t₀) := by
  obtain ⟨hr, hs⟩ := hstep
  obtain ⟨_, r₀, s₀, hr₀, rfl, hs₀, hid₀, _, hact, hdue, hentry⟩ := h
  obtain rfl := Option.some.inj (hr.symm.trans hr₀)
  have hk := reachable_keyed (hi.requests i r hr)
  obtain rfl := hk.step_eq hs hs₀ (hid.trans hid₀.symm)
  obtain ⟨seen, he, hseen⟩ : ∃ seen, st.timers r.subjectType = some (.paused t₀ seen) ∧
      clock ≤ seen := by
    rcases hentry hp with he | hseen
    · obtain ⟨since, seen, hp'⟩ := hpaused
      rw [he] at hp'
      cases hp'
    · exact hseen
  have hstart : t₀ ≤ read.moment := (hi.since_le he).trans hle
  have hmoves : Site.deadlineMoves seen s = true := by
    refine decide_eq_true ⟨hactive, ?_, by rw [hdue]; rfl, hnone⟩
    rw [hact]
    exact decide_eq_true (ha.trans hseen)
  obtain ⟨t, ht, htid, _, _, _, hmove⟩ := shiftRequest_step read hr hk hs
  have hr' : (st.runTimers read sweep).requests[i]? = some (st.shiftRequest read r) := by
    rw [Site.runTimers, List.getElem?_map, hr]
    rfl
  refine ⟨_, t, ⟨hr', ht⟩, htid.trans hid, ?_, by omega⟩
  rcases hmove with ⟨since, seen', hend, _, _, _, hdue'⟩ | ⟨hno, _, hdue'⟩
  · obtain ⟨_, he', _⟩ := endingPause_eq_some.mp hend
    rw [he] at he'
    cases he'
    rw [hdue', hdue]
    rfl
  · have hzero : read.moment - t₀ = 0 := by
      by_contra hne
      have hend := endingPause_eq_some.mpr ⟨hrun, he, (by omega : t₀ < read.moment)⟩
      rw [hno t₀ seen hend hp] at hmoves
      cases hmoves
    rw [hdue', hdue, hzero]
    rfl

def sampleRead (moment : ℕ) (enabled : Bool) : TimersRead := ⟨moment, enabled, [], ["ticket"]⟩

def emptySite : Site := ⟨[], fun _ ↦ none, 0, none, fun _ _ ↦ []⟩

theorem reachable_timers {st : Site} (h : sweepMachine.Reachable st) (read : TimersRead)
    (sweep : Bool) (hle : st.clock ≤ read.moment) :
    sweepMachine.Reachable (st.runTimers read sweep) := by
  have hst : sweepMachine.step st (.timers read sweep) (st.runTimers read sweep) := ⟨hle, rfl⟩
  exact h.step hst

def filedSite (st : Site) : Site :=
  { st with requests := st.requests ++ [sampleRequest], clock := 100 }

/-- A running tick, a request with a deadline of an hour, two paused ticks and a running one. -/
def sampleSite : Site :=
  (((filedSite (emptySite.runTimers (sampleRead 60 true) true)).runTimers
    (sampleRead 160 false) false).runTimers (sampleRead 220 false) true).runTimers
      (sampleRead 280 true) true

theorem sampleSite_reachable : sweepMachine.Reachable sampleSite := by
  have h₀ : sweepMachine.Reachable emptySite :=
    .start ⟨rfl, fun _ ↦ rfl, rfl, fun _ _ ↦ rfl⟩
  have h₁ := reachable_timers h₀ (sampleRead 60 true) true (by decide)
  have hfiled : sweepMachine.step (emptySite.runTimers (sampleRead 60 true) true)
      (.create sampleEnv sampleArgs) (filedSite (emptySite.runTimers (sampleRead 60 true) true)) :=
    ⟨by decide, sampleRequest, sampleRequest_created, rfl⟩
  have h₃ := reachable_timers (h₁.step hfiled) (sampleRead 160 false) false (by decide)
  have h₄ := reachable_timers h₃ (sampleRead 220 false) true (by decide)
  exact reachable_timers h₄ (sampleRead 280 true) true (by decide)

end Tiqora.Approvals
