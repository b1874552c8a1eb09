import Tiqora.Itsm.ChangeOutcomes

namespace Tiqora.Itsm.Change

open Foundation Approvals

variable {cfg : ChangeSettings} {s t u : ChangeState}

def EventDetail.phaseOf : EventDetail → Option (Option ChangePhase × ChangePhase)
  | .phase fromPhase toPhase _ => some (fromPhase, toPhase)
  | _ => none

/-- The steps that the timeline shows. -/
def phaseTrail (events : List ChangeEvent) : List (Option ChangePhase × ChangePhase) :=
  events.filterMap fun e ↦ e.detail.phaseOf

theorem phaseTrail_append (es es' : List ChangeEvent) :
    phaseTrail (es ++ es') = phaseTrail es ++ phaseTrail es' := List.filterMap_append

theorem outcomeIds_append (es es' : List ChangeEvent) :
    outcomeIds (es ++ es') = outcomeIds es ++ outcomeIds es' := List.filterMap_append

/-- The change is approved for the current set and round, since it last was a draft. -/
structure ApprovedInRound (s : ChangeState) : Prop where
  approvedAt : s.row.approvedAt.isSome = true
  current : ∃ p ∈ s.approvedBy, some p.via = s.row.approvalVia ∧
    some p.approvalId = s.row.approvalId ∧ p.round = s.row.approvalRound ∧ p.drafts = s.drafts
  recorded : ∃ e ∈ s.events, ∃ id via reason, s.row.approvalId = some id ∧
    e.detail = .approvalOutcome id s.row.approvalRound .approved via reason

def ChangeRow.needsApproval (row : ChangeRow) : Prop :=
  row.phase = .scheduled ∨
    (row.phase = .implementing ∨ row.phase = .review ∨ row.phase = .closed) ∧
      row.approvalVia ≠ some .post

structure ChangeSafe (s : ChangeState) : Prop where
  approved : s.row.needsApproval → ApprovedInRound s
  cab : s.row.phase = .approval → s.row.approvalVia = some .cab
  issued : ∀ id ∈ s.row.approvalId, id < s.engine.nextId
  outcomes : (outcomeIds s.events).Nodup
  handled : ∀ id ∈ outcomeIds s.events, id < s.engine.nextId
  postDecided : s.row.phase = .closed → s.row.outcome = some .successful →
    s.row.approvalVia = some .post → ∀ id ∈ s.row.approvalId, ∀ set ∈ s.engine.sets.find id,
      set.status = .approved ∨ set.status = .cancelled

/-- A change in its next phase, before the approval engine is asked. -/
structure Entered (s : ChangeState) (target : ChangePhase) (outcome : Option Outcome)
    (u : ChangeState) : Prop where
  phase : u.row.phase = target
  approvalId : u.row.approvalId = s.row.approvalId
  round : u.row.approvalRound = s.row.approvalRound
  via : target ≠ .draft → u.row.approvalVia = s.row.approvalVia
  approvedAt : target ≠ .draft → u.row.approvedAt = s.row.approvedAt
  approvedBy : target ≠ .draft → u.approvedBy = s.approvedBy
  drafts : target ≠ .draft → u.drafts = s.drafts
  outcome : target = .closed → u.row.outcome = outcome
  engine : u.engine = s.engine
  trail : phaseTrail u.events = phaseTrail s.events ++ [(some s.row.phase, target)]
  outcomes : outcomeIds u.events = outcomeIds s.events
  events : ∀ e ∈ s.events, e ∈ u.events

theorem stepEvents_spec (s u : ChangeState) (data : TransitionIn) (call : Call) :
    ∃ extra, stepEvents s data call u = { u with events := u.events ++ extra } ∧
      phaseTrail extra = [(some s.row.phase, data.target)] ∧ outcomeIds extra = [] := by
  rw [stepEvents]
  by_cases ho : overridden s data call = true <;>
    by_cases hf : (forcedTasks s data call || forcedApproval s data call) = true
  all_goals
    simp only [ho, hf, if_true, Bool.false_eq_true, if_false, ChangeState.record,
      List.append_assoc]
    exact ⟨_, rfl, rfl, rfl⟩

theorem transition_entered {data : TransitionIn} {call : Call}
    (h : transition cfg s data call = .ok t) :
    s.row.phase.final = false ∧ checkTransition (guardContext cfg s data call) false = [] ∧
      ∃ u, Entered s data.target data.outcome u ∧
        u.approvalStep cfg s.row.phase s.row.approvalVia (chosenCab cfg s data call) data call =
          .ok t := by
  rw [transition] at h
  split at h
  · cases h
  split at h
  · cases h
  rename_i hfinal
  split at h
  · cases h
  split at h
  · rename_i hrefusals
    have hcheck : checkTransition (guardContext cfg s data call) false = [] := by
      rw [refusals] at hrefusals
      split at hrefusals
      · exact hrefusals
      · exact (List.append_eq_nil_iff.1 hrefusals).1
    refine ⟨Bool.eq_false_iff.2 hfinal, hcheck, ?_⟩
    cases hstate : ticketStateId cfg s.row data call with
    | error e =>
      rw [hstate] at h
      cases h
    | ok stateId =>
      rw [hstate] at h
      obtain ⟨extra, hextra, htrail, houtcomes⟩ := stepEvents_spec s
        { s.enter data.target data.outcome call.now call.userId with
          row := notePir (s.enter data.target data.outcome call.now call.userId).row data }
        data call
      simp only [Except.bind, hextra] at h
      split at h
      · cases h
      · rename_i v hstep
        refine ⟨_, ?_, hstep.trans ?_⟩
        · exact
            { phase := rfl
              approvalId := rfl
              round := rfl
              via := fun hd ↦ if_neg hd
              approvedAt := fun hd ↦ if_neg hd
              approvedBy := fun hd ↦ if_neg hd
              drafts := fun hd ↦ if_neg hd
              outcome := fun hc ↦ if_pos hc
              engine := rfl
              trail := by rw [phaseTrail_append, htrail]; rfl
              outcomes := by rw [outcomeIds_append, houtcomes, List.append_nil]; rfl
              events := fun e he ↦ List.mem_append_left _ he }
        · split at h
          · cases h
          · exact h
  · cases h

/-- The four ways in which the approval engine takes part in a step. -/
theorem approvalStep_cases {fromPhase : ChangePhase} {oldVia : Option Via} {cab : Option Cab}
    {data : TransitionIn} {call : Call}
    (h : u.approvalStep cfg fromPhase oldVia cab data call = .ok t) :
    ((data.target = .approval ∨ (fromPhase, data.target) = (.draft, .implementing)) ∧
      ∃ cab status, t = u.requested cab call (data.target ≠ .approval) status) ∨
    (data.target = .scheduled ∧ ∃ via, t = u.autoDecided via call) ∨
    (data.target = .cancelled ∧ ∃ id,
      t = { u with engine := u.engine.settle id .cancelled (some .cancelled) }) ∨
    (data.target ≠ .approval ∧ (fromPhase, data.target) ≠ (.draft, .implementing) ∧
      (fromPhase, data.target) ≠ (.draft, .scheduled) ∧
      (fromPhase, data.target) ≠ (.assessment, .scheduled) ∧ t = u) := by
  have hauto : ∀ via, u.autoDecide via call = .ok t → t = u.autoDecided via call := by
    intro via h
    rw [ChangeState.autoDecide] at h
    split at h
    · cases h
    · exact (Except.ok.inj h).symm
  unfold ChangeState.approvalStep at h
  split at h
  · rename_i hcab
    refine .inl ⟨hcab, ?_⟩
    split at h
    · rename_i cab
      rw [ChangeState.requestApproval] at h
      split at h
      · cases h
      · rename_i steps _
        cases hreq : call.request steps with
        | error e =>
          rw [hreq] at h
          cases h
        | ok status =>
          rw [hreq] at h
          exact ⟨cab, status, (Except.ok.inj h).symm⟩
    · cases h
  rename_i hcab
  rw [not_or] at hcab
  split at h
  · rename_i hpair
    exact .inr (.inl ⟨(Prod.mk.inj hpair).2, _, hauto _ h⟩)
  split at h
  · rename_i hpair
    exact .inr (.inl ⟨(Prod.mk.inj hpair).2, _, hauto _ h⟩)
  rename_i hdraft hassessment
  split at h
  · rename_i hcancel
    split at h
    · exact .inr (.inr (.inl ⟨hcancel.1, _, (Except.ok.inj h).symm⟩))
    · exact .inr (.inr (.inr ⟨hcab.1, hcab.2, hdraft, hassessment, (Except.ok.inj h).symm⟩))
  · exact .inr (.inr (.inr ⟨hcab.1, hcab.2, hdraft, hassessment, (Except.ok.inj h).symm⟩))

theorem approvalStep_phase {fromPhase : ChangePhase} {oldVia : Option Via} {cab : Option Cab}
    {data : TransitionIn} {call : Call}
    (h : u.approvalStep cfg fromPhase oldVia cab data call = .ok t) :
    t.row.phase = u.row.phase ∧ u.row.approvalRound ≤ t.row.approvalRound ∧
      phaseTrail t.events = phaseTrail u.events := by
  rcases approvalStep_cases h with ⟨-, cab, status, rfl⟩ | ⟨-, via, rfl⟩ | ⟨-, id, rfl⟩ |
    ⟨-, -, -, -, rfl⟩
  · refine ⟨rfl, Nat.le_succ _, ?_⟩
    exact (phaseTrail_append _ _).trans (List.append_nil _)
  · refine ⟨rfl, Nat.le_succ _, ?_⟩
    exact (phaseTrail_append _ _).trans (List.append_nil _)
  · exact ⟨rfl, Nat.le_refl _, rfl⟩
  · exact ⟨rfl, Nat.le_refl _, rfl⟩

theorem needsApproval_of_phase {row : ChangeRow} (h : row.needsApproval) :
    row.phase = .scheduled ∨ row.phase = .implementing ∨ row.phase = .review ∨
      row.phase = .closed := by
  rcases h with h | ⟨h, -⟩
  · exact .inl h
  · exact .inr h

/-- A change that moves on without a new approval keeps the one it has. -/
theorem Entered.approved {target : ChangePhase} {outcome : Option Outcome}
    (h : Entered s target outcome u) (hdraft : target ≠ .draft) (hs : ApprovedInRound s) :
    ApprovedInRound u := by
  obtain ⟨hat, ⟨p, hp, hvia, hid, hround, hdrafts⟩, e, he, id, via, reason, hset, hdetail⟩ := hs
  refine ⟨?_, ⟨p, ?_, ?_, ?_, ?_, ?_⟩, e, h.events e he, id, via, reason, ?_, ?_⟩
  · rw [h.approvedAt hdraft, hat]
  · rw [h.approvedBy hdraft]
    exact hp
  · rw [h.via hdraft, hvia]
  · rw [h.approvalId, hid]
  · rw [h.round, hround]
  · rw [h.drafts hdraft, hdrafts]
  · rw [h.approvalId, hset]
  · rw [h.round, hdetail]

theorem autoDecided_approved (u : ChangeState) (via : Via) (call : Call) :
    ApprovedInRound (u.autoDecided via call) :=
  ⟨rfl, ⟨_, rfl, rfl, rfl, rfl, rfl⟩, _, List.mem_append_right _ List.mem_cons_self, _, _, _, rfl,
    rfl⟩

/-- Which steps a person may take into a phase that needs an approval. -/
theorem into_approved_phase {fromPhase target : ChangePhase} {typ : ChangeType}
    (hmem : typ ∈ transitions (fromPhase, target)) (hsys : (fromPhase, target) ∉ systemOnly)
    (htarget : target = .scheduled ∨ target = .implementing ∨ target = .review ∨
      target = .closed) :
    (target = .scheduled ∧ (fromPhase = .draft ∨ fromPhase = .assessment)) ∨
      (fromPhase, target) = (.draft, .implementing) ∨
      target ≠ .scheduled ∧
        (fromPhase = .scheduled ∨ fromPhase = .implementing ∨ fromPhase = .review) := by
  rcases htarget with rfl | rfl | rfl | rfl
  · cases fromPhase with
    | draft => exact .inl ⟨rfl, .inl rfl⟩
    | assessment => exact .inl ⟨rfl, .inr rfl⟩
    | approval => exact absurd (by decide) hsys
    | _ => cases hmem
  · cases fromPhase with
    | draft => exact .inr (.inl rfl)
    | scheduled => exact .inr (.inr ⟨by decide, .inl rfl⟩)
    | _ => cases hmem
  · cases fromPhase with
    | implementing => exact .inr (.inr ⟨by decide, .inr (.inl rfl)⟩)
    | _ => cases hmem
  · cases fromPhase with
    | implementing => exact .inr (.inr ⟨by decide, .inr (.inl rfl)⟩)
    | review => exact .inr (.inr ⟨by decide, .inr (.inr rfl)⟩)
    | _ => cases hmem

theorem settle_find {e : Engine} {id id' : ℕ} {status : ApprovalStatus} {reason : Option Reason}
    {set : ApprovalSet} (h : (e.settle id status reason).sets.find id' = some set) :
    ∃ old, e.sets.find id' = some old ∧ (old.status ≠ .pending → set.status = old.status) := by
  obtain ⟨old, hold, rfl⟩ := Table.mem_update.1 (Table.find_eq_some.1 h)
  refine ⟨old, Table.find_eq_some.2 hold, fun hne ↦ ?_⟩
  rw [if_neg fun h ↦ hne h.2]

/-- A post-approval that lets a change be closed as successful is decided, and not rejected. -/
theorem closed_post_decided {data : TransitionIn} {call : Call}
    (hcheck : checkTransition (guardContext cfg s data call) false = [])
    (hto : data.target = .closed) (hout : data.outcome = some .successful)
    (hvia : s.row.approvalVia = some .post) {id : ℕ} (hid : s.row.approvalId = some id)
    {set : ApprovalSet} (hset : s.engine.sets.find id = some set) :
    set.status = .approved ∨ set.status = .cancelled := by
  rcases checkTransition_person hcheck with ⟨hcancel, -⟩ | ⟨hprocess, hmem, hsys, hclose⟩
  · cases hto.symm.trans hcancel
  have hknown : known s data call = true := by
    rw [known]
    simp only [Bool.and_eq_true, Bool.not_eq_true', decide_eq_true_eq]
    exact ⟨⟨hprocess, hsys⟩, hmem⟩
  have hpost : closePost s data call = postApproval s := if_pos ⟨hknown, hto⟩
  obtain ⟨hpending, hrejected⟩ := closeFailures_nil hclose hto
  simp only [guardContext, hpost, postApproval, hvia, hid, hset] at hpending hrejected
  cases hstatus : set.status with
  | approved => exact .inl rfl
  | cancelled => exact .inr rfl
  | pending =>
    rw [hstatus] at hpending
    exact absurd (hpending rfl).2.2 Bool.false_ne_true
  | rejected =>
    rw [hstatus] at hrejected
    exact absurd ⟨rfl, hout⟩ hrejected

theorem requested_safe {cab : Cab} {call : Call} {post : Bool} {status : ApprovalStatus}
    (h : ChangeSafe s) {target : ChangePhase} {outcome : Option Outcome}
    (hu : Entered s target outcome u)
    (hpair : target = .approval ∧ post = false ∨ target = .implementing ∧ post = true) :
    ChangeSafe (u.requested cab call post status) := by
  have hphase : (u.requested cab call post status).row.phase = target := hu.phase
  have hid : (u.requested cab call post status).row.approvalId = some u.engine.nextId := rfl
  have hnext : (u.requested cab call post status).engine.nextId = u.engine.nextId + 1 := by
    simp only [ChangeState.requested, ChangeState.record]
    cases u.row.approvalId <;> rfl
  have houtcomes : outcomeIds (u.requested cab call post status).events = outcomeIds s.events :=
    ((outcomeIds_append _ _).trans (List.append_nil _)).trans hu.outcomes
  refine ⟨fun hneeds ↦ ?_, fun happ ↦ ?_, fun id hid' ↦ ?_, ?_, fun id hid' ↦ ?_, fun hclosed ↦ ?_⟩
  · rcases hpair with ⟨rfl, rfl⟩ | ⟨rfl, rfl⟩
    · rcases needsApproval_of_phase hneeds with h | h | h | h <;> cases hphase.symm.trans h
    · rcases hneeds with h | ⟨-, hvia⟩
      · cases hphase.symm.trans h
      · exact absurd rfl hvia
  · rcases hpair with ⟨rfl, rfl⟩ | ⟨rfl, rfl⟩
    · rfl
    · cases hphase.symm.trans happ
  · cases hid.symm.trans hid'
    rw [hnext]
    exact Nat.lt_succ_self _
  · rw [houtcomes]
    exact h.outcomes
  · rw [hnext, hu.engine]
    exact Nat.lt_succ_of_lt (h.handled id (houtcomes ▸ hid'))
  · rcases hpair with ⟨rfl, -⟩ | ⟨rfl, -⟩ <;> cases hphase.symm.trans hclosed

theorem autoDecided_safe {via : Via} {call : Call} (h : ChangeSafe s) {outcome : Option Outcome}
    (hu : Entered s .scheduled outcome u) : ChangeSafe (u.autoDecided via call) := by
  have hphase : (u.autoDecided via call).row.phase = .scheduled := hu.phase
  have houtcomes : outcomeIds (u.autoDecided via call).events =
      outcomeIds s.events ++ [s.engine.nextId] := by
    rw [← hu.outcomes, ← hu.engine]
    exact outcomeIds_append _ _
  have hnext : (u.autoDecided via call).engine.nextId = s.engine.nextId + 1 :=
    congrArg (fun e : Engine ↦ e.nextId + 1) hu.engine
  refine ⟨fun _ ↦ autoDecided_approved u via call, fun happ ↦ ?_, fun id hid' ↦ ?_, ?_,
    fun id hid' ↦ ?_, fun hclosed ↦ ?_⟩
  · cases hphase.symm.trans happ
  · have hid : (u.autoDecided via call).row.approvalId = some s.engine.nextId :=
      congrArg (fun e : Engine ↦ some e.nextId) hu.engine
    cases hid.symm.trans hid'
    rw [hnext]
    exact Nat.lt_succ_self _
  · rw [houtcomes]
    refine List.nodup_append.2 ⟨h.outcomes, List.nodup_singleton _, fun id hid id' hid' ↦ ?_⟩
    rw [List.mem_singleton.1 hid']
    exact Nat.ne_of_lt (h.handled id hid)
  · rw [hnext]
    rw [houtcomes] at hid'
    rcases List.mem_append.1 hid' with hid' | hid'
    · exact Nat.lt_succ_of_lt (h.handled id hid')
    · rw [List.mem_singleton.1 hid']
      exact Nat.lt_succ_self _
  · cases hphase.symm.trans hclosed

theorem moved_safe {data : TransitionIn} {call : Call} (h : ChangeSafe s)
    (hcheck : checkTransition (guardContext cfg s data call) false = [])
    (hu : Entered s data.target data.outcome u) (htarget : data.target ≠ .approval)
    (himpl : (s.row.phase, data.target) ≠ (.draft, .implementing))
    (hdraft : (s.row.phase, data.target) ≠ (.draft, .scheduled))
    (hassess : (s.row.phase, data.target) ≠ (.assessment, .scheduled)) : ChangeSafe u := by
  refine ⟨fun hneeds ↦ ?_, fun happ ↦ ?_, fun id hid ↦ ?_, ?_, fun id hid ↦ ?_, ?_⟩
  · have hin := needsApproval_of_phase hneeds
    rw [hu.phase] at hin
    rcases checkTransition_person hcheck with ⟨hcancel, -⟩ | ⟨-, hmem, hsys, -⟩
    · rw [show data.target = .cancelled from hcancel] at hin
      rcases hin with h | h | h | h <;> cases h
    have hnot : data.target ≠ .draft := by
      intro hd
      rw [hd] at hin
      rcases hin with h | h | h | h <;> cases h
    refine hu.approved hnot (h.approved ?_)
    have hstep : s.row.plan.changeType ∈ transitions (s.row.phase, data.target) := hmem
    rcases into_approved_phase hstep hsys hin with ⟨ht, hfrom | hfrom⟩ | hp | ⟨hne, hfrom⟩
    · exact absurd (Prod.ext hfrom ht) hdraft
    · exact absurd (Prod.ext hfrom ht) hassess
    · exact absurd hp himpl
    · have hvia : s.row.approvalVia ≠ some .post := by
        rcases hneeds with hsched | ⟨-, hvia⟩
        · exact absurd (hu.phase.symm.trans hsched) hne
        · rwa [hu.via hnot] at hvia
      rcases hfrom with hfrom | hfrom | hfrom
      · exact .inl hfrom
      · exact .inr ⟨.inl hfrom, hvia⟩
      · exact .inr ⟨.inr (.inl hfrom), hvia⟩
  · exact absurd (hu.phase.symm.trans happ) htarget
  · rw [hu.approvalId] at hid
    rw [hu.engine]
    exact h.issued id hid
  · rw [hu.outcomes]
    exact h.outcomes
  · rw [hu.outcomes] at hid
    rw [hu.engine]
    exact h.handled id hid
  · intro hclosed hout hvia id hid set hset
    have hto := hu.phase.symm.trans hclosed
    have hnot : data.target ≠ .draft := fun hd ↦ by cases hd.symm.trans hto
    rw [hu.approvalId] at hid
    rw [hu.engine] at hset
    exact closed_post_decided hcheck hto ((hu.outcome hto).symm.trans hout)
      ((hu.via hnot).symm.trans hvia) hid hset

theorem ChangeSafe.settle {id : ℕ} {status : ApprovalStatus} {reason : Option Reason}
    (h : ChangeSafe s) : ChangeSafe { s with engine := s.engine.settle id status reason } := by
  refine ⟨fun hneeds ↦ ?_, h.cab, h.issued, h.outcomes, h.handled, ?_⟩
  · obtain ⟨hat, hcurrent, hrecorded⟩ := h.approved hneeds
    exact ⟨hat, hcurrent, hrecorded⟩
  · intro hclosed hout hvia id' hid' set hset
    obtain ⟨old, hold, hstatus⟩ := settle_find hset
    have hdecided := h.postDecided hclosed hout hvia id' hid' old hold
    rw [hstatus (by rcases hdecided with h | h <;> rw [h] <;> decide)]
    exact hdecided

theorem transition_safe {data : TransitionIn} {call : Call} (h : ChangeSafe s)
    (ht : transition cfg s data call = .ok t) : ChangeSafe t := by
  obtain ⟨hfinal, hcheck, u, hu, hstep⟩ := transition_entered ht
  rcases approvalStep_cases hstep with ⟨hpair, cab, status, rfl⟩ | ⟨hto, via, rfl⟩ |
    ⟨hto, id, rfl⟩ | ⟨htarget, himpl, hdraft, hassess, rfl⟩
  · refine requested_safe h hu ?_
    by_cases hto : data.target = .approval
    · exact .inl ⟨hto, decide_eq_false (not_not.2 hto)⟩
    · exact .inr ⟨(Prod.mk.inj (hpair.resolve_left hto)).2, decide_eq_true hto⟩
  · exact autoDecided_safe h (hto ▸ hu)
  · refine (moved_safe h hcheck hu ?_ ?_ ?_ ?_).settle
    · rw [hto]
      decide
    all_goals
      rw [hto]
      exact fun heq ↦ nomatch (Prod.mk.inj heq).2
  · exact moved_safe h hcheck hu htarget himpl hdraft hassess

/-- What the system path leaves of a change that waits for the outcome of its current set. -/
theorem awaits_spec {call : OutcomeCall} (h : awaits s call = true) :
    s.row.approvalId = some call.approvalId ∧ s.row.approvalRound = call.round ∧
      (s.row.phase = .approval ∨ s.row.approvalVia = some .post ∧
        (s.row.phase = .implementing ∨ s.row.phase = .review)) ∧
      call.approvalId ∉ outcomeIds s.events := by
  simp only [awaits, Bool.and_eq_true, Bool.or_eq_true, decide_eq_true_eq] at h
  exact ⟨h.1.1.1.1, h.1.1.1.2, h.1.1.2, h.2⟩

theorem outcomeApproved_phase (s : ChangeState) (call : OutcomeCall) :
    (outcomeApproved s call).events = s.events ∧ (outcomeApproved s call).engine = s.engine ∧
      (outcomeApproved s call).row.phase = s.row.phase ∧
      (outcomeApproved s call).row.approvalVia = s.row.approvalVia ∧
      (outcomeApproved s call).row.approvalId = s.row.approvalId ∧
      (outcomeApproved s call).row.approvalRound = s.row.approvalRound := by
  rw [outcomeApproved]
  split <;> exact ⟨rfl, rfl, rfl, rfl, rfl, rfl⟩

/-- The three results of the outcome hook. -/
theorem outcome_cases (s : ChangeState) (call : OutcomeCall) :
    onApprovalOutcome s call = (s, false) ∨
      awaits s call = true ∧
        (systemTarget s.row call.status = none ∧
          (onApprovalOutcome s call).1 = outcomeRecorded (outcomeApproved s call) call ∨
        ∃ target extra, systemTarget s.row call.status = some target ∧
          (onApprovalOutcome s call).1 =
            { (outcomeApproved s call).enter target none call.now systemUserId with
              events := s.events ++ extra } ∧
          phaseTrail extra = [(some s.row.phase, target)] ∧
          outcomeIds extra = [call.approvalId] ∧
          ⟨systemUserId, .approvalOutcome call.approvalId call.round call.status.toApproval none
            call.reason⟩ ∈ extra) := by
  cases ha : awaits s call with
  | false =>
    left
    rw [onApprovalOutcome, if_pos ha]
  | true =>
    rw [onApprovalOutcome, if_neg (by rw [ha]; decide)]
    cases ht : systemTarget s.row call.status with
    | none => exact .inr ⟨rfl, .inl ⟨rfl, rfl⟩⟩
    | some target =>
      dsimp only
      split
      · exact .inl rfl
      · refine .inr ⟨rfl, .inr ⟨target, ?_⟩⟩
        have hevents := (outcomeApproved_phase s call).1
        split
        all_goals
          simp only [outcomeRecorded, ChangeState.record, ChangeState.enter, hevents,
            List.append_assoc]
          exact ⟨_, trivial, rfl, rfl, rfl, List.mem_cons_self⟩

theorem systemTarget_none {row : ChangeRow} {status : OutcomeStatus}
    (h : systemTarget row status = none) : row.phase ≠ .approval := by
  intro happ
  unfold systemTarget at h
  rw [if_pos happ] at h
  cases status <;> cases h

theorem systemTarget_some {row : ChangeRow} {status : OutcomeStatus} {target : ChangePhase}
    (h : systemTarget row status = some target) :
    row.phase = .approval ∧ (status = .approved ∧ target = .scheduled ∨ target = .rejected ∨
        target = .assessment ∨ target = .draft) ∨
      row.phase = .implementing ∧ target = .review := by
  unfold systemTarget at h
  split at h
  · rename_i happ
    refine .inl ⟨happ, ?_⟩
    cases status with
    | approved => exact .inl ⟨rfl, (Option.some.inj h).symm⟩
    | rejected => exact .inr (.inl (Option.some.inj h).symm)
    | cancelled =>
      dsimp only at h
      split at h
      · exact .inr (.inr (.inl (Option.some.inj h).symm))
      · exact .inr (.inr (.inr (Option.some.inj h).symm))
  · split at h
    · rename_i himpl
      exact .inr ⟨himpl.1, (Option.some.inj h).symm⟩
    · cases h

/-- The outcome of the current set, approved while the CAB decides, is the approval of the change. -/
theorem outcome_approved {call : OutcomeCall} (hs : ChangeSafe s) (ha : awaits s call = true)
    (happ : s.row.phase = .approval) (hstatus : call.status = .approved)
    {extra : List ChangeEvent}
    (hmem : ⟨systemUserId, .approvalOutcome call.approvalId call.round call.status.toApproval none
      call.reason⟩ ∈ extra) :
    ApprovedInRound { (outcomeApproved s call).enter .scheduled none call.now systemUserId with
      events := s.events ++ extra } := by
  obtain ⟨hid, hround, -, -⟩ := awaits_spec ha
  have hvia := hs.cab happ
  rw [outcomeApproved, if_pos hstatus]
  refine ⟨rfl, ⟨_, rfl, ?_, hid.symm, rfl, rfl⟩, _, List.mem_append_right _ hmem,
    call.approvalId, none, call.reason, hid, ?_⟩
  · change some (s.row.approvalVia.getD .cab) = s.row.approvalVia
    rw [hvia]
    rfl
  · rw [hstatus, ← hround]
    rfl

/-- An outcome that is handled belongs to the current set and was not handled before. -/
theorem ChangeSafe.handle {call : OutcomeCall} (h : ChangeSafe s) (ha : awaits s call = true)
    (hid : t.row.approvalId = s.row.approvalId) (hengine : t.engine = s.engine)
    (hids : outcomeIds t.events = outcomeIds s.events ++ [call.approvalId])
    (happroved : t.row.needsApproval → ApprovedInRound t) (hcab : t.row.phase ≠ .approval)
    (hclosed : t.row.phase ≠ .closed) : ChangeSafe t := by
  obtain ⟨hcur, -, -, hnew⟩ := awaits_spec ha
  refine ⟨happroved, fun h ↦ absurd h hcab, ?_, ?_, ?_, fun h ↦ absurd h hclosed⟩
  · rw [hid, hengine]
    exact h.issued
  · rw [hids]
    refine List.nodup_append.2 ⟨h.outcomes, List.nodup_singleton _, fun id hid id' hid' ↦ ?_⟩
    rw [List.mem_singleton.1 hid']
    exact fun heq ↦ hnew (heq ▸ hid)
  · intro id hid'
    rw [hengine]
    rw [hids] at hid'
    rcases List.mem_append.1 hid' with hid' | hid'
    · exact h.handled id hid'
    · rw [List.mem_singleton.1 hid']
      exact h.issued _ hcur

theorem outcome_safe (h : ChangeSafe s) (call : OutcomeCall) :
    ChangeSafe (onApprovalOutcome s call).1 := by
  obtain ⟨hevents, hengine, hphase, hvia, hid, -⟩ := outcomeApproved_phase s call
  rcases outcome_cases s call with hsame | ⟨ha, ⟨hnone, heq⟩ | ⟨target, extra, hsome, heq, -, hids,
    hmem⟩⟩
  · rw [hsame]
    exact h
  · have hpost := (awaits_spec ha).2.2.1.resolve_left (systemTarget_none hnone)
    have hp : (outcomeRecorded (outcomeApproved s call) call).row.phase = s.row.phase := hphase
    have hv : (outcomeRecorded (outcomeApproved s call) call).row.approvalVia = some .post :=
      hvia.trans hpost.1
    rw [heq]
    refine h.handle ha hid hengine ?_ (fun hneeds ↦ ?_) ?_ ?_
    · rw [← hevents]
      exact outcomeIds_append _ _
    · rcases hneeds with hsched | ⟨-, hne⟩
      · rw [hp] at hsched
        rcases hpost.2 with h | h <;> cases h.symm.trans hsched
      · exact absurd hv hne
    all_goals
      rw [hp]
      rcases hpost.2 with h | h <;> rw [h] <;> decide
  · rw [heq]
    refine h.handle ha hid hengine ?_ (fun hneeds ↦ ?_) ?_ ?_
    · rw [← hids]
      exact outcomeIds_append _ _
    · rcases systemTarget_some hsome with ⟨happ, ⟨hstatus, rfl⟩ | rfl | rfl | rfl⟩ | ⟨himpl, rfl⟩
      · exact outcome_approved h ha happ hstatus hmem
      · rcases needsApproval_of_phase hneeds with h | h | h | h <;> cases h
      · rcases needsApproval_of_phase hneeds with h | h | h | h <;> cases h
      · rcases needsApproval_of_phase hneeds with h | h | h | h <;> cases h
      · have hpost := (awaits_spec ha).2.2.1.resolve_left fun happ ↦ by cases himpl.symm.trans happ
        rcases hneeds with hsched | ⟨-, hne⟩
        · cases hsched
        · exact absurd (hvia.trans hpost.1) hne
    all_goals
      change target ≠ _
      rcases systemTarget_some hsome with ⟨-, ⟨-, rfl⟩ | rfl | rfl | rfl⟩ | ⟨-, rfl⟩ <;> decide

theorem update_cases {data : ChangeUpdateIn} {call : UpdateCall}
    (h : updateChange s data call = .ok t) :
    t = s ∨ ∃ plan changed, s.row.phase.final = false ∧ t =
      { s with
        row := { s.row with plan, updatedAt := call.now, updatedBy := call.userId }
        events := s.events ++ [⟨call.userId, .updated changed⟩] } := by
  unfold updateChange at h
  split at h
  · cases h
  split at h
  · cases h
  rename_i hfinal
  cases hplan : editPlan s.row data call with
  | error e =>
    rw [hplan] at h
    cases h
  | ok edit =>
    obtain ⟨plan, changed⟩ := edit
    rw [hplan] at h
    have ht := Except.ok.inj h
    dsimp only at ht
    split at ht
    · exact .inl ht.symm
    · exact .inr ⟨plan, changed, Bool.eq_false_iff.2 hfinal, ht.symm⟩

theorem update_safe {data : ChangeUpdateIn} {call : UpdateCall} (h : ChangeSafe s)
    (ht : updateChange s data call = .ok t) : ChangeSafe t := by
  rcases update_cases ht with rfl | ⟨plan, changed, -, rfl⟩
  · exact h
  · have hids : outcomeIds (s.events ++ [⟨call.userId, .updated changed⟩]) = outcomeIds s.events :=
      (outcomeIds_append _ _).trans (List.append_nil _)
    refine ⟨fun hneeds ↦ ?_, h.cab, h.issued, ?_, ?_, h.postDecided⟩
    · obtain ⟨hat, hcurrent, e, he, hrecorded⟩ := h.approved hneeds
      exact ⟨hat, hcurrent, e, List.mem_append_left _ he, hrecorded⟩
    · rw [hids]
      exact h.outcomes
    · rw [hids]
      exact h.handled

theorem ChangeSafe.erase {id : ℕ} (h : ChangeSafe s) :
    ChangeSafe { s with engine := s.engine.erase id } := by
  refine ⟨fun hneeds ↦ ?_, h.cab, h.issued, h.outcomes, h.handled, ?_⟩
  · obtain ⟨hat, hcurrent, hrecorded⟩ := h.approved hneeds
    exact ⟨hat, hcurrent, hrecorded⟩
  · intro hclosed hout hvia id' hid' set hset
    rcases Table.mem_set.1 (Table.find_eq_some.1 hset) with ⟨hold, -⟩ | ⟨-, hnone⟩
    · exact h.postDecided hclosed hout hvia id' hid' set (Table.find_eq_some.2 hold)
    · cases hnone

theorem ChangeSafe.createOther {new : ApprovalSet} (h : ChangeSafe s) :
    ChangeSafe { s with engine := s.engine.create new } := by
  refine ⟨fun hneeds ↦ ?_, h.cab, fun id hid ↦ Nat.lt_succ_of_lt (h.issued id hid), h.outcomes,
    fun id hid ↦ Nat.lt_succ_of_lt (h.handled id hid), ?_⟩
  · obtain ⟨hat, hcurrent, hrecorded⟩ := h.approved hneeds
    exact ⟨hat, hcurrent, hrecorded⟩
  · intro hclosed hout hvia id hid set hset
    rcases Table.mem_set.1 (Table.find_eq_some.1 hset) with ⟨hold, -⟩ | ⟨rfl, -⟩
    · exact h.postDecided hclosed hout hvia id hid set (Table.find_eq_some.2 hold)
    · exact absurd (h.issued _ hid) (Nat.lt_irrefl _)

theorem ChangeSafe.next (h : ChangeSafe s) (a : ChangeAction) : ChangeSafe (s.next cfg a) := by
  cases a with
  | transition data call =>
    rw [ChangeState.next]
    cases ht : transition cfg s data call with
    | error e => exact h
    | ok t => exact transition_safe h ht
  | update data call =>
    rw [ChangeState.next]
    cases ht : updateChange s data call with
    | error e => exact h
    | ok t => exact update_safe h ht
  | outcome call => exact outcome_safe h call
  | engine step =>
    cases step with
    | decide id status reason => exact h.settle
    | erase id => exact h.erase
    | createOther set => exact h.createOther

end Tiqora.Itsm.Change
