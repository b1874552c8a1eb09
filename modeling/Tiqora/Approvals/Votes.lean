import Tiqora.Approvals.Safety

namespace Tiqora.Approvals

open Foundation

/-- The votes of a request: one a row, one a person and step, none of the people whose request
it is. -/
structure Polled (r : Request) : Prop where
  cast : ∀ v ∈ r.votes, ∃ a ∈ r.approvers, a.id = v.approverId
  once : (r.votes.map (·.approverId)).Nodup
  voted : ∀ a ∈ r.approvers, a.status.voted ↔ ∃ v ∈ r.votes, v.approverId = a.id
  persons : r.votes.Pairwise fun v w ↦ v.stepId = w.stepId → v.decidedBy ≠ w.decidedBy
  others : r.allowSelfApproval = false → ∀ v ∈ r.votes,
    some v.decidedBy ≠ r.requester ∧ some v.decidedBy ≠ r.creator
  behalf : r.allowSelfApproval = false → ∀ v ∈ r.votes, v.onBehalf = true →
    ∀ a ∈ r.approvers, a.id = v.approverId →
      some a.principal ≠ r.requester ∧ some a.principal ≠ r.creator

theorem Evolves.polled {r r' : Request} (h : Evolves r r') (hk : Keyed r) (hp : Polled r) :
    Polled r' := by
  obtain ⟨f, new, ha, hf, _, hnew⟩ := h.approvers
  have hfresh : ∀ v ∈ r.votes, ∀ a ∈ new, v.approverId ≠ a.id := by
    intro v hv a hmem he
    obtain ⟨b, hb, hid⟩ := hp.cast v hv
    have hlt := hk.fresh b hb
    have hle := (hnew a hmem).2.1
    omega
  constructor
  · intro v hv
    rw [h.votes] at hv
    obtain ⟨a, hmem, hid⟩ := hp.cast v hv
    rw [ha]
    exact ⟨f a, List.mem_append_left _ (List.mem_map_of_mem hmem), (hf a hmem).id.trans hid⟩
  · rw [h.votes]
    exact hp.once
  · intro a hmem
    rw [ha] at hmem
    rw [h.votes]
    rcases List.mem_append.mp hmem with hmem | hmem
    · obtain ⟨b, hb, rfl⟩ := List.mem_map.mp hmem
      rw [(hf b hb).voted_iff, (hf b hb).id]
      exact hp.voted b hb
    · constructor
      · intro hv
        exact absurd hv (hnew a hmem).1
      · rintro ⟨v, hv, hid⟩
        exact absurd hid (hfresh v hv a hmem)
  · rw [h.votes]
    exact hp.persons
  · rw [h.votes, h.requester, h.creator, h.allowSelf]
    exact hp.others
  · rw [h.votes, h.requester, h.creator, h.allowSelf]
    intro hself v hv hbehalf a hmem hid
    rw [ha] at hmem
    rcases List.mem_append.mp hmem with hmem | hmem
    · obtain ⟨b, hb, rfl⟩ := List.mem_map.mp hmem
      rw [(hf b hb).principal]
      exact hp.behalf hself v hv hbehalf b hb ((hf b hb).id.symm.trans hid)
    · exact absurd hid.symm (hfresh v hv a hmem)

/-- The rows after a vote are those before it, the voted one and no other with a vote more. -/
theorem castVote_approvers (env : Env) (v : Vote) (tokenId : Option ℕ) (r : Request) :
    ∃ f : Approver → Approver, (castVote env v tokenId r).approvers = r.approvers.map f ∧
      ∀ a, (f a).id = a.id ∧ (f a).principal = a.principal ∧
        ((f a).status.voted ↔ a.status.voted ∨ a.id = v.approverId) := by
  have hvoted : v.decision.status.voted := by cases v.decision <;> exact trivial
  refine ⟨(fun a ↦ if ownPending v.stepId v.decidedBy a then { a with status := .notNeeded } else a) ∘
    (fun a ↦ if a.id = v.approverId then { a with status := v.decision.status } else a), ?_, ?_⟩
  · rw [← List.map_map]
    rfl
  · intro a
    simp only [Function.comp_apply]
    by_cases hid : a.id = v.approverId
    · rw [if_pos hid, if_neg]
      · exact ⟨rfl, rfl, by simp [hvoted, hid]⟩
      · intro hown
        have hpend := (of_decide_eq_true hown).2.1
        simp only at hpend
        rw [hpend] at hvoted
        exact hvoted
    · rw [if_neg hid]
      split
      · rename_i hown
        have hpend := (of_decide_eq_true hown).2.1
        exact ⟨rfl, rfl, by simp [ApproverStatus.voted, hpend, hid]⟩
      · exact ⟨rfl, rfl, by simp [hid]⟩

@[simp] theorem castVote_votes (env : Env) (v : Vote) (tokenId : Option ℕ) (r : Request) :
    (castVote env v tokenId r).votes = r.votes ++ [v] := by
  simp [castVote, Request.dismiss, Request.mark, Request.revokeLinks, recordVote]

theorem castVote_people (env : Env) (v : Vote) (tokenId : Option ℕ) (r : Request) :
    (castVote env v tokenId r).requester = r.requester ∧
      (castVote env v tokenId r).creator = r.creator ∧
      (castVote env v tokenId r).allowSelfApproval = r.allowSelfApproval := by
  simp [castVote, Request.dismiss, Request.mark, Request.revokeLinks, recordVote,
    Request.setApprover]

theorem not_excluded_requester {env : Env} {r : Request} {p : Principal}
    (hself : r.allowSelfApproval = false) (h : p ∉ excludedKeys env r) : some p ≠ r.requester := by
  intro he
  apply h
  simp [excludedKeys, hself, ← he]

theorem not_excluded_creator {env : Env} {r : Request} {p : Principal}
    (hself : r.allowSelfApproval = false) (hcanon : env.directory.canonicalPrincipal p = p)
    (h : p ∉ excludedKeys env r) : some p ≠ r.creator := by
  intro he
  apply h
  simp [excludedKeys, hself, ← he, hcanon]

theorem delegated_agent {env : Env} {r : Request} {principal : Principal} {a : Approver}
    (h : delegated env r principal a = true) : ∃ n, a.principal = .agent n := by
  unfold delegated at h
  split at h
  · rename_i hother
    cases ha : a.principal with
    | agent n => exact ⟨n, rfl⟩
    | customer login => rw [ha] at hother; cases hother
  · cases h

theorem castVote_polled {env : Env} {r : Request} {principal key : Principal} {row : Approver}
    {s : ApprovalStep} {decision : Decision} {channel : Channel} {comment : Option String}
    {tokenId : Option ℕ} (hk : Keyed r) (h : Polled r) (hc : Castable env r principal key row s) :
    Polled (castVote env (newVote env row key decision channel comment r) tokenId r) := by
  obtain ⟨f, ha, hf⟩ := castVote_approvers env (newVote env row key decision channel comment r)
    tokenId r
  obtain ⟨hrequester, hcreator, hallow⟩ := castVote_people env
    (newVote env row key decision channel comment r) tokenId r
  have hnone : ∀ v ∈ r.votes, v.approverId ≠ row.id := by
    intro v hv he
    have hvoted := (h.voted row hc.mem).mpr ⟨v, hv, he⟩
    rw [hc.pending] at hvoted
    exact hvoted
  have hrow : ∀ a ∈ r.approvers, a.id = row.id → a = row := fun a hmem he ↦
    hk.approver_eq hmem hc.mem he
  constructor
  · intro v hv
    rw [ha]
    rw [castVote_votes] at hv
    rcases List.mem_append.mp hv with hv | hv
    · obtain ⟨a, hmem, hid⟩ := h.cast v hv
      exact ⟨f a, List.mem_map_of_mem hmem, (hf a).1.trans hid⟩
    · rw [List.mem_singleton.mp hv]
      exact ⟨f row, List.mem_map_of_mem hc.mem, (hf row).1⟩
  · rw [castVote_votes, List.map_append, List.nodup_append]
    refine ⟨h.once, by simp, ?_⟩
    rintro i hi j hj rfl
    obtain ⟨v, hv, he⟩ := List.mem_map.mp hi
    rw [List.map_singleton, List.mem_singleton] at hj
    exact hnone v hv (he.trans hj)
  · intro a hmem
    rw [ha] at hmem
    obtain ⟨b, hb, rfl⟩ := List.mem_map.mp hmem
    rw [(hf b).2.2, (hf b).1, castVote_votes, h.voted b hb]
    constructor
    · rintro (⟨v, hv, he⟩ | he)
      · exact ⟨v, List.mem_append_left _ hv, he⟩
      · exact ⟨_, List.mem_append_right _ (List.mem_singleton_self _), he.symm⟩
    · rintro ⟨v, hv, he⟩
      rcases List.mem_append.mp hv with hv | hv
      · exact .inl ⟨v, hv, he⟩
      · rw [List.mem_singleton.mp hv] at he
        exact .inr he.symm
  · rw [castVote_votes, List.pairwise_append]
    refine ⟨h.persons, List.pairwise_singleton _ _, ?_⟩
    intro v hv w hw hstep hby
    rw [List.mem_singleton.mp hw] at hstep hby
    apply hc.fresh
    refine List.mem_map.mpr ⟨v, List.mem_filter.mpr ⟨hv, decide_eq_true hby⟩, hstep⟩
  · rw [hrequester, hcreator, hallow, castVote_votes]
    intro hself v hv
    rcases List.mem_append.mp hv with hv | hv
    · exact h.others hself v hv
    · rw [List.mem_singleton.mp hv]
      have hcanon : env.directory.canonicalPrincipal key = key := by
        rw [hc.key_eq]
        exact env.directory.canonicalPrincipal_idem principal
      exact ⟨not_excluded_requester hself hc.key_allowed,
        not_excluded_creator hself hcanon hc.key_allowed⟩
  · rw [hrequester, hcreator, hallow, castVote_votes, ha]
    intro hself v hv hbehalf a hmem hid
    obtain ⟨b, hb, rfl⟩ := List.mem_map.mp hmem
    rw [(hf b).1] at hid
    rw [(hf b).2.1]
    rcases List.mem_append.mp hv with hv | hv
    · exact h.behalf hself v hv hbehalf b hb hid
    · rw [List.mem_singleton.mp hv] at hid hbehalf
      rw [hrow b hb hid]
      have hother : row.principal ≠ key := by simpa [newVote] using hbehalf
      obtain ⟨n, hn⟩ := delegated_agent (hc.own.resolve_left hother)
      have hallowed := hc.row_allowed hother
      exact ⟨not_excluded_requester hself hallowed,
        not_excluded_creator hself (by rw [hn]; rfl) hallowed⟩

theorem Change.polled {env : Env} {r r' : Request} (hc : Change env r r') (hk : Keyed r)
    (h : Polled r) : Polled r' := by
  rcases hc.evolves hk with hev | ⟨links, _, _, _, _, _, _, _, _, cast, hev⟩
  · exact hev.polled hk h
  · have hl := links_evolves r links r.nextLink
    have hk' := hl.keyed hk
    exact hev.polled (hk'.castVote env _ _) (castVote_polled hk' (hl.polled hk h) cast)

theorem createRequest_polled (env : Env) (args : RequestArgs) :
    Polled (createRequest env args) := by
  constructor <;> simp [createRequest]

theorem reachable_polled {r : Request} (h : approvalMachine.Reachable r) :
    Keyed r ∧ Polled r := by
  have hboth : Invariant r ∧ Polled r := by
    refine h.invariant (I := fun r ↦ Invariant r ∧ Polled r) ?_ ?_
    · rintro s ⟨env, args, hs⟩
      refine ⟨reachable_invariant (.start ⟨env, args, hs⟩), ?_⟩
      rw [requestApproval_cases hs]
      exact (activateFrom_evolves env _ _).polled (createRequest_sound env args).keyed
        (createRequest_polled env args)
    · rintro s ⟨env, op⟩ t ⟨hi, hp⟩ hst
      obtain ⟨hpend, hc⟩ := Operation.run_cases hst
      exact ⟨hc.invariant hpend hi, hc.polled hi.1.keyed hp⟩
  exact ⟨hboth.1.1.keyed, hboth.2⟩

/-- One person, one vote a step; one vote a row, and only a row with a vote counts as voted; no
vote by or for the people whose request it is, unless the request allows that. -/
theorem votes_are_single {r : Request} (h : approvalMachine.Reachable r) :
    (r.votes.Pairwise fun v w ↦ v.stepId = w.stepId → v.decidedBy ≠ w.decidedBy) ∧
    (r.votes.Pairwise fun v w ↦ v.approverId ≠ w.approverId) ∧
    (∀ a ∈ r.approvers, (a.status = .approved ∨ a.status = .rejected) ↔
      ∃ v ∈ r.votes, v.approverId = a.id) ∧
    (r.allowSelfApproval = false → ∀ v ∈ r.votes,
      some v.decidedBy ≠ r.requester ∧ some v.decidedBy ≠ r.creator ∧
      (v.onBehalf = true → ∀ a ∈ r.approvers, a.id = v.approverId →
        some a.principal ≠ r.requester ∧ some a.principal ≠ r.creator)) := by
  obtain ⟨_, hp⟩ := reachable_polled h
  refine ⟨hp.persons, List.pairwise_map.mp hp.once, fun a ha ↦ ?_, fun hself v hv ↦ ?_⟩
  · rw [← hp.voted a ha]
    cases a.status <;> simp [ApproverStatus.voted]
  · obtain ⟨hreq, hcre⟩ := hp.others hself v hv
    exact ⟨hreq, hcre, hp.behalf hself v hv⟩

theorem votes_are_single_sample : sampleVoted.votes ≠ [] ∧
    sampleVoted.votes.Pairwise fun v w ↦ v.stepId = w.stepId → v.decidedBy ≠ w.decidedBy :=
  ⟨by decide, (votes_are_single sampleVoted_reachable).1⟩

end Tiqora.Approvals
