import Mathlib.Data.List.Dedup
import Mathlib.Data.List.MinMax
import Tiqora.Approvals.Contract
import Tiqora.Foundation.Guarded

namespace Tiqora.Approvals

open Foundation

inductive VoteResult
  | pending | approved | rejected
  deriving DecidableEq, Repr

/-- An eligible row of a step as the voting rules see it. -/
structure VoterState where
  status : VoteResult
  decisive : Bool
  inRule : Bool
  deriving DecidableEq, Repr

/-- Approvals the rule needs. -/
def requiredVotes (rule : Rule) (quorum : Option ℕ) (voterCount : ℕ) : Option ℕ :=
  if voterCount < 1 then none
  else match rule with
    | .any => some 1
    | .all => some voterCount
    | .majority => some (voterCount / 2 + 1)
    | .quorum => quorum

def quorumReachable (rule : Rule) (quorum : Option ℕ) (voterCount : ℕ) : Bool :=
  match requiredVotes rule quorum voterCount with
  | none => false
  | some needed => needed ≤ voterCount

def countStatus (voters : List VoterState) (s : VoteResult) : ℕ :=
  voters.countP fun v ↦ v.status = s

/-- Outcome of one step from its eligible voters, in vote order with the pending ones last. -/
def evaluateStep (rule : Rule) (quorum : Option ℕ) (voters : List VoterState) :
    Except Failure VoteResult :=
  match voters.find? fun v ↦ v.decisive ∧ v.status ≠ .pending with
  | some v => .ok v.status
  | none =>
    let regular := voters.filter (·.inRule)
    if regular = [] then .ok .pending
    else match rule with
      | .any =>
        match regular.find? fun v ↦ v.status ≠ .pending with
        | some v => .ok v.status
        | none => .ok .pending
      | .all =>
        if countStatus regular .rejected ≠ 0 then .ok .rejected
        else if countStatus regular .pending = 0 then .ok .approved
        else .ok .pending
      | .quorum | .majority =>
        match requiredVotes rule quorum regular.length with
        | none => .error (.value "rule 'quorum' needs a quorum")
        | some needed =>
          if needed ≤ countStatus regular .approved then .ok .approved
          else if countStatus regular .approved + countStatus regular .pending < needed then
            .ok .rejected
          else .ok .pending

theorem countStatus_pos {voters : List VoterState} {s : VoteResult} :
    0 < countStatus voters s ↔ ∃ v ∈ voters, v.status = s := by
  simp [countStatus, List.countP_pos_iff]

/-- A step that waits has a voter to wait for: every rule counts the votes once nobody in it
is pending, and an escalation voter outside the rule decides as soon as it has voted. -/
theorem evaluateStep_pending {rule : Rule} {quorum : Option ℕ} {voters : List VoterState}
    (hin : ∀ v ∈ voters, v.decisive = false → v.inRule = true)
    (h : evaluateStep rule quorum voters = .ok .pending) :
    voters = [] ∨ ∃ v ∈ voters, v.status = .pending := by
  by_contra hno
  rw [not_or] at hno
  obtain ⟨hne, hpend⟩ := hno
  have hvoted : ∀ v ∈ voters, v.status ≠ .pending := fun v hv hs ↦ hpend ⟨v, hv, hs⟩
  unfold evaluateStep at h
  cases hd : voters.find? (fun v ↦ v.decisive ∧ v.status ≠ .pending) with
  | some v =>
    rw [hd] at h
    exact hvoted v (List.mem_of_find?_eq_some hd) (Except.ok.inj h)
  | none =>
    rw [hd] at h
    have hreg : voters.filter (·.inRule) = voters := by
      apply List.filter_eq_self.mpr
      intro v hv
      apply hin v hv
      have hv' := List.find?_eq_none.mp hd v hv
      simpa [hvoted v hv] using hv'
    have hzero : countStatus voters .pending = 0 := by
      by_contra hz
      obtain ⟨v, hv, hs⟩ := countStatus_pos.mp (Nat.pos_of_ne_zero hz)
      exact hvoted v hv hs
    simp only [hreg, if_neg hne, hzero] at h
    cases rule with
    | any =>
      cases hf : voters.find? (fun v ↦ v.status ≠ .pending) with
      | some v =>
        simp only [hf] at h
        exact hvoted v (List.mem_of_find?_eq_some hf) (Except.ok.inj h)
      | none =>
        obtain ⟨v, hv⟩ := List.exists_mem_of_ne_nil voters hne
        have hv' := List.find?_eq_none.mp hf v hv
        exact hvoted v hv (by simpa using hv')
    | all =>
      simp only at h
      split at h <;> cases h
    | quorum | majority =>
      simp only [Nat.add_zero] at h
      split at h
      · cases h
      · split at h
        · cases h
        · rw [if_pos (by omega)] at h
          cases h

/-- Lowest stage that still has a waiting step. -/
def nextStage (steps : List (ℕ × StepStatus)) : Option ℕ :=
  ((steps.filter fun p ↦ p.2 = .waiting).map Prod.fst).min?

def requestResult (steps : List (ℕ × StepStatus)) : ApprovalStatus :=
  if .rejected ∈ steps.map Prod.snd then .rejected
  else if steps ≠ [] ∧ ∀ p ∈ steps, p.2 = .approved then .approved
  else .pending

theorem nextStage_eq_some {steps : List (ℕ × StepStatus)} {k : ℕ} (h : nextStage steps = some k) :
    (k, .waiting) ∈ steps ∧ ∀ n, (n, .waiting) ∈ steps → k ≤ n := by
  obtain ⟨hmem, hle⟩ := List.min?_eq_some_iff.mp h
  simp only [List.mem_map, List.mem_filter, decide_eq_true_eq, Prod.exists, exists_and_right,
    exists_eq_right] at hmem hle
  exact ⟨hmem, hle⟩

theorem nextStage_eq_none {steps : List (ℕ × StepStatus)} (h : nextStage steps = none) :
    ∀ p ∈ steps, p.2 ≠ .waiting := by
  intro p hp hw
  rw [nextStage, List.min?_eq_none_iff, List.map_eq_nil_iff] at h
  exact List.filter_eq_nil_iff.mp h p hp (decide_eq_true hw)

theorem requestResult_rejected {steps : List (ℕ × StepStatus)} :
    requestResult steps = .rejected ↔ ∃ p ∈ steps, p.2 = .rejected := by
  unfold requestResult
  split
  · rename_i h
    simpa using h
  · rename_i h
    have hno : ¬ ∃ p ∈ steps, p.2 = .rejected := by simpa using h
    split <;> simp [hno]

theorem requestResult_approved {steps : List (ℕ × StepStatus)} :
    requestResult steps = .approved ↔ steps ≠ [] ∧ ∀ p ∈ steps, p.2 = .approved := by
  unfold requestResult
  split
  · rename_i h
    obtain ⟨p, hp, hs⟩ := List.mem_map.mp h
    constructor
    · intro h'; cases h'
    · intro h'; rw [h'.2 p hp] at hs; cases hs
  · split
    · rename_i h; simpa using h
    · rename_i h
      constructor
      · intro h'; cases h'
      · intro h'; exact absurd h' h

def maxStepsPerStage : ℕ := 10

def duplicates (names : List String) : List String :=
  names.dedup.filter fun n ↦ 1 < names.count n

def countable (s : StepSpec) : Bool :=
  s.approvers.all fun e ↦ e.kind = .user ∨ e.kind = .customerUser

/-- Semantic checks of a definition beyond those of its models. -/
def validateDefinition (defn : ApprovalDefinition) : Except Failure Unit := do
  require (duplicates (defn.steps.map (·.name)) = [])
    (refuse "invalid_definition" 422 (some ("duplicate step names: " ++
      String.intercalate ", " (duplicates (defn.steps.map (·.name))))))
  match (defn.steps.map (·.stage)).find? fun n ↦
      maxStepsPerStage < (defn.steps.map (·.stage)).count n with
  | some n => throw (refuse "invalid_definition" 422
      (some ("stage " ++ toString n ++ " has more than 10 steps")))
  | none => pure ()
  match defn.steps.find? fun s ↦
      s.rule = .quorum ∧ countable s ∧ s.approvers.dedup.length < s.quorum.getD 0 with
  | some s => throw (refuse "invalid_definition" 422
      (some ("step '" ++ s.name ++ "': quorum " ++ toString (s.quorum.getD 0) ++
        " exceeds distinct approvers")))
  | none => pure ()

end Tiqora.Approvals
