import Tiqora.Jobs.Runner
import Mathlib.Data.List.Basic

namespace Tiqora.Jobs

theorem JobRow.update_of {row values : JobRow} {condition : Bool} (P : JobRow → Prop)
    (hhit : condition = true → P values) (hmiss : P row) : P (row.update condition values).1 := by
  cases condition with
  | true => exact hhit rfl
  | false => exact hmiss

theorem JobRow.update_hit {row values : JobRow} {condition : Bool}
    (h : (row.update condition values).1 ≠ row) : condition = true := by
  cases condition with
  | true => rfl
  | false => exact absurd rfl h

theorem JobRow.update_eq {row values row' : JobRow} {condition hit : Bool}
    (h : row.update condition values = (row', hit)) :
    condition = hit ∧ row' = if hit then values else row := by
  cases condition with
  | true => cases h; exact ⟨rfl, rfl⟩
  | false => cases h; exact ⟨rfl, rfl⟩

theorem ownClaim_iff {worker attempt : ℕ} {row : JobRow} : ownClaim worker attempt row = true ↔
    row.status = .running ∧ row.workerId = some worker ∧ row.attempts = attempt := by
  simp only [ownClaim, Bool.and_eq_true, decide_eq_true_eq, and_assoc]

theorem Interrupted.claim_iff {read : Interrupted} {row : JobRow} : read.claim row = true ↔
    row.status = .running ∧ row.attempts = read.attempts ∧ read.condition.holds row = true := by
  simp only [Interrupted.claim, Bool.and_eq_true, decide_eq_true_eq, and_assoc]

/-- What a statement other than a claim does to the row; `retried` are the claims whose run raised
`JobRetry`. -/
inductive Changes (handler : JobHandler) (retried : ℕ → Prop) (row row' : JobRow) : Prop
  | stays (h : row' = row)
  | runs (h : row.status = .running) (h' : row'.status = .running)
      (ha : row'.attempts = row.attempts) (hc : row.checkpoint.isSome → row'.checkpoint.isSome)
      (hk : row.cancelRequested = true → row'.cancelRequested = true)
  | ends (h : row.status.terminal = false) (h' : row'.status.terminal = true)
      (ha : row'.attempts = row.attempts) (hk : row'.cancelRequested = row.cancelRequested)
  | requeued (h : row.status = .running) (h' : row'.status = .queued)
      (hr : row.cancelRequested = false) (hk : row'.cancelRequested = row.cancelRequested)
      (ha : row'.attempts = row.attempts)
      (hm : row.attempts < handler.maxAttempts)
      (hc : row.checkpoint = none ∨ retried row.attempts)

theorem Changes.terminal {handler : JobHandler} {retried : ℕ → Prop} {row row' : JobRow}
    (h : Changes handler retried row row') (ht : row.status.terminal = true) : row' = row := by
  cases h with
  | stays h => exact h
  | runs h => rw [h] at ht; cases ht
  | ends h => rw [h] at ht; cases ht
  | requeued h => rw [h] at ht; cases ht

theorem Changes.cancelRequested {handler : JobHandler} {retried : ℕ → Prop} {row row' : JobRow}
    (h : Changes handler retried row row') (hc : row.cancelRequested = true) :
    row'.cancelRequested = true := by
  cases h with
  | stays h => rwa [h]
  | runs _ _ _ _ hk => exact hk hc
  | ends _ _ _ hk => rwa [hk]
  | requeued _ _ _ hk => rwa [hk]

section Statements

variable {handler : JobHandler} {retried : ℕ → Prop} {row : JobRow}

theorem requeueValues_changes {row' : JobRow}
    (hs : row'.status = if row.cancelRequested then .cancelled else .queued)
    (hr : row'.cancelRequested = row.cancelRequested) (ha : row'.attempts = row.attempts)
    (h : row.status = .running) (hm : row.attempts < handler.maxAttempts)
    (hc : row.checkpoint = none ∨ retried row.attempts) : Changes handler retried row row' := by
  cases hcancel : row.cancelRequested with
  | true =>
    rw [hcancel, if_pos rfl] at hs
    exact .ends (by rw [h]; rfl) (by rw [hs]; rfl) ha hr
  | false =>
    rw [hcancel, if_neg Bool.false_ne_true] at hs
    exact .requeued h hs hcancel hr ha hm hc

theorem heartbeat_changes (worker now : ℕ) :
    Changes handler retried row (heartbeat worker now row).1 := by
  refine JobRow.update_of _ (fun h ↦ ?_) (.stays rfl)
  simp only [Bool.and_eq_true, decide_eq_true_eq] at h
  exact .runs h.1 h.1 rfl id id

theorem finalize_changes {worker attempt now : ℕ} {status : JobStatus}
    {error result : Option String} (ht : status.terminal = true) :
    Changes handler retried row (finalize worker attempt now status error result row).1 := by
  refine JobRow.update_of _ (fun h ↦ ?_) (.stays rfl)
  have hrun := (ownClaim_iff.1 h).1
  exact .ends (by rw [hrun]; rfl) ht rfl rfl

theorem requeueForRetry_changes {worker attempt now delay : ℕ} {message : String}
    (hr : retried attempt) (hm : attempt < handler.maxAttempts) :
    Changes handler retried row (requeueForRetry worker attempt now message delay row).1 := by
  refine JobRow.update_of _ (fun h ↦ ?_) (.stays rfl)
  obtain ⟨hrun, _, rfl⟩ := ownClaim_iff.1 h
  exact requeueValues_changes rfl rfl rfl hrun hm (.inr hr)

theorem settleRequeue_changes {now : ℕ} {read : Interrupted}
    (hm : read.mayRequeue handler = true) :
    Changes handler retried row (settleRequeue now read row).1 := by
  refine JobRow.update_of _ (fun h ↦ ?_) (.stays rfl)
  simp only [Bool.and_eq_true, Option.isNone_iff_eq_none] at h
  obtain ⟨hrun, ha, _⟩ := Interrupted.claim_iff.1 h.1
  simp only [Interrupted.mayRequeue, Bool.and_eq_true, decide_eq_true_eq] at hm
  exact requeueValues_changes rfl rfl rfl hrun (ha ▸ hm.2) (.inl h.2)

theorem settleFail_changes (now : ℕ) (read : Interrupted) :
    Changes handler retried row (settleFail now read row).1 := by
  refine JobRow.update_of _ (fun h ↦ ?_) (.stays rfl)
  have hrun := (Interrupted.claim_iff.1 h).1
  exact .ends (by rw [hrun]; rfl) rfl rfl rfl

theorem cancelQueued_changes (now : ℕ) :
    Changes handler retried row (cancelQueued now row).1 := by
  refine JobRow.update_of _ (fun h ↦ ?_) (.stays rfl)
  have hq := of_decide_eq_true h
  exact .ends (by rw [hq]; rfl) rfl rfl rfl

theorem cancelRunning_changes : Changes handler retried row (cancelRunning row).1 := by
  refine JobRow.update_of _ (fun h ↦ ?_) (.stays rfl)
  have hrun := of_decide_eq_true h
  exact .runs hrun hrun rfl id fun _ ↦ rfl

end Statements

/-- What a process relies on. -/
def Process.Sound (handler : JobHandler) (retried : ℕ → Prop) : Process → Prop
  | .finishing _ _ status _ _ => status.terminal = true
  | .retrying _ attempt _ _ => retried attempt ∧ attempt < handler.maxAttempts
  | .idle | .handling _ _ | .timedOut _ _ | .settling _ | .failing _ | .cancellingQueued
  | .cancellingRunning => True

theorem Process.Sound.mono {handler : JobHandler} {retried retried' : ℕ → Prop} {p : Process}
    (h : p.Sound handler retried) (hr : ∀ n, retried n → retried' n) :
    p.Sound handler retried' := by
  cases p with
  | retrying worker attempt message delay => exact ⟨hr attempt h.1, h.2⟩
  | _ => exact h

theorem advance_changes {handler : JobHandler} {retried : ℕ → Prop} {now : ℕ} {row row' : JobRow}
    {p p' : Process} (h : advance handler now row p = some (row', p'))
    (hp : p.Sound handler retried) :
    Changes handler retried row row' ∧ p'.Sound handler retried := by
  cases p with
  | idle => cases h
  | handling worker attempt => cases h
  | finishing worker attempt status error result =>
    cases h
    exact ⟨finalize_changes hp, trivial⟩
  | retrying worker attempt message delay =>
    cases h
    exact ⟨requeueForRetry_changes hp.1 hp.2, trivial⟩
  | timedOut worker attempt =>
    cases h
    exact ⟨.stays rfl, trivial⟩
  | settling read =>
    rw [advance] at h
    by_cases hm : read.mayRequeue handler = true
    · have hchange : Changes handler retried row (settleRequeue now read row).1 :=
        settleRequeue_changes hm
      rw [if_pos hm] at h
      split at h
      · next hset => cases h; exact ⟨by rwa [hset] at hchange, trivial⟩
      · next hset => cases h; exact ⟨by rwa [hset] at hchange, trivial⟩
    · rw [if_neg hm] at h
      cases h
      exact ⟨settleFail_changes now read, trivial⟩
  | failing read =>
    cases h
    exact ⟨settleFail_changes now read, trivial⟩
  | cancellingQueued =>
    have hchange : Changes handler retried row (cancelQueued now row).1 :=
      cancelQueued_changes now
    rw [advance] at h
    split at h
    · next hset => cases h; exact ⟨by rwa [hset] at hchange, trivial⟩
    · next hset => cases h; exact ⟨by rwa [hset] at hchange, trivial⟩
  | cancellingRunning =>
    cases h
    exact ⟨cancelRunning_changes, trivial⟩

end Tiqora.Jobs
