import Tiqora.Jobs.Ledger
import Mathlib.Data.List.Range

namespace Tiqora.Jobs

open Foundation

variable {handler : JobHandler}

def Event.claim? : Event → Option ℕ
  | .claimed attempt => some attempt
  | .checkpointed _ | .retried _ => none

/-- The numbers of the claims so far. -/
def claims (log : List Event) : List ℕ := log.filterMap Event.claim?

/-- After a checkpoint of a claim, another claim comes only if that run raised `JobRetry`. -/
def CheckpointsHold (log : List Event) : Prop :=
  ∀ before after n m, log = before ++ .checkpointed n :: after → .claimed m ∈ after →
    .retried n ∈ log

theorem CheckpointsHold.concat {log : List Event} {e : Event} (h : CheckpointsHold log)
    (he : ∀ m, e = .claimed m → ∀ n, .checkpointed n ∈ log → .retried n ∈ log) :
    CheckpointsHold (log ++ [e]) := by
  intro before after n m hlog hm
  rcases List.eq_nil_or_concat after with rfl | ⟨after', e', rfl⟩
  · cases hm
  · rw [List.concat_eq_append, ← List.cons_append, ← List.append_assoc] at hlog
    obtain ⟨hinit, he'⟩ := List.append_inj' hlog rfl
    obtain rfl : e = e' := List.head_eq_of_cons_eq he'
    rw [List.concat_eq_append, List.mem_append, List.mem_singleton] at hm
    rcases hm with hm | hm
    · exact List.mem_append_left _ (h before after' n m hinit hm)
    · have hn : .checkpointed n ∈ log := by
        rw [hinit]
        exact List.mem_append_right _ List.mem_cons_self
      exact List.mem_append_left _ (he m hm.symm n hn)

/-- The row and its history agree. -/
structure Ledger (handler : JobHandler) (row : JobRow) (log : List Event) : Prop where
  queued : row.status = .queued → row.cancelRequested = false ∧ row.attempts < handler.maxAttempts
  bounded : row.attempts ≤ handler.maxAttempts
  claims : claims log = List.range' 1 row.attempts
  checked : ∀ n, .checkpointed n ∈ log → .retried n ∈ log ∨ row.attempts = n ∧
    (row.status.terminal = true ∨ row.status = .running ∧ row.checkpoint.isSome)
  hold : CheckpointsHold log

theorem ledger_enqueueJob (handler : JobHandler) (dueAt : Option ℕ)
    (h : 1 ≤ handler.maxAttempts) :
    Ledger handler (enqueueJob dueAt) [] where
  queued _ := ⟨rfl, h⟩
  bounded := Nat.zero_le _
  claims := rfl
  checked n hn := nomatch hn
  hold before after n m hlog := by simp at hlog

theorem Ledger.changes {row row' : JobRow} {log : List Event} (h : Ledger handler row log)
    (hc : Changes handler (fun n ↦ .retried n ∈ log) row row') : Ledger handler row' log := by
  cases hc with
  | stays heq => exact heq ▸ h
  | runs hrun hrun' ha hcp _ =>
    refine ⟨fun hq ↦ ?_, ha ▸ h.bounded, ha ▸ h.claims, fun n hn ↦ ?_, h.hold⟩
    · rw [hrun'] at hq
      cases hq
    · rcases h.checked n hn with hr | ⟨hn, ht | ⟨_, hsome⟩⟩
      · exact .inl hr
      · rw [hrun] at ht
        cases ht
      · exact .inr ⟨ha.trans hn, .inr ⟨hrun', hcp hsome⟩⟩
  | ends _ ht ha _ =>
    refine ⟨fun hq ↦ ?_, ha ▸ h.bounded, ha ▸ h.claims, fun n hn ↦ ?_, h.hold⟩
    · rw [hq] at ht
      cases ht
    · rcases h.checked n hn with hr | ⟨hn, _⟩
      · exact .inl hr
      · exact .inr ⟨ha.trans hn, .inl ht⟩
  | requeued hrun _ hcancel hk ha hm hcp =>
    refine ⟨fun _ ↦ ⟨hk.trans hcancel, ha ▸ hm⟩, ha ▸ h.bounded, ha ▸ h.claims, fun n hn ↦ .inl ?_, h.hold⟩
    rcases h.checked n hn with hr | ⟨rfl, ht | ⟨_, hsome⟩⟩
    · exact hr
    · rw [hrun] at ht
      cases ht
    · rcases hcp with hnone | hr
      · rw [hnone] at hsome
        cases hsome
      · exact hr

theorem claims_concat (log : List Event) (e : Event) :
    claims (log ++ [e]) = claims log ++ e.claim?.toList := by
  rw [claims, List.filterMap_append, ← claims]
  cases e <;> rfl

/-- A claim takes a queued row, and every checkpoint so far was followed by a `JobRetry`. -/
theorem Ledger.claim {row : JobRow} {log : List Event} (worker now : ℕ)
    (h : Ledger handler row log) (hq : row.status = .queued) :
    Ledger handler (claimValues worker now row) (log ++ [.claimed (row.attempts + 1)]) := by
  have hretried : ∀ n, .checkpointed n ∈ log → .retried n ∈ log := by
    intro n hn
    rcases h.checked n hn with hr | ⟨_, ht | ⟨hrun, _⟩⟩
    · exact hr
    · rw [hq] at ht
      cases ht
    · rw [hq] at hrun
      cases hrun
  refine ⟨nofun, (h.queued hq).2, ?_, fun n hn ↦ .inl ?_, h.hold.concat fun _ _ ↦ hretried⟩
  · have hrange : List.range' 1 (row.attempts + 1) =
        List.range' 1 row.attempts ++ [row.attempts + 1] := by
      rw [List.range'_concat, Nat.one_mul, Nat.add_comm 1]
    rw [claims_concat, h.claims]
    exact hrange.symm
  · rw [List.mem_append, List.mem_singleton] at hn
    rcases hn with hn | hn
    · exact List.mem_append_left _ (hretried n hn)
    · cases hn

theorem Ledger.checkpoint {row : JobRow} {log : List Event} {worker attempt : ℕ} (now : ℕ)
    (name : String) (h : Ledger handler row log) (hown : ownClaim worker attempt row = true) :
    Ledger handler (checkpointValues now name row) (log ++ [.checkpointed attempt]) := by
  obtain ⟨hrun, _, rfl⟩ := ownClaim_iff.1 hown
  refine ⟨h.queued, h.bounded, ?_, fun n hn ↦ ?_, h.hold.concat nofun⟩
  · rw [claims_concat, h.claims]
    exact List.append_nil _
  · rw [List.mem_append, List.mem_singleton] at hn
    rcases hn with hn | hn
    · rcases h.checked n hn with hr | ⟨hn, ht | _⟩
      · exact .inl (List.mem_append_left _ hr)
      · rw [hrun] at ht
        cases ht
      · exact .inr ⟨hn, .inr ⟨hrun, rfl⟩⟩
    · cases hn
      exact .inr ⟨rfl, .inr ⟨hrun, rfl⟩⟩

theorem Ledger.retried {row : JobRow} {log : List Event} (h : Ledger handler row log)
    (attempt : ℕ) : Ledger handler row (log ++ [.retried attempt]) := by
  refine ⟨h.queued, h.bounded, ?_, fun n hn ↦ ?_, h.hold.concat nofun⟩
  · rw [claims_concat, h.claims]
    exact List.append_nil _
  · rw [List.mem_append, List.mem_singleton] at hn
    rcases hn with hn | hn
    · rcases h.checked n hn with hr | hr
      · exact .inl (List.mem_append_left _ hr)
      · exact .inr hr
    · cases hn

/-- What holds between any two statements. -/
structure JobInvariant (handler : JobHandler) (s : JobState) : Prop where
  fresh : s.job = none → s.log = [] ∧ ∀ p, s.process p = .idle
  ledger : ∀ row, s.job = some row → Ledger handler row s.log
  sound : ∀ p, (s.process p).Sound handler fun n ↦ .retried n ∈ s.log

theorem JobStart.invariant {s : JobState} (h : JobStart s) : JobInvariant handler s where
  fresh _ := ⟨h.log, h.process⟩
  ledger row hr := by
    rw [h.job] at hr
    cases hr
  sound p := by
    rw [h.process p]
    trivial

theorem JobInvariant.put {s : JobState} (h : JobInvariant handler s) {row row' : JobRow}
    (hr : s.job = some row) (hc : Changes handler (fun n ↦ .retried n ∈ s.log) row row') :
    JobInvariant handler (s.put row') where
  fresh := nofun
  ledger r hr' := by
    cases hr'
    exact (h.ledger row hr).changes hc
  sound := h.sound

theorem JobInvariant.turn {s : JobState} (h : JobInvariant handler s) {p : ℕ} {process : Process}
    (hjob : s.job = none → process = .idle)
    (hp : process.Sound handler fun n ↦ .retried n ∈ s.log) :
    JobInvariant handler (s.turn p process) where
  fresh hj := by
    refine ⟨(h.fresh hj).1, fun q ↦ ?_⟩
    by_cases heq : q = p
    · subst heq
      simp only [JobState.turn, Function.update_self]
      exact hjob hj
    · simp only [JobState.turn, Function.update_of_ne heq]
      exact (h.fresh hj).2 q
  ledger := h.ledger
  sound q := by
    by_cases heq : q = p
    · subst heq
      simpa only [JobState.turn, Function.update_self] using hp
    · simp only [JobState.turn, Function.update_of_ne heq]
      exact h.sound q

theorem JobInvariant.record {s : JobState} (h : JobInvariant handler s) {row' : JobRow}
    {e : Event} (hl : Ledger handler row' (s.log ++ [e])) :
    JobInvariant handler ((s.put row').record [e]) where
  fresh := nofun
  ledger r hr' := by
    cases hr'
    exact hl
  sound p := (h.sound p).mono fun _ hn ↦ List.mem_append_left _ hn

theorem sound_runHandler {worker attempt : ℕ} {outcome : Outcome} {log : List Event} :
    ((runHandler handler attempt outcome).process worker attempt).Sound handler
      fun n ↦ .retried n ∈ log ++ outcome.events attempt := by
  cases outcome with
  | done out =>
    cases out with
    | none => rfl
    | some encoded =>
      rw [runHandler]
      split <;> rfl
  | jobRetry message delaySeconds =>
    rw [runHandler]
    split
    · rfl
    · next hlt =>
      exact ⟨List.mem_append_right _ List.mem_cons_self, Nat.lt_of_not_le hlt⟩
  | timeout => trivial
  | _ => rfl

theorem sound_interrupt (condition : Condition) (row : JobRow) (retried : ℕ → Prop) :
    (interrupt condition row).Sound handler retried := by
  rw [interrupt]
  split <;> trivial

theorem sound_requestCancel (row : JobRow) (retried : ℕ → Prop) :
    (requestCancel row).Sound handler retried := by
  rw [requestCancel]
  split
  · trivial
  · split <;> trivial

theorem JobInvariant.claim {s : JobState} (h : JobInvariant handler s) {row row' : JobRow}
    {p worker : ℕ} (hr : s.job = some row) (hc : Jobs.claim worker s.clock row = (row', true)) :
    JobInvariant handler (((s.put row').turn p (.handling worker row'.attempts)).record
      [.claimed row'.attempts]) := by
  obtain ⟨hhit, rfl⟩ := JobRow.update_eq hc
  simp only [Bool.and_eq_true, decide_eq_true_eq] at hhit
  have hl := (h.ledger row hr).claim worker s.clock hhit.1
  exact (h.record hl).turn nofun trivial

theorem JobInvariant.checkpoint {s : JobState} (h : JobInvariant handler s) {row row' : JobRow}
    {worker attempt : ℕ} {name : String} (hr : s.job = some row)
    (hc : Jobs.checkpoint worker attempt s.clock name row = (row', true)) :
    JobInvariant handler ((s.put row').record [.checkpointed attempt]) := by
  obtain ⟨hhit, rfl⟩ := JobRow.update_eq hc
  exact h.record ((h.ledger row hr).checkpoint s.clock name hhit)

theorem JobInvariant.finish {s : JobState} (h : JobInvariant handler s) {p worker attempt : ℕ}
    (hp : s.process p = .handling worker attempt) (outcome : Outcome) :
    JobInvariant handler ((s.turn p
      ((runHandler handler attempt outcome).process worker attempt)).record
      (outcome.events attempt)) := by
  have hjob : s.job ≠ none := by
    intro hj
    have := (h.fresh hj).2 p
    rw [hp] at this
    cases this
  have hs : JobInvariant handler (s.record (outcome.events attempt)) := by
    cases outcome with
    | jobRetry message delaySeconds =>
      obtain ⟨row, hr⟩ := Option.ne_none_iff_exists'.1 hjob
      have hput : s.put row = s := by rw [JobState.put, ← hr]
      have := h.record ((h.ledger row hr).retried attempt)
      rwa [hput] at this
    | _ =>
      simp only [Outcome.events, JobState.record, List.append_nil]
      exact h
  exact hs.turn (fun hj ↦ absurd hj hjob) sound_runHandler

theorem JobInvariant.next {s t : JobState} {a : JobAction} (hmax : 1 ≤ handler.maxAttempts)
    (h : JobInvariant handler s) (hstep : s.next handler a = some t) :
    JobInvariant handler t := by
  cases a with
  | wait duration =>
    cases hstep
    exact ⟨h.fresh, h.ledger, h.sound⟩
  | enqueue dueAt =>
    simp only [JobState.next] at hstep
    split at hstep
    · next hj =>
      cases hstep
      refine ⟨nofun, fun row hr ↦ ?_, h.sound⟩
      cases hr
      have := ledger_enqueueJob handler dueAt hmax
      rwa [← (h.fresh hj).1] at this
    · cases hstep
  | claim p worker =>
    simp only [JobState.next] at hstep
    split at hstep
    · next row hr hp =>
      split at hstep
      · next row' hc => cases hstep; exact h.claim hr hc
      · cases hstep; exact h
    · cases hstep
  | heartbeat worker =>
    obtain ⟨row, hr, rfl⟩ := Option.map_eq_some_iff.1 hstep
    exact h.put hr (heartbeat_changes worker s.clock)
  | checkpoint p name =>
    simp only [JobState.next] at hstep
    split at hstep
    · next row worker attempt hr hp =>
      split at hstep
      · next row' hc => cases hstep; exact h.checkpoint hr hc
      · cases hstep; exact h
    · cases hstep
  | finish p outcome =>
    simp only [JobState.next] at hstep
    split at hstep
    · next worker attempt hp => cases hstep; exact h.finish hp outcome
    · cases hstep
  | reap p =>
    simp only [JobState.next] at hstep
    split at hstep
    · next row hr hp =>
      cases hstep
      exact h.turn (fun hj ↦ by rw [hj] at hr; cases hr) (sound_interrupt _ row _)
    · cases hstep
  | shutdown p worker =>
    simp only [JobState.next] at hstep
    split at hstep
    · next row hr hp =>
      cases hstep
      exact h.turn (fun hj ↦ by rw [hj] at hr; cases hr) (sound_interrupt _ row _)
    · cases hstep
  | requestCancel p =>
    simp only [JobState.next] at hstep
    split at hstep
    · next row hr hp =>
      cases hstep
      exact h.turn (fun hj ↦ by rw [hj] at hr; cases hr) (sound_requestCancel row _)
    · cases hstep
  | advance p =>
    simp only [JobState.next] at hstep
    split at hstep
    · next row hr =>
      obtain ⟨⟨row', process⟩, ha, rfl⟩ := Option.map_eq_some_iff.1 hstep
      obtain ⟨hc, hp⟩ := advance_changes ha (h.sound p)
      exact (h.put hr hc).turn nofun hp
    · cases hstep
  | abandon p =>
    cases hstep
    exact h.turn (fun _ ↦ rfl) trivial

theorem jobInvariant_reachable (hmax : 1 ≤ handler.maxAttempts) {s : JobState}
    (h : (jobMachine handler).Reachable s) : JobInvariant handler s := by
  refine Machine.Reachable.invariant (I := JobInvariant handler) ?_ ?_ h
  · intro s₀ h₀
    exact JobStart.invariant h₀
  · intro s₁ a s₂ hi hs
    exact hi.next hmax hs

/-- What a step does to a row that is there: a claim takes it from the queue, anything else is a
change. -/
theorem JobInvariant.next_job {s t : JobState} {a : JobAction} {row : JobRow}
    (h : JobInvariant handler s) (hstep : s.next handler a = some t) (hr : s.job = some row) :
    ∃ row', t.job = some row' ∧ (Changes handler (fun n ↦ .retried n ∈ s.log) row row' ∨
      row.status = .queued ∧ row.cancelRequested = false) := by
  have hstays : s.job = t.job → ∃ row', t.job = some row' ∧
      (Changes handler (fun n ↦ .retried n ∈ s.log) row row' ∨
        row.status = .queued ∧ row.cancelRequested = false) :=
    fun hj ↦ ⟨row, hj ▸ hr, .inl (.stays rfl)⟩
  cases a with
  | wait duration => cases hstep; exact hstays rfl
  | enqueue dueAt =>
    simp only [JobState.next, hr] at hstep
    cases hstep
  | claim p worker =>
    simp only [JobState.next, hr] at hstep
    split at hstep
    · next row₀ hr₀ hp =>
      cases hr₀
      split at hstep
      · next row' hc =>
        cases hstep
        have hhit := (JobRow.update_eq hc).1
        simp only [Bool.and_eq_true, decide_eq_true_eq, Bool.not_eq_true'] at hhit
        exact ⟨row', rfl, .inr hhit⟩
      · cases hstep; exact hstays rfl
    · cases hstep
  | heartbeat worker =>
    simp only [JobState.next, hr, Option.map_some] at hstep
    cases hstep
    exact ⟨_, rfl, .inl (heartbeat_changes worker s.clock)⟩
  | checkpoint p name =>
    simp only [JobState.next, hr] at hstep
    split at hstep
    · next row₀ worker attempt hr₀ hp =>
      cases hr₀
      split at hstep
      · next row' hc =>
        cases hstep
        obtain ⟨hhit, rfl⟩ := JobRow.update_eq hc
        have hrun := (ownClaim_iff.1 hhit).1
        exact ⟨_, rfl, .inl (.runs hrun hrun rfl (fun _ ↦ rfl) id)⟩
      · cases hstep; exact hstays rfl
    · cases hstep
  | finish p outcome =>
    simp only [JobState.next] at hstep
    split at hstep
    · cases hstep; exact hstays rfl
    · cases hstep
  | reap p =>
    simp only [JobState.next] at hstep
    split at hstep
    · cases hstep; exact hstays rfl
    · cases hstep
  | shutdown p worker =>
    simp only [JobState.next] at hstep
    split at hstep
    · cases hstep; exact hstays rfl
    · cases hstep
  | requestCancel p =>
    simp only [JobState.next] at hstep
    split at hstep
    · cases hstep; exact hstays rfl
    · cases hstep
  | advance p =>
    simp only [JobState.next, hr] at hstep
    obtain ⟨⟨row', process⟩, ha, rfl⟩ := Option.map_eq_some_iff.1 hstep
    exact ⟨row', rfl, .inl (advance_changes ha (h.sound p)).1⟩
  | abandon p => cases hstep; exact hstays rfl

/-- What holds of the row survives every run, once no step can break it. -/
theorem JobInvariant.run_job {P : JobRow → Prop} (hmax : 1 ≤ handler.maxAttempts)
    (hP : ∀ (log : List Event) row row', P row →
      (Changes handler (fun n ↦ .retried n ∈ log) row row' ∨
        row.status = .queued ∧ row.cancelRequested = false) → P row')
    {s t : JobState} {as : List JobAction} (h : JobInvariant handler s)
    (hrun : (jobMachine handler).Run s as t) {row : JobRow} (hr : s.job = some row) (hp : P row) :
    ∃ row', t.job = some row' ∧ P row' := by
  have hI := hrun.invariant (I := fun s ↦ JobInvariant handler s ∧ ∃ row, s.job = some row ∧ P row)
    (fun s a t hs hst ↦ ?_) ⟨h, row, hr, hp⟩
  · exact hI.2
  · obtain ⟨hs, row, hr, hp⟩ := hs
    obtain ⟨row', hr', hc⟩ := hs.next_job hst hr
    exact ⟨hs.next hmax hst, row', hr', hP s.log row row' hp hc⟩

/-- The claim whose finish, retry or interruption a process is about to write. -/
def Process.claim? : Process → Option ℕ
  | .finishing _ attempt _ _ _ | .retrying _ attempt _ _ | .timedOut _ attempt => some attempt
  | .settling read | .failing read => some read.attempts
  | .idle | .handling _ _ | .cancellingQueued | .cancellingRunning => none

theorem settleFail_hit {now : ℕ} {read : Interrupted} {row : JobRow}
    (h : (settleFail now read row).1 ≠ row) :
    row.status = .running ∧ row.attempts = read.attempts := by
  obtain ⟨hrun, ha, _⟩ := Interrupted.claim_iff.1 (JobRow.update_hit h)
  exact ⟨hrun, ha⟩

theorem settleRequeue_hit {now : ℕ} {read : Interrupted} {row : JobRow}
    (h : (settleRequeue now read row).1 ≠ row) :
    row.status = .running ∧ row.attempts = read.attempts := by
  have hhit := JobRow.update_hit h
  rw [Bool.and_eq_true] at hhit
  obtain ⟨hrun, ha, _⟩ := Interrupted.claim_iff.1 hhit.1
  exact ⟨hrun, ha⟩

/-- A settlement writes the row only while its own claim runs. -/
theorem advance_own {now n : ℕ} {row row' : JobRow} {p p' : Process} (hp : p.claim? = some n)
    (h : advance handler now row p = some (row', p')) (hne : row' ≠ row) :
    row.status = .running ∧ row.attempts = n := by
  cases p with
  | idle => cases h
  | handling worker attempt => cases h
  | cancellingQueued => cases hp
  | cancellingRunning => cases hp
  | timedOut worker attempt =>
    cases h
    exact absurd rfl hne
  | finishing worker attempt status error result =>
    cases h
    cases hp
    obtain ⟨hrun, _, ha⟩ := ownClaim_iff.1 (JobRow.update_hit hne)
    exact ⟨hrun, ha⟩
  | retrying worker attempt message delay =>
    cases h
    cases hp
    obtain ⟨hrun, _, ha⟩ := ownClaim_iff.1 (JobRow.update_hit hne)
    exact ⟨hrun, ha⟩
  | failing read =>
    cases h
    cases hp
    exact settleFail_hit hne
  | settling read =>
    cases hp
    rw [advance] at h
    split at h
    · split at h
      · next hset => cases h; exact settleRequeue_hit (by rwa [hset])
      · next hset => cases h; exact settleRequeue_hit (by rwa [hset])
    · cases h
      exact settleFail_hit hne

/-- The safety of the queue, seen from one state. -/
structure QueueSafe (handler : JobHandler) (s : JobState) : Prop where
  terminal : ∀ row, s.job = some row → row.status.terminal = true →
    ∀ as t, (jobMachine handler).Run s as t → t.job = some row
  settles : ∀ p n t, (s.process p).claim? = some n → s.next handler (.advance p) = some t →
    t.job ≠ s.job → ∃ row, s.job = some row ∧ row.status = .running ∧ row.attempts = n
  queued : ∀ row, s.job = some row → row.status = .queued →
    row.cancelRequested = false ∧ row.attempts < handler.maxAttempts
  claimed : ∀ row, s.job = some row → claims s.log = List.range' 1 row.attempts
  atMost : (claims s.log).length ≤ handler.maxAttempts
  cancelled : ∀ row, s.job = some row → row.cancelRequested = true →
    ∀ as t, (jobMachine handler).Run s as t → ∃ row', t.job = some row' ∧ row'.status ≠ .queued
  checkpoints : CheckpointsHold s.log

theorem queue_safe (handler : JobHandler) (hmax : 1 ≤ handler.maxAttempts) (s : JobState)
    (h : (jobMachine handler).Reachable s) : QueueSafe handler s := by
  have hinv := jobInvariant_reachable hmax h
  have hclaims : (claims s.log).length ≤ handler.maxAttempts ∧ CheckpointsHold s.log := by
    cases hj : s.job with
    | none =>
      rw [(hinv.fresh hj).1]
      exact ⟨Nat.zero_le _, fun before after n m hlog ↦ by simp at hlog⟩
    | some row =>
      have hl := hinv.ledger row hj
      rw [hl.claims, List.length_range']
      exact ⟨hl.bounded, hl.hold⟩
  refine ⟨fun row hr ht as t hrun ↦ ?_, fun p n t hp hstep hne ↦ ?_,
    fun row hr ↦ (hinv.ledger row hr).queued, fun row hr ↦ (hinv.ledger row hr).claims,
    hclaims.1, fun row hr hc as t hrun ↦ ?_, hclaims.2⟩
  · have hsame := hinv.run_job (P := fun r ↦ r = row) hmax (fun log r r' heq hc ↦ ?_) hrun hr rfl
    · obtain ⟨row', hr', rfl⟩ := hsame
      exact hr'
    · subst heq
      rcases hc with hc | ⟨hq, _⟩
      · exact hc.terminal ht
      · rw [hq] at ht
        cases ht
  · simp only [JobState.next] at hstep
    split at hstep
    · next row hr =>
      obtain ⟨⟨row', process⟩, ha, rfl⟩ := Option.map_eq_some_iff.1 hstep
      refine ⟨row, hr, advance_own hp ha fun heq ↦ hne ?_⟩
      exact (congrArg some heq).trans hr.symm
    · cases hstep
  · have hkept := hinv.run_job (P := fun r ↦ r.cancelRequested = true) hmax
      (fun log r r' hc hch ↦ ?_) hrun hr hc
    · obtain ⟨row', hr', hc'⟩ := hkept
      refine ⟨row', hr', fun hq ↦ ?_⟩
      have hlater := jobInvariant_reachable hmax (h.run hrun)
      have := ((hlater.ledger row' hr').queued hq).1
      rw [hc'] at this
      cases this
    · rcases hch with hch | ⟨_, hq⟩
      · exact hch.cancelRequested hc
      · rw [hc] at hq
        cases hq

def sampleHandler : JobHandler where
  maxAttempts := 2
  requeueIfInterrupted := true

def freshJob : JobState where
  clock := 1000
  job := none
  process _ := .idle
  log := []

/-- A worker hangs and is reaped, another one claims the job, passes its checkpoint and is
cancelled; the first worker finishes late. -/
def reapedAndCancelled : List JobAction :=
  [.enqueue none, .claim 0 7, .wait 200, .reap 1, .advance 1, .claim 2 8, .checkpoint 2 "sending",
    .finish 0 (.done none), .advance 0, .requestCancel 3, .advance 3, .finish 2 .jobCancelled,
    .advance 2]

theorem queue_safe_sample : ∃ s : JobState, QueueSafe sampleHandler s ∧ claims s.log = [1, 2] ∧
    s.job.map (·.status) = some .cancelled := by
  have hrun : (reapedAndCancelled.foldlM (fun s a ↦ if True then s.next sampleHandler a else none)
      freshJob).map (fun s ↦ (claims s.log, s.job.map (·.status))) =
      some ([1, 2], some .cancelled) := by decide
  obtain ⟨s, hs, hp⟩ := Option.map_eq_some_iff.1 hrun
  have hrun' : (jobMachine sampleHandler).Run freshJob reapedAndCancelled s :=
    (Machine.run_of_foldlM (C := fun _ _ ↦ True) _ hs).of_restrict
  have hreach : (jobMachine sampleHandler).Reachable s :=
    ⟨freshJob, reapedAndCancelled, ⟨rfl, fun _ ↦ rfl, rfl⟩, hrun'⟩
  exact ⟨s, queue_safe sampleHandler (by decide) s hreach, congrArg Prod.fst hp,
    congrArg Prod.snd hp⟩

end Tiqora.Jobs
