import Tiqora.Gi.RetryChainSends
import Tiqora.Gi.ErrorHandling

namespace Tiqora.Gi.RetryChain

open Foundation Jobs ErrorHandling

def retryCount (past : Option PastExecutionData) : ℕ := (past.map (·.retryCount)).getD 0

def retryAt (past : Option PastExecutionData) : Option ℕ := past.bind (·.retryAt)

theorem reloadPast_eq_ok {past past' : Option PastExecutionData}
    (h : ChainState.reloadPast past = .ok past') (hc : retryCount past < 2 ^ 53) :
    retryCount past' = retryCount past ∧ retryAt past' = retryAt past ∧
      past'.map (·.initialRequestAt) = past.map (·.initialRequestAt) := by
  cases past with
  | none =>
    cases h
    exact ⟨rfl, rfl, rfl⟩
  | some d =>
    rw [ChainState.reloadPast, PastExecutionData.reload] at h
    cases hinterval : reloadInterval d.retryInterval with
    | error e =>
      rw [hinterval] at h
      cases h
    | ok interval =>
      have hcount : float d.retryCount = .ok d.retryCount := float_of_lt hc
      rw [hinterval, ok_bind, hcount, ok_bind] at h
      cases h
      exact ⟨rfl, rfl, rfl⟩

theorem followUp_planned {modules : List ErrorHandlingModule} {error : RequestError}
    {past : Option PastExecutionData} {now clock dueAt : ℕ} {next : PastExecutionData}
    {message : String}
    (h : ChainState.followUp modules error past now clock = .ok (some (next, dueAt), message)) :
    ∃ module ∈ modules, module.type = "RequestRetry" ∧ ∃ values,
      checkModuleConfig module.config = .ok values ∧ Planned values past now next dueAt := by
  obtain ⟨result, hresult, h⟩ := bind_eq_ok.1 h
  split at h
  · rename_i d hd
    split at h
    · rename_i next' hre hpast
      cases h
      obtain ⟨module, hmem, htype, hretry⟩ := handleError_decision hresult hd
      obtain ⟨values, next'', target, hvalues, hnext, htarget, hplanned⟩ :=
        requestRetry_planned hretry hre
      rw [hpast] at hnext
      cases hnext
      rw [htarget]
      exact ⟨module, hmem, htype, values, hvalues, hplanned⟩
    · cases h
  · cases h

/-- The data of a retry, after the data of the call that failed. -/
structure Linked (past next : Option PastExecutionData) : Prop where
  count : retryCount next = retryCount past + 1
  initial : ∀ moment, past.map (·.initialRequestAt) = some moment →
    next.map (·.initialRequestAt) = some moment
  later : ∃ target, retryAt next = some target ∧ ∀ moment, retryAt past = some moment → moment < target

theorem Planned.linked {values : Values} {past past' : Option PastExecutionData} {now dueAt : ℕ}
    {next : PastExecutionData} (h : Planned values past' now next dueAt)
    (hload : ChainState.reloadPast past = .ok past') (hc : retryCount past < 2 ^ 53)
    (hdue : ∀ moment, retryAt past = some moment → moment ≤ now) : Linked past (some next) := by
  obtain ⟨hcount, -, hinitial⟩ := reloadPast_eq_ok hload hc
  refine ⟨?_, fun moment hm ↦ ?_, dueAt, h.at_target, fun moment hm ↦ (hdue moment hm).trans_lt h.later⟩
  · rw [← hcount]
    exact h.count
  · have hi := h.initial
    rw [hinitial, hm] at hi
    exact congrArg some hi

/-- When a row may be claimed, and that one that was claimed was due. -/
structure RowDue (clock : ℕ) (job : GiJob) : Prop where
  waiting : job.row.attempts = 0 → job.row.status ≠ .running ∧
    (job.row.status = .queued → job.row.dueAt = retryAt job.past)
  claimed : 0 < job.row.attempts → ∀ moment, retryAt job.past = some moment → moment ≤ clock

theorem RowDue.moves {clock clock' : ℕ} {a b : GiJob} (h : RowDue clock a) (hclock : clock ≤ clock')
    (hpast : a.past = b.past) (hm : Moves a.row b.row) : RowDue clock' b where
  waiting h₀ := by
    obtain ⟨hrun, hdue⟩ := h.waiting (hm.attempts ▸ h₀)
    refine ⟨fun hb ↦ hrun (hm.running hb).1, fun hq ↦ ?_⟩
    rcases hm.queued hq with hb | heq
    · exact absurd hb hrun
    · rw [heq, ← hpast]
      rw [heq] at hq
      exact hdue hq
  claimed hpos moment hmoment := by
    rw [hm.attempts] at hpos
    exact (h.claimed hpos moment (hpast ▸ hmoment)).trans hclock

/-- Every retry is planned from the call before it, and called when it is due. -/
structure DataKept (n : ℕ) (s : ChainState) : Prop where
  due : ∀ (j : ℕ) (job : GiJob), s.jobs[j]? = some job → RowDue s.clock job
  begun : ∀ p worker attempt job now past, s.Handles p worker attempt job →
    (s.task p).begun = some (now, past) → ChainState.reloadPast job.past = .ok past ∧
      ∀ moment, retryAt job.past = some moment → moment ≤ now
  first : ∀ job : GiJob, s.jobs[0]? = some job → job.past = none
  linked : ∀ (j : ℕ) (job next : GiJob), s.jobs[j]? = some job → s.jobs[j + 1]? = some next →
    Linked job.past next.past
  atMost : s.jobs.length ≤ n + 1

namespace DataKept

variable {n : ℕ} {s t : ChainState}

theorem start (h : ChainStart s) : DataKept n s := by
  refine ⟨fun j job hjob ↦ ?_, fun p w a job now past hp ↦ ?_, fun job hjob ↦ ?_,
    fun j job next _ hnext ↦ ?_, ?_⟩
  · rw [h.jobs, List.getElem?_singleton] at hjob
    split at hjob
    · cases hjob
      exact ⟨fun _ ↦ ⟨nofun, fun _ ↦ rfl⟩, fun hpos ↦ absurd hpos (Nat.lt_irrefl 0)⟩
    · cases hjob
  · have hprocess := hp.process
    rw [h.task p] at hprocess
    cases hprocess
  · rw [h.jobs] at hjob
    cases hjob
    rfl
  · rw [h.jobs] at hnext
    cases hnext
  · rw [h.jobs]
    exact Nat.succ_le_succ (Nat.zero_le n)

theorem count_eq (hs : DataKept n s) {j : ℕ} {job : GiJob} (hjob : s.jobs[j]? = some job) :
    retryCount job.past = j := by
  induction j generalizing job with
  | zero =>
    rw [hs.first job hjob]
    rfl
  | succ j ih =>
    have hj : j < s.jobs.length := Nat.lt_of_succ_lt (List.getElem?_eq_some_iff.1 hjob).1
    have hbefore := List.getElem?_eq_getElem hj
    rw [(hs.linked j _ job hbefore hjob).count, ih hbefore]

/-- A step that keeps the data of every job. -/
theorem of_rows (hs : DataKept n s) (hlength : t.jobs.length = s.jobs.length)
    (hrows : ∀ (j : ℕ) (b : GiJob), t.jobs[j]? = some b →
      ∃ a : GiJob, s.jobs[j]? = some a ∧ a.past = b.past)
    (hdue : ∀ (j : ℕ) (b : GiJob), t.jobs[j]? = some b → RowDue t.clock b)
    (hbegun : ∀ p worker attempt job now past, t.Handles p worker attempt job →
      (t.task p).begun = some (now, past) → ChainState.reloadPast job.past = .ok past ∧
        ∀ moment, retryAt job.past = some moment → moment ≤ now) : DataKept n t where
  due := hdue
  begun := hbegun
  first b hb := by
    obtain ⟨a, ha, hpast⟩ := hrows 0 b hb
    exact hpast ▸ hs.first a ha
  linked j b c hb hc := by
    obtain ⟨a, ha, hpast⟩ := hrows j b hb
    obtain ⟨a', ha', hpast'⟩ := hrows (j + 1) c hc
    exact hpast ▸ hpast' ▸ hs.linked j a a' ha ha'
  atMost := hlength ▸ hs.atMost

theorem quiet (hs : DataKept n s) (h : ChainState.Quiet s t) : DataKept n t := by
  refine hs.of_rows h.length (fun j b hb ↦ ?_) (fun j b hb ↦ ?_) fun p w a job now past hp hbegun ↦ ?_
  · obtain ⟨a, ha, hpast, -⟩ := h.jobs j b hb
    exact ⟨a, ha, hpast⟩
  · obtain ⟨a, ha, hpast, hmoves⟩ := h.jobs j b hb
    exact (hs.due j a ha).moves h.clock hpast hmoves
  · have htask := h.task_eq hp.process
    obtain ⟨job', hjob', hpast, -⟩ := h.jobs _ _ hp.job
    rw [htask] at hbegun hjob'
    exact hpast ▸ hs.begun p w a job' now past ⟨htask ▸ hp.process, hjob'⟩ hbegun

/-- A row is put with the data of its job. -/
theorem putRow_past {j : ℕ} {job : GiJob} {row : JobRow} (hjob : s.jobs[j]? = some job) {i : ℕ}
    {b : GiJob} (hb : (s.putRow j row).jobs[i]? = some b) :
    ∃ a, s.jobs[i]? = some a ∧ a.past = b.past ∧ (i = j ∧ a = job ∧ b.row = row ∨ b = a) := by
  by_cases hi : i = j
  · subst hi
    rw [ChainState.putRow_jobs_self _ hjob] at hb
    cases hb
    exact ⟨job, hjob, rfl, .inl ⟨rfl, rfl, rfl⟩⟩
  · rw [ChainState.putRow_jobs_of_ne _ hi] at hb
    exact ⟨b, hb, rfl, .inr rfl⟩

theorem claims (hs : DataKept n s) {p j worker : ℕ} {job : GiJob} (hjob : s.jobs[j]? = some job)
    (hdue : job.row.dueAt.all (· ≤ s.clock) = true) (hqueued : job.row.status = .queued) :
    DataKept n ((s.putRow j (claimValues worker s.clock job.row)).turn p
      ⟨j, .handling worker (job.row.attempts + 1), none, false⟩) := by
  have hclaimed : ∀ moment, retryAt job.past = some moment → moment ≤ s.clock := by
    intro moment hm
    rcases Nat.eq_zero_or_pos job.row.attempts with h₀ | hpos
    · rw [((hs.due j job hjob).waiting h₀).2 hqueued, hm] at hdue
      exact of_decide_eq_true hdue
    · exact (hs.due j job hjob).claimed hpos moment hm
  refine hs.of_rows (ChainState.putRow_length ..) (fun i b hb ↦ ?_) (fun i b hb ↦ ?_)
    fun q w a job' now past hq hbegun ↦ ?_
  · obtain ⟨a, ha, hpast, -⟩ := putRow_past hjob hb
    exact ⟨a, ha, hpast⟩
  · obtain ⟨a, ha, hpast, ⟨rfl, rfl, hrow⟩ | rfl⟩ := putRow_past hjob hb
    · refine ⟨fun h₀ ↦ ?_, fun _ moment hm ↦ hclaimed moment (hpast ▸ hm)⟩
      rw [hrow] at h₀
      cases h₀
    · exact hs.due i b ha
  · by_cases hqp : q = p
    · subst hqp
      rw [ChainState.turn_task_self] at hbegun
      cases hbegun
    · obtain ⟨hprocess, hjob'⟩ := hq
      rw [ChainState.turn_task_of_ne _ hqp] at hprocess hjob' hbegun
      obtain ⟨a', ha', hpast, -⟩ := putRow_past hjob hjob'
      exact hpast ▸ hs.begun q w a a' now past ⟨hprocess, ha'⟩ hbegun

theorem loads (hs : DataKept n s) (hk : ChainState.SendsKept s) {p worker attempt : ℕ} {job : GiJob}
    {past : Option PastExecutionData} (h : s.Handles p worker attempt job)
    (hload : ChainState.reloadPast job.past = .ok past) :
    DataKept n (s.turn p { s.task p with begun := some (s.clock, past) }) := by
  refine hs.of_rows rfl (fun j b hb ↦ ⟨b, hb, rfl⟩) hs.due fun q w a job' now past' hq hbegun ↦ ?_
  by_cases hqp : q = p
  · subst hqp
    obtain ⟨-, hjob'⟩ := hq
    rw [ChainState.turn_task_self] at hjob' hbegun
    have hsame : s.jobs[(s.task q).job]? = some job' := hjob'
    rw [h.job] at hsame
    cases hsame
    cases hbegun
    obtain ⟨job'', hjob'', hw⟩ := hk.working q worker attempt h.process
    rw [h.job] at hjob''
    cases hjob''
    exact ⟨hload, (hs.due _ job h.job).claimed (hw.pos.trans_le hw.claimed)⟩
  · obtain ⟨hprocess, hjob'⟩ := hq
    rw [ChainState.turn_task_of_ne _ hqp] at hprocess hjob' hbegun
    exact hs.begun q w a job' now past' ⟨hprocess, hjob'⟩ hbegun

theorem marks {clock : ℕ} {job b : GiJob} (h : RowDue clock job) (name : String)
    (hpast : job.past = b.past) (hrow : b.row = checkpointValues clock name job.row) :
    RowDue clock b := by
  obtain ⟨past, row⟩ := b
  subst hpast hrow
  exact ⟨h.waiting, h.claimed⟩

theorem sends (hs : DataKept n s) {p worker attempt : ℕ} {job : GiJob}
    (h : s.Handles p worker attempt job) :
    DataKept n { (s.putRow (s.task p).job
      (checkpointValues s.clock checkpointSending job.row)).turn p { s.task p with sent := true } with
      sends := s.sends ++ [(s.task p).job] } := by
  refine hs.of_rows (ChainState.putRow_length ..) (fun i b hb ↦ ?_) (fun i b hb ↦ ?_)
    fun q w a job' now past hq hbegun ↦ ?_
  · obtain ⟨a, ha, hpast, -⟩ := putRow_past h.job hb
    exact ⟨a, ha, hpast⟩
  · obtain ⟨a, ha, hpast, ⟨-, rfl, hrow⟩ | rfl⟩ := putRow_past h.job hb
    · exact marks (hs.due i a ha) _ hpast hrow
    · exact hs.due i b ha
  · obtain ⟨hprocess, hjob'⟩ := hq
    by_cases hqp : q = p
    · subst hqp
      rw [ChainState.turn_task_self] at hprocess hjob' hbegun
      obtain ⟨a', ha', hpast, -⟩ := putRow_past h.job hjob'
      exact hpast ▸ hs.begun q w a a' now past ⟨hprocess, ha'⟩ hbegun
    · rw [ChainState.turn_task_of_ne _ hqp] at hprocess hjob' hbegun
      obtain ⟨a', ha', hpast, -⟩ := putRow_past h.job hjob'
      exact hpast ▸ hs.begun q w a a' now past ⟨hprocess, ha'⟩ hbegun

/-- The limit on the retries is at most `n` and not missing, in every configuration that passes
its check. -/
def Limited (n : ℕ) (modules : List ErrorHandlingModule) : Prop :=
  ∀ module ∈ modules, module.type = "RequestRetry" → ∀ values max,
    checkModuleConfig module.config = .ok values → limit values.retryCountMax = .ok max →
    0 < max ∧ max ≤ n

theorem planned (hs : DataKept n s) (hn : n < 2 ^ 53) {p worker attempt now dueAt : ℕ} {job : GiJob}
    {modules : List ErrorHandlingModule} {error : RequestError} {past : Option PastExecutionData}
    {next : PastExecutionData} {message : String} (hmodules : Limited n modules)
    (h : s.Handles p worker attempt job) (hbegun : (s.task p).begun = some (now, past))
    (hfollow : ChainState.followUp modules error past now s.clock = .ok (some (next, dueAt), message)) :
    Linked job.past (some next) ∧ next.retryAt = some dueAt ∧ (s.task p).job < n := by
  obtain ⟨module, hmem, htype, values, hvalues, hplanned⟩ := followUp_planned hfollow
  obtain ⟨hload, hdue⟩ := hs.begun p worker attempt job now past h hbegun
  have hcount := hs.count_eq h.job
  have hj := (List.getElem?_eq_some_iff.1 h.job).1
  have hsmall : retryCount job.past < 2 ^ 53 := by
    have := hs.atMost
    omega
  obtain ⟨max, hmax, hallowed⟩ := hplanned.allowed
  obtain ⟨hpos, hle⟩ := hmodules module hmem htype values max hvalues hmax
  have hlt : retryCount past < max := hallowed (Nat.pos_iff_ne_zero.1 hpos)
  rw [(reloadPast_eq_ok hload hsmall).1, hcount] at hlt
  exact ⟨Planned.linked hplanned hload hsmall hdue, hplanned.at_target, hlt.trans_le hle⟩

theorem follows (hs : DataKept n s) (hk : ChainState.SendsKept s) (hn : n < 2 ^ 53)
    {p worker attempt now dueAt : ℕ} {job : GiJob} {modules : List ErrorHandlingModule}
    {error : RequestError} {past : Option PastExecutionData} {next : PastExecutionData}
    {message : String} {row : JobRow} {outcome : Outcome} (hmodules : Limited n modules)
    (h : s.Handles p worker attempt job) (hbegun : (s.task p).begun = some (now, past))
    (hfollow : ChainState.followUp modules error past now s.clock = .ok (some (next, dueAt), message))
    (hrow : ChainState.Marked s p worker attempt job.row row) (ho : outcome.events attempt = []) :
    DataKept n (((s.putRow (s.task p).job row).enqueueInvocation next dueAt).leave p worker attempt
      outcome) := by
  obtain ⟨hlinked, hnext, hlt⟩ := hs.planned hn hmodules h hbegun hfollow
  obtain ⟨hlast, -, -⟩ := hk.marked h hrow
  have hlength := ChainState.putRow_length (s := s) (s.task p).job row
  have hjobs {i b} (hb : ((s.putRow (s.task p).job row).jobs ++
      [⟨enqueueJob (some dueAt), some next⟩])[i]? = some b) :
      (s.putRow (s.task p).job row).jobs[i]? = some b ∨
        i = s.jobs.length ∧ b = ⟨enqueueJob (some dueAt), some next⟩ := by
    rw [List.getElem?_append] at hb
    split at hb
    · exact .inl hb
    · rename_i hge
      rw [List.getElem?_singleton] at hb
      split at hb
      · cases hb
        exact .inr ⟨by omega, rfl⟩
      · cases hb
  refine ⟨fun i b hb ↦ ?_, fun q w a job' now' past' hq hbegun' ↦ ?_, fun b hb ↦ ?_,
    fun i b c hb hc ↦ ?_, ?_⟩
  · rcases hjobs hb with hb | ⟨-, rfl⟩
    · obtain ⟨a, ha, hpast, ⟨-, rfl, hrow'⟩ | rfl⟩ := putRow_past h.job hb
      · cases hrow with
        | sent _ => exact (hs.due i a ha).moves le_rfl hpast (hrow' ▸ .refl _)
        | unsent _ _ => exact marks (hs.due i a ha) _ hpast hrow'
      · exact hs.due i b ha
    · exact ⟨fun _ ↦ ⟨nofun, fun _ ↦ hnext.symm⟩, fun hpos ↦ absurd hpos (Nat.lt_irrefl 0)⟩
  · by_cases hqp : q = p
    · subst hqp
      have hprocess := hq.process
      rw [ChainState.leave, ChainState.turn_task_self] at hprocess
      exact absurd hprocess ((settled_runHandler worker attempt ho).free w a)
    · obtain ⟨hprocess, hjob'⟩ := hq
      rw [ChainState.leave, ChainState.turn_task_of_ne _ hqp] at hprocess hjob' hbegun'
      obtain ⟨hbefore, hbefore', hw⟩ := hk.working q w a hprocess
      have hlt' := (List.getElem?_eq_some_iff.1 hbefore').1
      rcases hjobs hjob' with hjob' | ⟨heq, -⟩
      · obtain ⟨a', ha', hpast, -⟩ := putRow_past h.job hjob'
        exact hpast ▸ hs.begun q w a a' now' past' ⟨hprocess, ha'⟩ hbegun'
      · exact absurd heq hlt'.ne
  · rcases hjobs hb with hb | ⟨heq, -⟩
    · obtain ⟨a, ha, hpast, -⟩ := putRow_past h.job hb
      exact hpast ▸ hs.first a ha
    · omega
  · have hi := (List.getElem?_eq_some_iff.1 hc).1
    rcases hjobs hb with hb | ⟨heq, -⟩
    · obtain ⟨a, ha, hpast, -⟩ := putRow_past h.job hb
      rcases hjobs hc with hc | ⟨heq, rfl⟩
      · obtain ⟨a', ha', hpast', -⟩ := putRow_past h.job hc
        exact hpast ▸ hpast' ▸ hs.linked i a a' ha ha'
      · have hij : i = (s.task p).job := by omega
        rw [hij, h.job] at ha
        cases ha
        exact hpast ▸ hlinked
    · have hbound : i + 1 < ((s.putRow (s.task p).job row).jobs ++
          [(⟨enqueueJob (some dueAt), some next⟩ : GiJob)]).length := hi
      rw [List.length_append, List.length_singleton] at hbound
      omega
  · have hbound : ((s.putRow (s.task p).job row).jobs ++
        [(⟨enqueueJob (some dueAt), some next⟩ : GiJob)]).length ≤ n + 1 := by
      rw [List.length_append, List.length_singleton]
      omega
    exact hbound

end DataKept

/-- The calls fail with error handling that is limited. -/
def FailsLimited (n : ℕ) (_ : ChainState) (a : ChainAction) : Prop :=
  ∀ p modules error, a = .fail p modules error → DataKept.Limited n modules

theorem DataKept.next {n : ℕ} {s t : ChainState} (hs : DataKept n s) (hk : ChainState.SendsKept s)
    (hn : n < 2 ^ 53) {a : ChainAction} (ha : FailsLimited n s a) (h : s.next a = some t) :
    DataKept n t := by
  cases ChainState.next_effect hk.sound h with
  | quiet h => exact hs.quiet h
  | claims hjob hdue hqueued ht => exact ht ▸ hs.claims hjob hdue hqueued
  | loads h hload ht => exact ht ▸ hs.loads hk h hload
  | sends h _ _ ht => exact ht ▸ hs.sends h
  | follows heq h hbegun hfollow hrow ht =>
    exact ht ▸ hs.follows hk hn (ha _ _ _ heq) h hbegun hfollow hrow rfl

/-- Nothing more is sent for a job before the last. -/
theorem ChainState.SendsKept.closed {s t : ChainState} {as : List ChainAction}
    (hs : ChainState.SendsKept s) (hrun : retryChain.Run s as t) :
    s.jobs.length ≤ t.jobs.length ∧
      ∀ j, j + 1 < s.jobs.length → (j ∈ t.sends ↔ j ∈ s.sends) := by
  refine hrun.relates (I := ChainState.SendsKept)
    (R := fun s t ↦ s.jobs.length ≤ t.jobs.length ∧
      ∀ j, j + 1 < s.jobs.length → (j ∈ t.sends ↔ j ∈ s.sends))
    (fun s a t hs h ↦ hs.next h) (fun s ↦ ⟨le_rfl, fun _ _ ↦ .rfl⟩) (fun s t u h h' ↦ ?_)
    (fun s a t hs h ↦ ?_) hs
  · exact ⟨h.1.trans h'.1, fun j hj ↦ (h'.2 j (hj.trans_le h.1)).trans (h.2 j hj)⟩
  · cases ChainState.next_effect hs.sound h with
    | quiet h => exact ⟨h.length.ge, fun j _ ↦ by rw [h.sends]⟩
    | claims _ _ _ ht =>
      subst ht
      exact ⟨(ChainState.putRow_length ..).ge, fun _ _ ↦ .rfl⟩
    | loads _ _ ht =>
      subst ht
      exact ⟨le_rfl, fun _ _ ↦ .rfl⟩
    | sends hp hown hsent ht =>
      subst ht
      obtain ⟨-, hlast⟩ := hs.unsent hp hown hsent
      refine ⟨(ChainState.putRow_length ..).ge, fun j hj ↦ ?_⟩
      have hne := Nat.ne_of_lt (Nat.lt_of_succ_lt_succ (hj.trans_eq hlast.symm))
      simp [hne]
    | follows _ _ _ _ _ ht =>
      subst ht
      exact ⟨by simp [ChainState.leave, ChainState.turn, ChainState.enqueueInvocation],
        fun _ _ ↦ .rfl⟩

/-- The calls of a chain, in any state of it. -/
structure ChainSafe (n : ℕ) (s : ChainState) : Prop where
  /-- The request of a job leaves at most once, and never after one of a later job. -/
  sends : s.sends.Pairwise (· < ·)
  bounded : ∀ j ∈ s.sends, j < s.jobs.length
  atMost : s.jobs.length ≤ n + 1
  /-- A call whose retry is queued is sent no more. -/
  closed : ∀ as t, retryChain.Run s as t → ∀ j, j + 1 < s.jobs.length → (j ∈ t.sends ↔ j ∈ s.sends)
  counted : ∀ j job, s.jobs[j]? = some job → retryCount job.past = j
  initial : ∀ (i j : ℕ) (a b : GiJob), 0 < i → i ≤ j → s.jobs[i]? = some a → s.jobs[j]? = some b →
    a.past.map (·.initialRequestAt) = b.past.map (·.initialRequestAt)
  later : ∀ (i j : ℕ) (a b : GiJob), i < j → s.jobs[i]? = some a → s.jobs[j]? = some b →
    ∃ target, retryAt b.past = some target ∧ ∀ moment, retryAt a.past = some moment → moment < target
  due : ∀ p worker attempt job now past, s.Handles p worker attempt job →
    (s.task p).begun = some (now, past) → ∀ moment, retryAt job.past = some moment → moment ≤ now

section Chain

variable {n : ℕ} {s : ChainState}

theorem DataKept.later (hs : DataKept n s) {i j : ℕ} {a b : GiJob} (hij : i < j)
    (ha : s.jobs[i]? = some a) (hb : s.jobs[j]? = some b) :
    ∃ target, retryAt b.past = some target ∧
      ∀ moment, retryAt a.past = some moment → moment < target := by
  induction j, hij using Nat.le_induction generalizing b with
  | base => exact (hs.linked i a b ha hb).later
  | succ j hij ih =>
    have hj : j < s.jobs.length := Nat.lt_of_succ_lt (List.getElem?_eq_some_iff.1 hb).1
    have hbefore := List.getElem?_eq_getElem hj
    obtain ⟨target, htarget, hearlier⟩ := ih hbefore
    obtain ⟨target', htarget', hlater⟩ := (hs.linked j _ b hbefore hb).later
    exact ⟨target', htarget', fun moment hm ↦ (hearlier moment hm).trans (hlater target htarget)⟩

theorem DataKept.initial (hs : DataKept n s) {i j : ℕ} {a b : GiJob} (hi : 0 < i) (hij : i ≤ j)
    (ha : s.jobs[i]? = some a) (hb : s.jobs[j]? = some b) :
    a.past.map (·.initialRequestAt) = b.past.map (·.initialRequestAt) := by
  have hsome : ∃ d, a.past = some d := by
    cases hpast : a.past with
    | none =>
      have hcount := hs.count_eq ha
      rw [hpast] at hcount
      exact absurd hcount hi.ne
    | some d => exact ⟨d, rfl⟩
  obtain ⟨d, hd⟩ := hsome
  induction j, hij using Nat.le_induction generalizing b with
  | base =>
    rw [ha] at hb
    cases hb
    rfl
  | succ j hij ih =>
    have hj : j < s.jobs.length := Nat.lt_of_succ_lt (List.getElem?_eq_some_iff.1 hb).1
    have hbefore := List.getElem?_eq_getElem hj
    have heq := ih hbefore
    rw [hd, Option.map_some] at heq ⊢
    exact ((hs.linked j _ b hbefore hb).initial _ heq.symm).symm

end Chain

/-- One retry, an hour at most apart. -/
def onceAgain : ErrorHandlingModule where
  key := "Retry"
  type := "RequestRetry"
  invokerFilter := []
  errorStageFilter := []
  errorMessageContentFilter := none
  stopAfterMatch := none
  config := [("ScheduleRetry", .scalar "1"), ("RetryIntervalStart", .scalar "60"),
    ("RetryIntervalFactor", .scalar "2"), ("RetryCountMax", .scalar "1")]

def refused : RequestError where
  invoker := "TicketUpdate"
  errorStage := "RequesterRequestPerform"
  summary := "Connection refused"
  hasData := true
  contentMatches _ := false

def firstCall : ChainState := ⟨1000, [⟨enqueueJob none, none⟩], fun _ ↦ .idle, []⟩

/-- The first call is sent and fails, its retry is reaped before it is sent, claimed again, sent and
fails; the hanging worker of the retry is late. -/
def failedTwice : List ChainAction :=
  [.claim 0 0 7, .load 0, .beforeSend 0, .fail 0 [onceAgain] refused, .advance 0, .wait 60,
    .claim 0 1 7, .load 0, .wait 200, .reap 1 1, .advance 1, .claim 2 1 8, .load 2, .beforeSend 0,
    .beforeSend 2, .fail 2 [onceAgain] refused, .advance 2, .advance 0]

theorem limited_onceAgain : DataKept.Limited 1 [onceAgain] := by
  intro module hmem _ values max hvalues hmax
  obtain rfl := List.mem_singleton.1 hmem
  have hcheck : (checkModuleConfig onceAgain.config).map (·.retryCountMax) = .ok "1" := by
    decide +kernel
  rw [hvalues] at hcheck
  have htext : values.retryCountMax = "1" := Except.ok.inj hcheck
  have hlimit : limit "1" = .ok 1 := by decide +kernel
  rw [htext, hlimit] at hmax
  cases hmax
  decide

end Tiqora.Gi.RetryChain
