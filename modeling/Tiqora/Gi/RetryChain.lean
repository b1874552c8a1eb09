import Tiqora.Gi.ErrorHandling
import Tiqora.Jobs.QueueSafety
import Tiqora.Jobs.Runner

namespace Tiqora.Gi.RetryChain

open Foundation Jobs ErrorHandling

def giHandler : JobHandler where
  maxAttempts := 3
  requeueIfInterrupted := true

def checkpointSending : String := "sending"

def checkpointRescheduled : String := "rescheduled"

def futureTaskTimeDiffDefault : ℕ := 300

/-- A job of the chain: its row, and the execution data of its payload. -/
structure GiJob where
  row : JobRow
  past : Option PastExecutionData

/-- A process at work on a job: the start of the call with the data it loaded, and whether the
request has left. -/
structure GiTask where
  job : ℕ
  process : Process
  begun : Option (ℕ × Option PastExecutionData)
  sent : Bool

def GiTask.idle : GiTask := ⟨0, .idle, none, false⟩

/-- One call and the jobs that its retries make, oldest first. -/
structure ChainState where
  clock : ℕ
  jobs : List GiJob
  task : ℕ → GiTask
  sends : List ℕ

inductive ChainAction
  | wait (duration : ℕ)
  | claim (process job worker : ℕ)
  | heartbeat (job worker : ℕ)
  | load (process : ℕ)
  | beforeSend (process : ℕ)
  | succeed (process : ℕ)
  | fail (process : ℕ) (modules : List ErrorHandlingModule) (error : RequestError)
  | finish (process : ℕ) (outcome : Outcome)
  | reap (process job : ℕ)
  | shutdown (process job worker : ℕ)
  | requestCancel (process job : ℕ)
  | advance (process : ℕ)
  | abandon (process : ℕ)

namespace ChainState

variable (s : ChainState)

def putRow (j : ℕ) (row : JobRow) : ChainState :=
  { s with jobs := s.jobs.modify j fun job ↦ { job with row := row } }

def turn (p : ℕ) (task : GiTask) : ChainState :=
  { s with task := Function.update s.task p task }

/-- The handler ends; the rest is the runner's. -/
def leave (p : ℕ) (worker attempt : ℕ) (outcome : Outcome) : ChainState :=
  s.turn p { s.task p with
    process := (runHandler giHandler attempt outcome).process worker attempt
    begun := none
    sent := false }

def enqueueInvocation (past : PastExecutionData) (dueAt : ℕ) : ChainState :=
  { s with jobs := s.jobs ++ [⟨enqueueJob (some dueAt), some past⟩] }

def reloadPast : Option PastExecutionData → Except Failure (Option PastExecutionData)
  | none => .ok none
  | some past => past.reload.map some

/-- What the error handling wants for a failed call: the data and the time of the next one. -/
def followUp (modules : List ErrorHandlingModule) (error : RequestError)
    (past : Option PastExecutionData) (now clock : ℕ) :
    Except Failure (Option (PastExecutionData × ℕ) × String) := do
  let result ← handleError modules error past now
  match result.reschedule with
  | some d =>
    match d.reschedule, d.past with
    | true, some next =>
      return (some (next, d.executionTime.getD (clock + futureTaskTimeDiffDefault)),
        result.errorMessage)
    | _, _ => return (none, result.errorMessage)
  | none => return (none, result.errorMessage)

/-- The end of a failed call. A follow-up of a call that was not sent is committed with the
job's own mark, or not at all. -/
def failed (p j worker attempt : ℕ) (row : JobRow) (sent : Bool) :
    Except Failure (Option (PastExecutionData × ℕ) × String) → ChainState
  | .error _ => s.leave p worker attempt .crashed
  | .ok (none, message) => s.leave p worker attempt (.jobFailed message)
  | .ok (some (next, dueAt), _) =>
    if sent then
      (s.enqueueInvocation next dueAt).leave p worker attempt (.done (some "rescheduled"))
    else
      match checkpoint worker attempt s.clock checkpointRescheduled row with
      | (row, true) => ((s.putRow j row).enqueueInvocation next dueAt).leave p worker attempt
          (.done (some "rescheduled"))
      | (_, false) => s.leave p worker attempt .jobCancelled

/-- A step of the handler of a claimed job. -/
def handle (p : ℕ) (step : ℕ → ℕ → ℕ → GiJob → GiTask → Option ChainState) :
    Option ChainState :=
  match (s.task p).process with
  | .handling worker attempt =>
    (s.jobs[(s.task p).job]?).bind fun job ↦ step (s.task p).job worker attempt job (s.task p)
  | _ => none

/-- A step of a process that is free, on a job. -/
def take (p j : ℕ) (step : JobRow → Option ChainState) : Option ChainState :=
  match (s.task p).process with
  | .idle => (s.jobs[j]?).bind fun job ↦ step job.row
  | _ => none

def next : ChainAction → Option ChainState
  | .wait duration => some { s with clock := s.clock + duration }
  | .claim p j worker => s.take p j fun row ↦
    if row.dueAt.all (· ≤ s.clock) then
      match Jobs.claim worker s.clock row with
      | (row, true) => some ((s.putRow j row).turn p ⟨j, .handling worker row.attempts, none, false⟩)
      | (_, false) => some s
    else none
  | .heartbeat j worker => (s.jobs[j]?).map fun job ↦
    s.putRow j (Jobs.heartbeat worker s.clock job.row).1
  | .load p => s.handle p fun _ worker attempt job task ↦
    match reloadPast job.past with
    | .error _ => some (s.leave p worker attempt .crashed)
    | .ok past =>
      if task.begun.isNone then some (s.turn p { task with begun := some (s.clock, past) })
      else none
  | .beforeSend p => s.handle p fun j worker attempt job task ↦
    if task.begun.isSome && !task.sent then
      match checkpoint worker attempt s.clock checkpointSending job.row with
      | (row, true) => some { (s.putRow j row).turn p { task with sent := true } with
          sends := s.sends ++ [j] }
      | (_, false) => some (s.leave p worker attempt .jobCancelled)
    else none
  | .succeed p => s.handle p fun _ worker attempt _ task ↦
    if task.begun.isSome then some (s.leave p worker attempt (.done (some "ok"))) else none
  | .fail p modules error => s.handle p fun j worker attempt job task ↦
    task.begun.map fun (now, past) ↦
      s.failed p j worker attempt job.row task.sent (followUp modules error past now s.clock)
  | .finish p outcome => s.handle p fun _ worker attempt _ _ ↦
    match outcome with
    | .jobRetry _ _ => none
    | outcome => some (s.leave p worker attempt outcome)
  | .reap p j => s.take p j fun row ↦
    some (s.turn p ⟨j, interrupt (.stale (s.clock - staleAfterSeconds)) row, none, false⟩)
  | .shutdown p j worker => s.take p j fun row ↦
    some (s.turn p ⟨j, interrupt (.mine worker) row, none, false⟩)
  | .requestCancel p j => s.take p j fun row ↦
    some (s.turn p ⟨j, Jobs.requestCancel row, none, false⟩)
  | .advance p =>
    (s.jobs[(s.task p).job]?).bind fun job ↦
      (Jobs.advance giHandler s.clock job.row (s.task p).process).map fun after ↦
        (s.putRow (s.task p).job after.1).turn p { s.task p with process := after.2 }
  | .abandon p => some (s.turn p .idle)

end ChainState

/-- A call is queued; its handler fails, waits for the claim to be lost, or stops, at any step. -/
structure ChainStart (s : ChainState) : Prop where
  jobs : s.jobs = [⟨enqueueJob none, none⟩]
  task : ∀ p, s.task p = .idle
  sends : s.sends = []

def retryChain : Machine ChainState ChainAction := .ofNext ChainStart ChainState.next

/-- A row that cannot be claimed, and that has its mark if it runs. -/
structure Spent (row : JobRow) : Prop where
  taken : row.status ≠ .queued
  marked : row.status = .running → row.checkpoint ≠ none

/-- What a statement other than a claim and a checkpoint does to a row. -/
structure Moves (row row' : JobRow) : Prop where
  attempts : row'.attempts = row.attempts
  running : row'.status = .running → row.status = .running ∧ row'.checkpoint = row.checkpoint
  spent : Spent row → Spent row'
  queued : row'.status = .queued → row.status = .running ∨ row' = row

theorem Moves.refl (row : JobRow) : Moves row row :=
  ⟨rfl, fun h ↦ ⟨h, rfl⟩, id, fun _ ↦ .inr rfl⟩

theorem Moves.trans {a b c : JobRow} (h : Moves a b) (h' : Moves b c) : Moves a c where
  attempts := h'.attempts.trans h.attempts
  running hc := by
    obtain ⟨hb, hcp⟩ := h'.running hc
    obtain ⟨ha, hbp⟩ := h.running hb
    exact ⟨ha, hcp.trans hbp⟩
  spent ha := h'.spent (h.spent ha)
  queued hc := by
    rcases h'.queued hc with hb | rfl
    · exact .inl (h.running hb).1
    · exact h.queued hc

theorem Moves.of_changes {row row' : JobRow} (h : Changes giHandler (fun _ ↦ False) row row')
    (hc : row'.checkpoint = row.checkpoint) : Moves row row' := by
  cases h with
  | stays h =>
    subst h
    exact .refl _
  | runs h h' ha _ _ =>
    refine ⟨ha, fun _ ↦ ⟨h, hc⟩, fun hs ↦ ⟨?_, fun _ ↦ ?_⟩, fun _ ↦ .inl h⟩
    · rw [h']
      simp
    · rw [hc]
      exact hs.marked h
  | ends _ ht ha _ =>
    have hrun : row'.status ≠ .running := fun h ↦ by simp [h, JobStatus.terminal] at ht
    have hqueued : row'.status ≠ .queued := fun h ↦ by simp [h, JobStatus.terminal] at ht
    exact ⟨ha, fun h ↦ absurd h hrun, fun _ ↦ ⟨hqueued, fun h ↦ absurd h hrun⟩,
      fun h ↦ absurd h hqueued⟩
  | requeued h h' _ _ ha _ hc' =>
    refine ⟨ha, fun hr ↦ ?_, fun hs ↦ ?_, fun _ ↦ .inl h⟩
    · rw [h'] at hr
      cases hr
    · rcases hc' with hnone | hfalse
      · exact absurd hnone (hs.marked h)
      · exact hfalse.elim

theorem advance_checkpoint {now : ℕ} {row row' : JobRow} {p p' : Process}
    (h : Jobs.advance giHandler now row p = some (row', p'))
    (hp : p.Sound giHandler fun _ ↦ False) : row'.checkpoint = row.checkpoint := by
  have hupdate {row values : JobRow} {condition : Bool} (hv : values.checkpoint = row.checkpoint) :
      (row.update condition values).1.checkpoint = row.checkpoint :=
    JobRow.update_of (fun r ↦ r.checkpoint = row.checkpoint) (fun _ ↦ hv) rfl
  cases p with
  | idle => cases h
  | handling worker attempt => cases h
  | finishing worker attempt status error result =>
    cases h
    exact hupdate rfl
  | retrying worker attempt message delay => exact hp.1.elim
  | timedOut worker attempt =>
    cases h
    rfl
  | settling read =>
    have hrequeue : (settleRequeue now read row).1.checkpoint = row.checkpoint := hupdate rfl
    rw [Jobs.advance] at h
    split at h
    · split at h
      · next hset => cases h; rwa [hset] at hrequeue
      · next hset => cases h; rwa [hset] at hrequeue
    · cases h
      exact hupdate rfl
  | failing read =>
    cases h
    exact hupdate rfl
  | cancellingQueued =>
    have hcancel : (cancelQueued now row).1.checkpoint = row.checkpoint := hupdate rfl
    rw [Jobs.advance] at h
    split at h
    · next hset => cases h; rwa [hset] at hcancel
    · next hset => cases h; rwa [hset] at hcancel
  | cancellingRunning =>
    cases h
    exact hupdate rfl

theorem heartbeat_moves (worker now : ℕ) (row : JobRow) :
    Moves row (Jobs.heartbeat worker now row).1 := by
  refine .of_changes (heartbeat_changes worker now) ?_
  exact JobRow.update_of (fun r ↦ r.checkpoint = row.checkpoint) (fun _ ↦ rfl) rfl

/-- A process that handles no job, and may go on. -/
structure Settled (process : Process) : Prop where
  free : ∀ worker attempt, process ≠ .handling worker attempt
  sound : process.Sound giHandler fun _ ↦ False

theorem settled_idle : Settled .idle := ⟨nofun, trivial⟩

theorem settled_interrupt (condition : Condition) (row : JobRow) :
    Settled (interrupt condition row) := by
  refine ⟨fun worker attempt h ↦ ?_, sound_interrupt condition row _⟩
  rw [interrupt] at h
  split at h <;> cases h

theorem settled_requestCancel (row : JobRow) : Settled (Jobs.requestCancel row) := by
  refine ⟨fun worker attempt h ↦ ?_, sound_requestCancel row _⟩
  rw [Jobs.requestCancel] at h
  split at h
  · cases h
  · split at h <;> cases h

theorem settled_runHandler (worker attempt : ℕ) {outcome : Outcome}
    (h : outcome.events attempt = []) :
    Settled ((runHandler giHandler attempt outcome).process worker attempt) := by
  have hsound : ((runHandler giHandler attempt outcome).process worker attempt).Sound giHandler
      fun n ↦ .retried n ∈ [] ++ outcome.events attempt := sound_runHandler
  refine ⟨fun w a heq ↦ ?_, hsound.mono fun n hn ↦ ?_⟩
  · cases hv : runHandler giHandler attempt outcome with
    | finish status error result =>
      rw [hv] at heq
      cases heq
    | retry message delay =>
      rw [hv] at heq
      cases heq
    | timeout =>
      rw [hv] at heq
      cases heq
  · rw [h] at hn
    cases hn

theorem advance_settled {now : ℕ} {row row' : JobRow} {p p' : Process}
    (h : Jobs.advance giHandler now row p = some (row', p'))
    (hp : p.Sound giHandler fun _ ↦ False) : Moves row row' ∧ Settled p' := by
  obtain ⟨hchange, hsound⟩ := advance_changes h hp
  refine ⟨.of_changes hchange (advance_checkpoint h hp), fun worker attempt heq ↦ ?_, hsound⟩
  subst heq
  cases p with
  | settling read =>
    rw [Jobs.advance] at h
    split at h
    · split at h <;> cases h
    · cases h
  | cancellingQueued =>
    rw [Jobs.advance] at h
    split at h <;> cases h
  | _ => cases h

namespace ChainState

variable {s t u : ChainState}

@[simp] theorem turn_task_self (p : ℕ) (task : GiTask) : (s.turn p task).task p = task :=
  Function.update_self ..

theorem turn_task_of_ne {p q : ℕ} (task : GiTask) (h : q ≠ p) : (s.turn p task).task q = s.task q :=
  Function.update_of_ne h ..

theorem putRow_jobs_self {j : ℕ} {job : GiJob} (row : JobRow) (h : s.jobs[j]? = some job) :
    (s.putRow j row).jobs[j]? = some { job with row := row } := by
  simp [putRow, h]

theorem putRow_jobs_of_ne {i j : ℕ} (row : JobRow) (h : i ≠ j) :
    (s.putRow j row).jobs[i]? = s.jobs[i]? := by
  simp [putRow, Ne.symm h]

@[simp] theorem putRow_length (j : ℕ) (row : JobRow) :
    (s.putRow j row).jobs.length = s.jobs.length := List.length_modify ..

theorem putRow_self {j : ℕ} {job : GiJob} (h : s.jobs[j]? = some job) :
    s.putRow j job.row = s := by
  have hjobs : (s.putRow j job.row).jobs = s.jobs := by
    refine List.ext_getElem? fun i ↦ ?_
    by_cases hi : i = j
    · rw [hi, putRow_jobs_self _ h, h]
    · exact putRow_jobs_of_ne _ hi
  exact congrArg (fun jobs ↦ { s with jobs := jobs }) hjobs

/-- A step without a claim, a mark and a new job. -/
structure Quiet (s t : ChainState) : Prop where
  clock : s.clock ≤ t.clock
  sends : t.sends = s.sends
  length : t.jobs.length = s.jobs.length
  jobs : ∀ (j : ℕ) (b : GiJob), t.jobs[j]? = some b →
    ∃ a : GiJob, s.jobs[j]? = some a ∧ a.past = b.past ∧ Moves a.row b.row
  task : ∀ p, t.task p = s.task p ∨ Settled (t.task p).process

theorem Quiet.refl (s : ChainState) : Quiet s s :=
  ⟨le_rfl, rfl, rfl, fun _ a h ↦ ⟨a, h, rfl, .refl _⟩, fun _ ↦ .inl rfl⟩

theorem Quiet.trans (h : Quiet s t) (h' : Quiet t u) : Quiet s u where
  clock := h.clock.trans h'.clock
  sends := h'.sends.trans h.sends
  length := h'.length.trans h.length
  jobs j c hc := by
    obtain ⟨b, hb, hbc, hmove'⟩ := h'.jobs j c hc
    obtain ⟨a, ha, hab, hmove⟩ := h.jobs j b hb
    exact ⟨a, ha, hab.trans hbc, hmove.trans hmove'⟩
  task p := by
    rcases h'.task p with heq | hsettled
    · rw [heq]
      exact h.task p
    · exact .inr hsettled

theorem Quiet.turn (p : ℕ) {task : GiTask} (h : Settled task.process) : Quiet s (s.turn p task) where
  clock := le_rfl
  sends := rfl
  length := rfl
  jobs _ a ha := ⟨a, ha, rfl, .refl _⟩
  task q := by
    by_cases hq : q = p
    · subst hq
      rw [turn_task_self]
      exact .inr h
    · exact .inl (turn_task_of_ne task hq)

theorem Quiet.putRow {j : ℕ} {job : GiJob} {row : JobRow} (hjob : s.jobs[j]? = some job)
    (h : Moves job.row row) : Quiet s (s.putRow j row) where
  clock := le_rfl
  sends := rfl
  length := putRow_length j row
  jobs i b hb := by
    by_cases hi : i = j
    · subst hi
      rw [putRow_jobs_self row hjob] at hb
      cases hb
      exact ⟨job, hjob, rfl, h⟩
    · rw [putRow_jobs_of_ne row hi] at hb
      exact ⟨b, hb, rfl, .refl _⟩
  task _ := .inl rfl

theorem Quiet.leave (p worker attempt : ℕ) {outcome : Outcome} (h : outcome.events attempt = []) :
    Quiet s (s.leave p worker attempt outcome) :=
  .turn p (settled_runHandler worker attempt h)

/-- A process at work on a job. -/
structure Handles (s : ChainState) (p worker attempt : ℕ) (job : GiJob) : Prop where
  process : (s.task p).process = .handling worker attempt
  job : s.jobs[(s.task p).job]? = some job

/-- The row that a follow-up leaves: a call that was not sent gets its mark. -/
inductive Marked (s : ChainState) (p worker attempt : ℕ) (row : JobRow) : JobRow → Prop
  | sent (h : (s.task p).sent = true) : Marked s p worker attempt row row
  | unsent (h : (s.task p).sent = false) (hown : ownClaim worker attempt row = true) :
    Marked s p worker attempt row (checkpointValues s.clock checkpointRescheduled row)

/-- What a step does. -/
inductive Effect (s : ChainState) (a : ChainAction) (t : ChainState) : Prop
  | quiet (h : Quiet s t)
  | claims {p j worker : ℕ} {job : GiJob} (hjob : s.jobs[j]? = some job)
      (hdue : job.row.dueAt.all (· ≤ s.clock) = true) (hqueued : job.row.status = .queued)
      (ht : t = (s.putRow j (claimValues worker s.clock job.row)).turn p
        ⟨j, .handling worker (job.row.attempts + 1), none, false⟩)
  | loads {p worker attempt : ℕ} {job : GiJob} {past : Option PastExecutionData}
      (h : s.Handles p worker attempt job) (hload : reloadPast job.past = .ok past)
      (ht : t = s.turn p { s.task p with begun := some (s.clock, past) })
  | sends {p worker attempt : ℕ} {job : GiJob} (h : s.Handles p worker attempt job)
      (hown : ownClaim worker attempt job.row = true) (hsent : (s.task p).sent = false)
      (ht : t = { (s.putRow (s.task p).job
        (checkpointValues s.clock checkpointSending job.row)).turn p { s.task p with sent := true } with
        sends := s.sends ++ [(s.task p).job] })
  | follows {p worker attempt now dueAt : ℕ} {job : GiJob} {modules : List ErrorHandlingModule}
      {error : RequestError} {past : Option PastExecutionData} {next : PastExecutionData}
      {message : String} {row : JobRow}
      (ha : a = .fail p modules error) (h : s.Handles p worker attempt job)
      (hbegun : (s.task p).begun = some (now, past))
      (hfollow : followUp modules error past now s.clock = .ok (some (next, dueAt), message))
      (hrow : Marked s p worker attempt job.row row)
      (ht : t = ((s.putRow (s.task p).job row).enqueueInvocation next dueAt).leave p worker attempt
        (.done (some "rescheduled")))

theorem handle_eq_some {p : ℕ} {step : ℕ → ℕ → ℕ → GiJob → GiTask → Option ChainState}
    (h : s.handle p step = some t) : ∃ worker attempt job, s.Handles p worker attempt job ∧
      step (s.task p).job worker attempt job (s.task p) = some t := by
  rw [handle] at h
  split at h
  · rename_i worker attempt hp
    obtain ⟨job, hjob, h⟩ := Option.bind_eq_some_iff.1 h
    exact ⟨worker, attempt, job, ⟨hp, hjob⟩, h⟩
  · cases h

theorem take_eq_some {p j : ℕ} {step : JobRow → Option ChainState} (h : s.take p j step = some t) :
    ∃ job, s.jobs[j]? = some job ∧ step job.row = some t := by
  rw [take] at h
  split at h
  · exact Option.bind_eq_some_iff.1 h
  · cases h

theorem failed_effect {p worker attempt now : ℕ} {job : GiJob} {modules : List ErrorHandlingModule}
    {error : RequestError} {past : Option PastExecutionData}
    (h : s.Handles p worker attempt job) (hbegun : (s.task p).begun = some (now, past)) :
    Effect s (.fail p modules error) (s.failed p (s.task p).job worker attempt job.row
      (s.task p).sent (followUp modules error past now s.clock)) := by
  cases hfollow : followUp modules error past now s.clock with
  | error e => exact .quiet (.leave p worker attempt rfl)
  | ok result =>
    obtain ⟨_ | ⟨next, dueAt⟩, message⟩ := result
    · exact .quiet (.leave p worker attempt rfl)
    cases hsent : (s.task p).sent with
    | true =>
      refine .follows rfl h hbegun hfollow (.sent hsent) ?_
      rw [putRow_self h.job]
      rfl
    | false =>
      cases hmark : checkpoint worker attempt s.clock checkpointRescheduled job.row with
      | mk row hit =>
        obtain ⟨hown, hrow⟩ := JobRow.update_eq hmark
        cases hit with
        | true =>
          subst hrow
          refine .follows rfl h hbegun hfollow (.unsent hsent hown) ?_
          simp [failed, hmark]
        | false =>
          have hfailed : s.failed p (s.task p).job worker attempt job.row false
              (.ok (some (next, dueAt), message)) = s.leave p worker attempt .jobCancelled := by
            simp [failed, hmark]
          rw [hfailed]
          exact .quiet (.leave p worker attempt rfl)

theorem next_effect {a : ChainAction} (hs : ∀ p, (s.task p).process.Sound giHandler fun _ ↦ False)
    (h : s.next a = some t) : Effect s a t := by
  cases a with
  | wait duration =>
    cases h
    exact .quiet ⟨Nat.le_add_right .., rfl, rfl, (Quiet.refl s).jobs, fun _ ↦ .inl rfl⟩
  | claim p j worker =>
    rw [next] at h
    obtain ⟨job, hjob, h⟩ := take_eq_some h
    split at h
    · rename_i hdue
      split at h
      · rename_i row hclaim
        cases h
        obtain ⟨hqueued, rfl⟩ := JobRow.update_eq hclaim
        simp only [Bool.and_eq_true, decide_eq_true_eq] at hqueued
        exact .claims hjob hdue hqueued.1 rfl
      · cases h
        exact .quiet (.refl s)
    · cases h
  | heartbeat j worker =>
    obtain ⟨job, hjob, rfl⟩ := Option.map_eq_some_iff.1 h
    exact .quiet (.putRow hjob (heartbeat_moves worker s.clock job.row))
  | load p =>
    rw [next] at h
    obtain ⟨worker, attempt, job, hp, h⟩ := handle_eq_some h
    split at h
    · cases h
      exact .quiet (.leave p worker attempt rfl)
    · rename_i past hload
      split at h
      · cases h
        exact .loads hp hload rfl
      · cases h
  | beforeSend p =>
    rw [next] at h
    obtain ⟨worker, attempt, job, hp, h⟩ := handle_eq_some h
    simp only at h
    split at h
    · rename_i hsent
      simp only [Bool.and_eq_true, Bool.not_eq_true'] at hsent
      split at h
      · rename_i row hmark
        cases h
        obtain ⟨hown, rfl⟩ := JobRow.update_eq hmark
        exact .sends hp hown hsent.2 rfl
      · cases h
        exact .quiet (.leave p worker attempt rfl)
    · cases h
  | succeed p =>
    rw [next] at h
    obtain ⟨worker, attempt, job, hp, h⟩ := handle_eq_some h
    split at h
    · cases h
      exact .quiet (.leave p worker attempt rfl)
    · cases h
  | fail p modules error =>
    rw [next] at h
    obtain ⟨worker, attempt, job, hp, h⟩ := handle_eq_some h
    obtain ⟨⟨now, past⟩, hbegun, rfl⟩ := Option.map_eq_some_iff.1 h
    exact failed_effect hp hbegun
  | finish p outcome =>
    rw [next] at h
    obtain ⟨worker, attempt, job, hp, h⟩ := handle_eq_some h
    cases outcome with
    | jobRetry message delaySeconds => cases h
    | _ =>
      cases h
      exact .quiet (.leave p worker attempt rfl)
  | reap p j =>
    rw [next] at h
    obtain ⟨job, hjob, h⟩ := take_eq_some h
    cases h
    exact .quiet (.turn p (settled_interrupt _ _))
  | shutdown p j worker =>
    rw [next] at h
    obtain ⟨job, hjob, h⟩ := take_eq_some h
    cases h
    exact .quiet (.turn p (settled_interrupt _ _))
  | requestCancel p j =>
    rw [next] at h
    obtain ⟨job, hjob, h⟩ := take_eq_some h
    cases h
    exact .quiet (.turn p (settled_requestCancel _))
  | advance p =>
    obtain ⟨job, hjob, h⟩ := Option.bind_eq_some_iff.1 h
    obtain ⟨⟨row, process⟩, hadvance, rfl⟩ := Option.map_eq_some_iff.1 h
    obtain ⟨hmoves, hsettled⟩ := advance_settled hadvance (hs p)
    exact .quiet ((Quiet.putRow hjob hmoves).trans (.turn p hsettled))
  | abandon p =>
    cases h
    exact .quiet (.turn p settled_idle)

end ChainState

end Tiqora.Gi.RetryChain
