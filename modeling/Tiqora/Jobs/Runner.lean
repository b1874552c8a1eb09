import Tiqora.Foundation.Machine
import Mathlib.Logic.Function.Basic

namespace Tiqora.Jobs

open Foundation

inductive JobStatus
  | queued | running | succeeded | failed | cancelled
  deriving DecidableEq

def JobStatus.terminal : JobStatus → Bool
  | .succeeded | .failed | .cancelled => true
  | .queued | .running => false

structure JobHandler where
  maxAttempts : ℕ
  requeueIfInterrupted : Bool

structure JobRow where
  status : JobStatus
  result : Option String
  error : Option String
  progressMessage : Option String
  cancelRequested : Bool
  workerId : Option ℕ
  startedAt : Option ℕ
  heartbeatAt : Option ℕ
  finishedAt : Option ℕ
  attempts : ℕ
  dueAt : Option ℕ
  checkpoint : Option String
  deriving DecidableEq

def staleAfterSeconds : ℕ := 180

def maxResultChars : ℕ := 1000000

def interruptedMessage : String :=
  "Die Aufgabe wurde unterbrochen, weil der Hintergrunddienst neu gestartet " ++
    "wurde. Bitte erneut starten."

def timeoutMessage : String := "Die Aufgabe hat zu lange gedauert und wurde abgebrochen."

def failedMessage : String :=
  "Die Aufgabe ist mit einem Fehler abgebrochen. Details stehen im Protokoll " ++
    "des Hintergrunddienstes."

def resultTooLargeMessage : String := "Das Ergebnis ist zu groß."

def clip (n : ℕ) (s : String) : String := String.ofList (s.toList.take n)

/-- A conditional update of the row: the row after it, and whether it was hit. -/
def JobRow.update (row : JobRow) (condition : Bool) (values : JobRow) : JobRow × Bool :=
  if condition then (values, true) else (row, false)

def enqueueJob (dueAt : Option ℕ) : JobRow where
  status := .queued
  result := none
  error := none
  progressMessage := none
  cancelRequested := false
  workerId := none
  startedAt := none
  heartbeatAt := none
  finishedAt := none
  attempts := 0
  dueAt := dueAt
  checkpoint := none

def requeueValues (dueAt : Option ℕ) (now : ℕ) (row : JobRow) : JobRow :=
  { row with
    status := if row.cancelRequested then .cancelled else .queued
    workerId := none
    startedAt := none
    heartbeatAt := none
    dueAt := dueAt
    finishedAt := if row.cancelRequested then some now else none }

def claimValues (worker now : ℕ) (row : JobRow) : JobRow :=
  { row with
    status := .running
    workerId := some worker
    startedAt := some now
    heartbeatAt := some now
    attempts := row.attempts + 1
    checkpoint := none
    dueAt := none }

def claim (worker now : ℕ) (row : JobRow) : JobRow × Bool :=
  row.update (row.status = .queued && !row.cancelRequested) (claimValues worker now row)

def heartbeat (worker now : ℕ) (row : JobRow) : JobRow × Bool :=
  row.update (row.status = .running && row.workerId = some worker)
    { row with heartbeatAt := some now }

def ownClaim (worker attempt : ℕ) (row : JobRow) : Bool :=
  row.status = .running && row.workerId = some worker && row.attempts = attempt

def checkpointValues (now : ℕ) (name : String) (row : JobRow) : JobRow :=
  { row with checkpoint := some (clip 50 name), heartbeatAt := some now }

def checkpoint (worker attempt now : ℕ) (name : String) (row : JobRow) : JobRow × Bool :=
  row.update (ownClaim worker attempt row) (checkpointValues now name row)

def finalize (worker attempt now : ℕ) (status : JobStatus) (error result : Option String)
    (row : JobRow) : JobRow × Bool :=
  row.update (ownClaim worker attempt row)
    { row with status := status, error := error, result := result, finishedAt := some now }

def requeueForRetry (worker attempt now : ℕ) (message : String) (delay : ℕ) (row : JobRow) :
    JobRow × Bool :=
  row.update (ownClaim worker attempt row)
    { requeueValues (some (now + delay)) now row with
      checkpoint := none
      progressMessage := if message = "" then none else some (clip 500 message) }

/-- The condition an interruption adds to its claim: not heartbeated since, or mine. -/
inductive Condition
  | stale (cutoff : ℕ)
  | mine (worker : ℕ)
  deriving DecidableEq

def Condition.holds (row : JobRow) : Condition → Bool
  | .stale cutoff =>
    match row.heartbeatAt.or row.startedAt with
    | some moment => moment < cutoff
    | none => false
  | .mine worker => row.workerId = some worker

inductive InterruptReason
  | restart | timeout
  deriving DecidableEq

/-- What was read of an interrupted row. -/
structure Interrupted where
  attempts : ℕ
  checkpoint : Option String
  condition : Condition
  interruptedBy : InterruptReason
  deriving DecidableEq

def Interrupted.claim (row : JobRow) (read : Interrupted) : Bool :=
  row.status = .running && row.attempts = read.attempts && read.condition.holds row

def Interrupted.mayRequeue (handler : JobHandler) (read : Interrupted) : Bool :=
  handler.requeueIfInterrupted && read.checkpoint.isNone && read.attempts < handler.maxAttempts

def Interrupted.message (read : Interrupted) : String :=
  match read.interruptedBy with
  | .timeout => timeoutMessage
  | .restart => interruptedMessage

def settleRequeue (now : ℕ) (read : Interrupted) (row : JobRow) : JobRow × Bool :=
  row.update (read.claim row && row.checkpoint.isNone) (requeueValues none now row)

def settleFail (now : ℕ) (read : Interrupted) (row : JobRow) : JobRow × Bool :=
  row.update (read.claim row)
    { row with status := .failed, error := some read.message, finishedAt := some now }

def cancelQueued (now : ℕ) (row : JobRow) : JobRow × Bool :=
  row.update (row.status = .queued) { row with status := .cancelled, finishedAt := some now }

def cancelRunning (row : JobRow) : JobRow × Bool :=
  row.update (row.status = .running) { row with cancelRequested := true }

/-- How a run of the handler ends. -/
inductive Outcome
  | payloadInvalid
  | done (out : Option String)
  | jobCancelled
  | jobRetry (message : String) (delaySeconds : ℕ)
  | jobFailed (message : String)
  | crashed
  | timeout

/-- What the runner does next about the run. -/
inductive Verdict
  | finish (status : JobStatus) (error result : Option String)
  | retry (message : String) (delay : ℕ)
  | timeout

def runHandler (handler : JobHandler) (attempt : ℕ) : Outcome → Verdict
  | .payloadInvalid => .finish .failed (some failedMessage) none
  | .done none => .finish .succeeded none none
  | .done (some encoded) =>
    if encoded.length > maxResultChars then .finish .failed (some resultTooLargeMessage) none
    else .finish .succeeded none (some encoded)
  | .jobCancelled => .finish .cancelled none none
  | .jobRetry message delaySeconds =>
    if attempt ≥ handler.maxAttempts then .finish .failed (some message) none
    else .retry message delaySeconds
  | .jobFailed message => .finish .failed (some message) none
  | .crashed => .finish .failed (some failedMessage) none
  | .timeout => .timeout

/-- One task of a runner, or one request, between two of its statements. -/
inductive Process
  | idle
  | handling (worker attempt : ℕ)
  | finishing (worker attempt : ℕ) (status : JobStatus) (error result : Option String)
  | retrying (worker attempt : ℕ) (message : String) (delay : ℕ)
  | timedOut (worker attempt : ℕ)
  | settling (read : Interrupted)
  | failing (read : Interrupted)
  | cancellingQueued
  | cancellingRunning

def Verdict.process (worker attempt : ℕ) : Verdict → Process
  | .finish status error result => .finishing worker attempt status error result
  | .retry message delay => .retrying worker attempt message delay
  | .timeout => .timedOut worker attempt

/-- What has happened to the job, oldest first. -/
inductive Event
  | claimed (attempt : ℕ)
  | checkpointed (attempt : ℕ)
  | retried (attempt : ℕ)
  deriving DecidableEq

structure JobState where
  clock : ℕ
  job : Option JobRow
  process : ℕ → Process
  log : List Event

inductive JobAction
  | wait (duration : ℕ)
  | enqueue (dueAt : Option ℕ)
  | claim (process worker : ℕ)
  | heartbeat (worker : ℕ)
  | checkpoint (process : ℕ) (name : String)
  | finish (process : ℕ) (outcome : Outcome)
  | reap (process : ℕ)
  | shutdown (process worker : ℕ)
  | requestCancel (process : ℕ)
  | advance (process : ℕ)
  | abandon (process : ℕ)

def JobState.put (s : JobState) (row : JobRow) : JobState := { s with job := some row }

def JobState.turn (s : JobState) (p : ℕ) (process : Process) : JobState :=
  { s with process := Function.update s.process p process }

def JobState.record (s : JobState) (events : List Event) : JobState :=
  { s with log := s.log ++ events }

def Outcome.events (attempt : ℕ) : Outcome → List Event
  | .jobRetry _ _ => [.retried attempt]
  | _ => []

/-- The checkpoint that `_settle_timeout` reads: none also when the claim is over. -/
def readCheckpoint (worker attempt : ℕ) (row : JobRow) : Option String :=
  if ownClaim worker attempt row then row.checkpoint else none

/-- The next statement of a process: the row it leaves, and what the process does then. -/
def advance (handler : JobHandler) (now : ℕ) (row : JobRow) : Process → Option (JobRow × Process)
  | .finishing worker attempt status error result =>
    some ((finalize worker attempt now status error result row).1, .idle)
  | .retrying worker attempt message delay =>
    some ((requeueForRetry worker attempt now message delay row).1, .idle)
  | .timedOut worker attempt =>
    some (row, .settling
      { attempts := attempt
        checkpoint := readCheckpoint worker attempt row
        condition := .mine worker
        interruptedBy := .timeout })
  | .settling read =>
    if read.mayRequeue handler then
      match settleRequeue now read row with
      | (row, true) => some (row, .idle)
      | (row, false) => some (row, .failing read)
    else some ((settleFail now read row).1, .idle)
  | .failing read => some ((settleFail now read row).1, .idle)
  | .cancellingQueued =>
    match cancelQueued now row with
    | (row, true) => some (row, .idle)
    | (row, false) => some (row, .cancellingRunning)
  | .cancellingRunning => some ((cancelRunning row).1, .idle)
  | .idle | .handling _ _ => none

/-- Reading the row for a settlement: nothing is settled unless it runs and the condition
holds. -/
def interrupt (condition : Condition) (row : JobRow) : Process :=
  if row.status = .running && condition.holds row then
    .settling
      { attempts := row.attempts
        checkpoint := row.checkpoint
        condition := condition
        interruptedBy := .restart }
  else .idle

def requestCancel (row : JobRow) : Process :=
  if row.status.terminal then .idle
  else if row.status = .queued then .cancellingQueued
  else .cancellingRunning

def JobState.next (handler : JobHandler) (s : JobState) : JobAction → Option JobState
  | .wait duration => some { s with clock := s.clock + duration }
  | .enqueue dueAt =>
    match s.job with
    | none => some (s.put (enqueueJob dueAt))
    | some _ => none
  | .claim p worker =>
    match s.job, s.process p with
    | some row, .idle =>
      match claim worker s.clock row with
      | (row, true) => some (((s.put row).turn p (.handling worker row.attempts)).record
          [.claimed row.attempts])
      | (_, false) => some s
    | _, _ => none
  | .heartbeat worker => s.job.map fun row ↦ s.put (heartbeat worker s.clock row).1
  | .checkpoint p name =>
    match s.job, s.process p with
    | some row, .handling worker attempt =>
      match checkpoint worker attempt s.clock name row with
      | (row, true) => some ((s.put row).record [.checkpointed attempt])
      | (_, false) => some s
    | _, _ => none
  | .finish p outcome =>
    match s.process p with
    | .handling worker attempt => some ((s.turn p
        ((runHandler handler attempt outcome).process worker attempt)).record
        (outcome.events attempt))
    | _ => none
  | .reap p =>
    match s.job, s.process p with
    | some row, .idle => some (s.turn p (interrupt (.stale (s.clock - staleAfterSeconds)) row))
    | _, _ => none
  | .shutdown p worker =>
    match s.job, s.process p with
    | some row, .idle => some (s.turn p (interrupt (.mine worker) row))
    | _, _ => none
  | .requestCancel p =>
    match s.job, s.process p with
    | some row, .idle => some (s.turn p (requestCancel row))
    | _, _ => none
  | .advance p =>
    match s.job with
    | some row => (advance handler s.clock row (s.process p)).map fun next ↦
        (s.put next.1).turn p next.2
    | none => none
  | .abandon p => some (s.turn p .idle)

structure JobStart (s : JobState) : Prop where
  job : s.job = none
  process : ∀ p, s.process p = .idle
  log : s.log = []

def jobMachine (handler : JobHandler) : Machine JobState JobAction :=
  .ofNext JobStart (JobState.next handler)

end Tiqora.Jobs
