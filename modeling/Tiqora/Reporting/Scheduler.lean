import Mathlib.Data.List.Sort
import Tiqora.Foundation.Machine
import Tiqora.Reporting.Recurrence

namespace Tiqora.Reporting.Scheduler

open Foundation Calendar Schedule

def tickLimit : ℕ := 50

def pausedLen : ℕ := 500

def failuresBeforePause : ℕ := 3

/-- A stored schedule. A recurrence that cannot be read is none. -/
structure ReportSchedule where
  recurrence : Option Recurrence
  timeZone : String
  active : Bool
  pausedReason : Option String
  nextRunAt : Option Datetime
  lastRunAt : Option Datetime
  lastStatus : Option String
  failureCount : ℕ
  version : ℕ

/-- A scheduled run. -/
structure ReportRun where
  id : ℕ
  scheduleId : ℕ
  dueAt : Datetime
  createdAt : Datetime
  finishedAt : Option Datetime
  jobId : ℕ

/-- The key of a delivery is the schedule and the minute that was due. Another delivery joins an
active job of its key. -/
structure DeliveryJob where
  runId : ℕ
  dedupeKey : ℕ × ℕ
  active : Bool

structure ReportScheduleUpdateIn where
  recurrence : Recurrence
  timeZone : String
  active : Bool
  version : ℕ

structure TickOut where
  due : ℕ
  enqueued : ℕ
  paused : ℕ
  errors : ℕ
  deriving DecidableEq

inductive Outcome
  | enqueued | paused | nothing | error

def TickOut.add (out : TickOut) : Outcome → TickOut
  | .enqueued => { out with enqueued := out.enqueued + 1 }
  | .paused => { out with paused := out.paused + 1 }
  | .nothing => out
  | .error => { out with errors := out.errors + 1 }

/-- A tick, a request or the end of a delivery between two of its transactions; `read` is the
schedule that it loaded. -/
inductive SchedulerTask
  | idle
  | ticking (stamp : Datetime) (dueRows : List (ℕ × Datetime)) (out : TickOut)
  | processing (stamp : Datetime) (id : ℕ) (due : Datetime) (read : ReportSchedule)
    (dueRows : List (ℕ × Datetime)) (out : TickOut)
  | updating (id : ℕ) (now : Datetime) (body : ReportScheduleUpdateIn)
  | saving (id : ℕ) (now : Datetime) (read : ReportSchedule) (body : ReportScheduleUpdateIn)
  | failing (run : ReportRun) (now : Datetime) (read : Option ReportSchedule) (reason : String)

structure SchedulerState where
  clock : Datetime
  schedules : List (Option ReportSchedule)
  runs : List ReportRun
  nextRunId : ℕ
  jobs : List DeliveryJob
  task : ℕ → SchedulerTask

inductive SchedulerAction
  | wait (moment : Datetime)
  | createSchedule (recurrence : Recurrence) (timeZone : String) (active : Bool)
  | updateSchedule (process id : ℕ) (body : ReportScheduleUpdateIn)
  | readUpdate (process : ℕ)
  | writeUpdate (process : ℕ)
  | deleteSchedule (id : ℕ)
  | touch (id : ℕ)
  | startTick (process : ℕ)
  | load (process : ℕ)
  | advance (process : ℕ)
  | fault (process : ℕ)
  | recordFailure (process : ℕ) (run : ReportRun) (reason : String)
  | writeFailure (process : ℕ)
  | finishRun (run : ReportRun) (status : String) (reset : Bool)
  | settleJob (job : ℕ)
  | purge (olderThan : Datetime)
  | abandon (process : ℕ)

/-- `replace(microsecond=0)`. -/
def wholeSeconds (moment : Datetime) : Datetime :=
  ⟨moment.1 - moment.1 % 1000000, (Nat.sub_le ..).trans_lt moment.2⟩

def dedupeKey (id : ℕ) (due : Datetime) : ℕ × ℕ := (id, due.1 / 60000000)

/-- `_next_run`; none when it raises. -/
def nextRun (zones : String → Option Zone) (recurrence : Recurrence) (timeZone : String)
    (active : Bool) (now : Datetime) : Option (Option Datetime) :=
  if active then
    (zones timeZone).bind fun zone ↦ (nextOccurrence recurrence zone now).toOption.map some
  else some none

/-- The next run of a save: it is planned anew when something of the plan changes. -/
def ReportScheduleUpdateIn.nextRunAt (zones : String → Option Zone) (body : ReportScheduleUpdateIn)
    (read : ReportSchedule) (now : Datetime) : Option (Option Datetime) :=
  if read.recurrence.map (·.toFields) ≠ some body.recurrence.toFields ∨
      read.timeZone ≠ body.timeZone ∨ read.active ≠ body.active ∨ read.nextRunAt = none then
    nextRun zones body.recurrence body.timeZone body.active now
  else some read.nextRunAt

def ReportSchedule.update (row : ReportSchedule) (body : ReportScheduleUpdateIn)
    (next : Option Datetime) : ReportSchedule :=
  { row with
    recurrence := some body.recurrence
    timeZone := body.timeZone
    active := body.active
    nextRunAt := next
    version := row.version + 1
    failureCount := if body.active then 0 else row.failureCount
    pausedReason := if body.active then none else row.pausedReason }

def ReportSchedule.pause (row : ReportSchedule) (reason : String) : ReportSchedule :=
  { row with
    active := false
    nextRunAt := none
    pausedReason := some (String.ofList (reason.toList.take pausedLen)) }

/-- An attribute of a loaded row is written where it is not the value that was read. -/
def written {α : Type} [DecidableEq α] (row read value : α) : α := if read = value then row else value

/-- A counted failure of a run; after too many in a row the schedule is paused for a reason. -/
def ReportSchedule.fail (row read : ReportSchedule) (now : Datetime) (reason : String) :
    ReportSchedule :=
  let row := { row with
    failureCount := read.failureCount + 1
    lastStatus := written row.lastStatus read.lastStatus (some "failed")
    lastRunAt := written row.lastRunAt read.lastRunAt (some now) }
  if failuresBeforePause ≤ read.failureCount + 1 ∧ read.active then
    { row with
      active := written row.active read.active false
      nextRunAt := written row.nextRunAt read.nextRunAt none
      pausedReason := written row.pausedReason read.pausedReason (some reason) }
  else row

namespace SchedulerState

variable (zones : String → Option Zone) (s : SchedulerState)

def schedule (id : ℕ) : Option ReportSchedule := s.schedules[id]?.join

def put (id : ℕ) (row : ReportSchedule) : SchedulerState :=
  { s with schedules := s.schedules.set id (some row) }

def turn (p : ℕ) (task : SchedulerTask) : SchedulerState :=
  { s with task := Function.update s.task p task }

/-- The end of a run in its table. -/
def endRun (run : ℕ) (now : Datetime) : SchedulerState :=
  { s with runs := s.runs.map fun r ↦ if r.id = run then { r with finishedAt := some now } else r }

/-- The due schedules of a tick, the oldest first. -/
def dueRows (stamp : Datetime) : List (ℕ × Datetime) :=
  let due := s.schedules.zipIdx.filterMap fun (row, id) ↦
    row.bind fun row ↦ row.nextRunAt.bind fun due ↦
      if row.active ∧ due ≤ stamp then some (id, due) else none
  (due.insertionSort fun a b ↦ a.2 < b.2 ∨ a.2 = b.2 ∧ a.1 ≤ b.1).take tickLimit

/-- The condition of the updates of a tick. -/
def dueRow (id : ℕ) (due : Datetime) : Option ReportSchedule :=
  (s.schedule id).filter fun row ↦ row.nextRunAt = some due && row.active

def pauseBroken (id : ℕ) (due : Datetime) (why : String) : SchedulerState × Outcome :=
  match s.dueRow id due with
  | some row => (s.put id (row.pause ("Zeitplan ungültig: " ++ why)), .paused)
  | none => (s, .nothing)

/-- The advance of a schedule, with the run and its job. An active job of the key undoes it. -/
def enqueue (id : ℕ) (due stamp next : Datetime) : SchedulerState × Outcome :=
  match s.dueRow id due with
  | some row =>
    if s.jobs.any fun job ↦ job.dedupeKey = dedupeKey id due && job.active then (s, .nothing)
    else
      ({ s.put id { row with nextRunAt := some next } with
        runs := s.runs ++ [⟨s.nextRunId, id, due, stamp, none, s.jobs.length⟩]
        nextRunId := s.nextRunId + 1
        jobs := s.jobs ++ [⟨s.nextRunId, dedupeKey id due, true⟩] }, .enqueued)
  | none => (s, .nothing)

/-- `_process` after the schedule was loaded. -/
def process (stamp : Datetime) (id : ℕ) (due : Datetime) (read : ReportSchedule) :
    SchedulerState × Outcome :=
  match read.recurrence with
  | none => s.pauseBroken id due "Die Wiederholung kann nicht mehr gelesen werden."
  | some recurrence =>
    match zones read.timeZone with
    | none => s.pauseBroken id due s!"'No time zone found with key {read.timeZone}'"
    | some zone =>
      match nextOccurrence recurrence zone (max stamp due) with
      | .error .notFound =>
        s.pauseBroken id due "Kein Termin innerhalb des Suchzeitraums gefunden."
      | .error .overflow => (s, .error)
      | .ok next => s.enqueue id due stamp (wholeSeconds next)

def next : SchedulerAction → Option SchedulerState
  | .wait moment => if s.clock ≤ moment then some { s with clock := moment } else none
  | .createSchedule recurrence timeZone active =>
    (nextRun zones recurrence timeZone active s.clock).map fun next ↦
      { s with schedules := s.schedules ++
        [some ⟨some recurrence, timeZone, active, none, next, none, none, 0, 1⟩] }
  | .updateSchedule p id body =>
    match s.task p with
    | .idle => some (s.turn p (.updating id s.clock body))
    | _ => none
  | .readUpdate p =>
    match s.task p with
    | .updating id now body =>
      match s.schedule id with
      | some read =>
        if body.version = read.version then some (s.turn p (.saving id now read body))
        else some (s.turn p .idle)
      | none => some (s.turn p .idle)
    | _ => none
  | .writeUpdate p =>
    match s.task p with
    | .saving id now read body =>
      match body.nextRunAt zones read now, s.schedule id with
      | some next, some row =>
        if row.version = body.version then some ((s.put id (row.update body next)).turn p .idle)
        else some (s.turn p .idle)
      | _, _ => some (s.turn p .idle)
    | _ => none
  | .deleteSchedule id => some { s with schedules := s.schedules.set id none }
  | .touch id =>
    (s.schedule id).map fun row ↦ s.put id { row with version := row.version + 1 }
  | .startTick p =>
    match s.task p with
    | .idle =>
      let rows := s.dueRows (wholeSeconds s.clock)
      some (s.turn p (.ticking (wholeSeconds s.clock) rows ⟨rows.length, 0, 0, 0⟩))
    | _ => none
  | .load p =>
    match s.task p with
    | .ticking stamp ((id, due) :: rows) out =>
      match s.dueRow id due with
      | some read => some (s.turn p (.processing stamp id due read rows out))
      | none => some (s.turn p (.ticking stamp rows out))
    | .ticking _ [] _ => some (s.turn p .idle)
    | _ => none
  | .advance p =>
    match s.task p with
    | .processing stamp id due read rows out =>
      let (t, outcome) := s.process zones stamp id due read
      some (t.turn p (.ticking stamp rows (out.add outcome)))
    | _ => none
  | .fault p =>
    match s.task p with
    | .processing stamp _ _ _ rows out => some (s.turn p (.ticking stamp rows (out.add .error)))
    | _ => none
  | .recordFailure p run reason =>
    match s.task p with
    | .idle => some (s.turn p (.failing run s.clock (s.schedule run.scheduleId) reason))
    | _ => none
  | .writeFailure p =>
    match s.task p with
    | .failing run now (some read) reason =>
      match s.schedule run.scheduleId with
      | some row =>
        some (((s.endRun run.id now).put run.scheduleId (row.fail read now reason)).turn p .idle)
      | none => some (s.turn p .idle)
    | .failing run now none _ => some ((s.endRun run.id now).turn p .idle)
    | _ => none
  | .finishRun run status reset =>
    match s.schedule run.scheduleId with
    | some row => some ((s.endRun run.id s.clock).put run.scheduleId
        { row with
          lastStatus := some status
          lastRunAt := some s.clock
          failureCount := if reset then 0 else row.failureCount })
    | none => some (s.endRun run.id s.clock)
  | .settleJob j => some { s with jobs := s.jobs.modify j fun job ↦ { job with active := false } }
  | .purge olderThan => some { s with
      runs := s.runs.filter fun run ↦
        !(run.finishedAt.any (· < olderThan) || run.finishedAt.isNone && run.createdAt < olderThan) }
  | .abandon p => some (s.turn p .idle)

end SchedulerState

structure SchedulerStart (s : SchedulerState) : Prop where
  schedules : s.schedules = []
  runs : s.runs = []
  jobs : s.jobs = []
  task : ∀ p, s.task p = .idle

/-- Ticks, saves and ends of deliveries, one transaction at a time in any order. -/
def scheduler (zones : String → Option Zone) : Machine SchedulerState SchedulerAction :=
  .ofNext SchedulerStart (SchedulerState.next zones)

end Tiqora.Reporting.Scheduler
