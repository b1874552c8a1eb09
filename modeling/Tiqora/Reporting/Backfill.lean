import Tiqora.Foundation.Machine
import Tiqora.Foundation.Sorting
import Mathlib.Algebra.Order.Ring.Int
import Mathlib.Data.List.Sort
import Mathlib.Logic.Function.Basic

namespace Tiqora.Reporting.Backfill

open Foundation

def factChunkSize : ℕ := 200

def snapshotWindowDays : ℕ := 31

inductive Status
  | pending
  | running
  | done
  deriving DecidableEq

/-- The columns of `tiqora_report_state` that a backfill reads or decides on. -/
structure StateRow where
  lastHistoryId : ℤ
  status : Status
  start : Option ℤ
  cursor : Option ℤ
  target : Option ℤ
  since : Option ℤ
  token : Option ℕ
  finishedAt : Option ℤ
  lastSnapshotDate : Option ℤ
  snapshotTimeZone : Option String

/-- `ReportBackfillPayload`, with the number of the day. -/
structure Payload where
  since : Option ℤ
  restart : Bool
  snapshots : Bool

/-- `_Run`. -/
structure Run where
  zone : String
  start : ℤ
  cursor : ℤ
  target : ℤ
  since : Option ℤ
  token : ℕ

/-- `_local_midnight_utc` and `_local_date` of the zones of the system. -/
structure Zones where
  localMidnightUtc : ℤ → String → ℤ
  localDate : ℤ → String → ℤ

/-- What a call does next: read the ids of a chunk, rebuild them, save the cursor; count the
tickets, plan the days, compute a window of them and save the cursor; finish. -/
inductive Phase
  | selecting
  | listed (ids : List ℤ)
  | rebuilt (ids : List ℤ)
  | counting
  | planning (tickets : ℕ)
  | snapshots (tickets : ℕ) (days : List ℤ)
  | snapped (tickets : ℕ) (days : List ℤ)
  | over (result : Option (ℕ × ℕ))
  deriving DecidableEq

/-- A call, with its own cursor, its first day and `yesterday`, and the days that it has
computed. -/
structure Call where
  run : Run
  wantsSnapshots : Bool
  cursor : ℤ
  phase : Phase
  firstDay : Option ℤ
  yesterday : Option ℤ
  computed : List ℤ

/-- The clock, the time zone of the reports, the state row, the tickets with their times, the
highest id of the history, the facts with their times, and the calls. Beside them stand the tickets
that are gone, the tokens in use so far, the number of the runs begun, the tickets that the last
of them saw at its begin, and the tickets rebuilt since. -/
structure State where
  now : ℤ
  zone : String
  row : StateRow
  tickets : List (ℤ × ℤ)
  history : ℤ
  facts : List (ℤ × ℤ)
  calls : ℕ → Option Call
  deleted : List ℤ
  tokens : List ℕ
  runs : ℕ
  begun : List ℤ
  rebuilt : List ℤ

/-- The calls, with the token that a call draws, and what else happens to what they read: the admin
who asks for a rebuild, and the tick, which writes daily snapshots of its own. -/
inductive Action
  | wait (seconds : ℕ)
  | setZone (zone : String)
  | insertTicket (id createTime : ℤ)
  | deleteTicket (id : ℤ)
  | writeHistory (id : ℤ)
  | requestRebuild
  | tickSnapshot (day : ℤ)
  | start (id : ℕ) (payload : Payload) (token : ℕ)
  | advance (id : ℕ)
  | cut (id : ℕ)

def StateRow.resumes (row : StateRow) (payload : Payload) : Bool :=
  !payload.restart && row.status = .running && row.cursor.isSome && row.start.isSome &&
    row.target.isSome && row.token.isSome

/-- `_save_cursor`; `none` is a `JobCancelled`. -/
def StateRow.saveCursor (row : StateRow) (run : Run) (cursor stamp : ℤ)
    (finish : Option (Option ℤ × String)) : Option StateRow :=
  if row.token ≠ some run.token ∨ row.status ≠ .running then none
  else
    let saved := { row with cursor := some (max cursor (row.cursor.getD 0)) }
    match finish with
    | none => some saved
    | some (none, _) => some { saved with status := .done, finishedAt := some stamp }
    | some (some day, zone) =>
      some { saved with
        status := .done
        finishedAt := some stamp
        lastSnapshotDate := some day
        snapshotTimeZone := some zone }

/-- The days from the first to the last. -/
def daysBetween (first last : ℤ) : List ℤ :=
  (List.range (last - first + 1).toNat).map fun i : ℕ ↦ first + i

namespace State

variable (zones : Zones) (s : State)

def ids : List ℤ := s.tickets.map (·.1)

def put (id : ℕ) (call : Call) : State := { s with calls := Function.update s.calls id (some call) }

/-- The first id of a new run, with `since` the lowest one created from that day on. -/
def firstId (payload : Payload) : Option ℤ :=
  match payload.since with
  | some day =>
    ((s.tickets.filter fun r ↦ zones.localMidnightUtc day s.zone ≤ r.2).map (·.1)).min?
  | none => s.ids.min?

/-- The row of a new run. -/
def newRun (payload : Payload) (token : ℕ) : StateRow :=
  let target := s.ids.max?.getD 0
  let start := match s.firstId zones payload with
    | some first => first - 1
    | none => target
  { s.row with
    lastHistoryId := if s.row.lastHistoryId = 0 then s.history else s.row.lastHistoryId
    status := .running
    start := some start
    cursor := some start
    target := some target
    since := payload.since
    token := some token
    finishedAt := none }

def takenOver (token : ℕ) : StateRow :=
  { s.row with
    lastHistoryId := if s.row.lastHistoryId = 0 then s.history else s.row.lastHistoryId
    token := some token }

def runOf (row : StateRow) (token : ℕ) : Run :=
  ⟨s.zone, row.start.getD 0, row.cursor.getD 0, row.target.getD 0, row.since, token⟩

def callOf (row : StateRow) (payload : Payload) (token : ℕ) : Call :=
  ⟨s.runOf row token, payload.snapshots, row.cursor.getD 0, .selecting, none, none, []⟩

/-- `_begin` and the call that goes on with its run. -/
def start (id : ℕ) (payload : Payload) (token : ℕ) : State :=
  if s.row.resumes payload then
    let row := s.takenOver token
    { s.put id (s.callOf row payload token) with row, tokens := token :: s.tokens }
  else
    let row := s.newRun zones payload token
    { s.put id (s.callOf row payload token) with
      row
      tokens := token :: s.tokens
      runs := s.runs + 1
      begun := s.ids
      rebuilt := [] }

/-- The ids of the next chunk. -/
def chunk (cursor target : ℤ) : List ℤ :=
  ((s.ids.filter fun id ↦ cursor < id ∧ id ≤ target).insertionSort (· ≤ ·)).take factChunkSize

def select (call : Call) : Phase :=
  if call.cursor < call.run.target then
    let ids := s.chunk call.cursor call.run.target
    if ids = [] then .counting else .listed ids
  else .counting

/-- `rebuild_and_commit` of the tickets of a chunk. -/
def rebuild (ids : List ℤ) : List (ℤ × ℤ) :=
  (s.facts.filter fun r ↦ r.1 ∉ ids) ++ s.tickets.filter fun r ↦ r.1 ∈ ids

def ticketCount (run : Run) : ℕ := s.ids.countP fun id ↦ run.start < id ∧ id ≤ run.target

/-- The call with the days that it has to compute. -/
def plan (call : Call) (tickets : ℕ) : Call :=
  if call.wantsSnapshots then
    let yesterday := zones.localDate s.now call.run.zone - 1
    let firstDay := match call.run.since with
      | some since => some since
      | none => (s.facts.map (·.2)).min?.map fun oldest ↦ zones.localDate oldest call.run.zone
    let days := match firstDay with
      | some first => daysBetween first yesterday
      | none => []
    { call with phase := .snapshots tickets days, firstDay, yesterday := some yesterday }
  else { call with phase := .snapshots tickets [] }

/-- A state write of the call: it goes on, or it ends if the run is no longer its own. -/
def save (id : ℕ) (call : Call) (cursor : ℤ) (finish : Option (Option ℤ × String))
    (next : Call) : State :=
  match s.row.saveCursor call.run cursor s.now finish with
  | some row => { s.put id next with row }
  | none => s.put id { call with phase := .over none }

def advance (id : ℕ) (call : Call) : Option State :=
  match call.phase with
  | .selecting => some (s.put id { call with phase := s.select call })
  | .listed ids =>
    some { s.put id { call with phase := .rebuilt ids } with
      facts := s.rebuild ids
      rebuilt := s.rebuilt ++ ids }
  | .rebuilt ids =>
    let cursor := ids.getLast?.getD call.cursor
    some (s.save id call cursor none { call with cursor, phase := .selecting })
  | .counting => some (s.put id { call with phase := .planning (s.ticketCount call.run) })
  | .planning tickets => some (s.put id (s.plan zones call tickets))
  | .snapshots tickets (day :: days) =>
    let window := (day :: days).take snapshotWindowDays
    some (s.put id { call with
      phase := .snapped tickets ((day :: days).drop snapshotWindowDays)
      computed := call.computed ++ window })
  | .snapped tickets days =>
    some (s.save id call call.cursor none { call with phase := .snapshots tickets days })
  | .snapshots tickets [] =>
    some (s.save id call call.run.target (some (call.yesterday, call.run.zone))
      { call with phase := .over (some (tickets, call.computed.length)) })
  | .over _ => none

def next : Action → Option State
  | .wait seconds => some { s with now := s.now + seconds }
  | .setZone zone => some { s with zone }
  | .insertTicket id createTime =>
    if id ∈ s.ids ∨ id ∈ s.deleted then none
    else some { s with tickets := s.tickets ++ [(id, createTime)] }
  | .deleteTicket id =>
    some { s with tickets := s.tickets.filter fun r ↦ r.1 ≠ id, deleted := id :: s.deleted }
  | .writeHistory id => some { s with history := max s.history id }
  | .requestRebuild => some { s with row := { s.row with status := .pending } }
  | .tickSnapshot day =>
    if s.row.status = .done then
      some { s with row := { s.row with
        lastSnapshotDate := some day
        snapshotTimeZone := some s.zone } }
    else none
  | .start id payload token =>
    if (s.calls id).isNone ∧ token ∉ s.tokens then some (s.start zones id payload token) else none
  | .advance id => (s.calls id).bind fun call ↦ s.advance zones id call
  | .cut id => (s.calls id).map fun call ↦ s.put id { call with phase := .over none }

end State

def Initial (s : State) : Prop :=
  s.calls = (fun _ ↦ none) ∧ (∀ token, s.row.token = some token → token ∈ s.tokens) ∧
    s.begun = [] ∧ s.rebuilt = []

def backfill (zones : Zones) : Machine State Action := .ofNext Initial (State.next zones)

end Tiqora.Reporting.Backfill
