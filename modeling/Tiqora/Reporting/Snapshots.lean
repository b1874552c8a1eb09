import Tiqora.Foundation.Tables
import Tiqora.Reporting.HistoryEvents

namespace Tiqora.Reporting.Snapshots

open Foundation HistoryEvents

abbrev Text := List Char

/-- The age buckets and their upper bounds in days. -/
def ageBuckets : List (String × Option ℤ) :=
  [("age_0_1d", some 1), ("age_1_3d", some 3), ("age_3_7d", some 7), ("age_7_30d", some 30),
    ("age_30d_plus", none)]

def openStateTypes : List Text :=
  ["new".toList, "open".toList, "pending reminder".toList, "pending auto".toList]

def unknownStateType : Text := "unknown".toList

/-- The place of a kind among the kinds that a snapshot reads. -/
def kindOrder : EventKind → Option ℕ
  | .create => some 0
  | .queue => some 1
  | .state => some 2
  | .priority => some 3
  | _ => none

/-- Where a ticket is counted. -/
structure Stock where
  queueId : ℤ
  stateType : Text
  priorityId : ℤ
  deriving DecidableEq

structure Segment extends Stock where
  start : ℤ
  stop : Option ℤ

/-- `value or UNKNOWN_STATE_TYPE`. -/
def orUnknown (value : Option Text) : Text :=
  match value with
  | none | some [] => unknownStateType
  | some value => value

structure Ticket where
  createdAt : ℤ
  events : List EventRow
  defaultPriority : ℤ

namespace Ticket

variable (t : Ticket)

/-- The events that matter, by their time. -/
def relevant : List EventRow :=
  (t.events.filter fun e ↦ (kindOrder e.kind).isSome).mergeSort fun e e' ↦
    toLex (e.occurredAt, toLex (e.historyId.getD 0, (kindOrder e.kind).getD 0)) ≤
      toLex (e'.occurredAt, toLex (e'.historyId.getD 0, (kindOrder e'.kind).getD 0))

def changes : List EventRow := t.relevant.filter fun e ↦ e.kind ≠ .create

/-- What a ticket starts with; the priority is the one that the first change of it left. -/
def initial : Stock :=
  let create := t.relevant.find? fun e ↦ e.kind = .create
  let queueId := match create with
    | some e => e.toId.getD e.queueId
    | none => (t.changes.head?.map EventRow.queueId).getD 0
  let firstPrio := t.changes.find? fun e ↦ e.kind = .priority
  { queueId
    stateType := orUnknown (create.bind EventRow.toValue)
    priorityId := (firstPrio.bind EventRow.fromId).getD t.defaultPriority }

end Ticket

def Stock.after (stock : Stock) (e : EventRow) : Stock :=
  match e.kind with
  | .queue => { stock with queueId := e.toId.getD stock.queueId }
  | .state => { stock with stateType := orUnknown e.toValue }
  | .priority => { stock with priorityId := e.toId.getD stock.priorityId }
  | _ => stock

def segmentsFrom (start : ℤ) (stock : Stock) : List EventRow → List Segment
  | [] => [{ stock with start, stop := none }]
  | e :: es =>
    { stock with start, stop := some (max e.occurredAt start) } ::
      segmentsFrom (max e.occurredAt start) (stock.after e) es

/-- Contiguous segments, of which the last one is open. -/
def ticketTimeline (t : Ticket) : List Segment := segmentsFrom t.createdAt t.initial t.changes

def bucket (age : ℤ) : ℕ :=
  (ageBuckets.findIdx? fun b ↦ b.2.all fun upper ↦ age < upper * 86400).getD (ageBuckets.length - 1)

abbrev SnapshotKey := ℤ × Stock

/-- The rows of the snapshot table: the number of open tickets, then one for each bucket. -/
abbrev Counts := Table SnapshotKey (List ℕ)

def zeros : List ℕ := List.replicate (1 + ageBuckets.length) 0

/-- `bisect_right` of a sorted list. -/
def bisectRight (instants : List ℤ) (x : ℤ) : ℕ := (instants.filter (· ≤ x)).length

/-- The rows and buckets that count a ticket, day by day. -/
def ticketHits (ordered : List (ℤ × ℤ)) (t : Ticket) : List (SnapshotKey × ℕ) :=
  let instants := ordered.map Prod.snd
  ((ticketTimeline t).filter fun seg ↦ seg.stateType ∈ openStateTypes).flatMap fun seg ↦
    let lo := bisectRight instants seg.start
    let hi := match seg.stop with
      | none => instants.length
      | some stop => bisectRight instants stop
    ((ordered.take hi).drop lo).map fun (day, stop) ↦
      ((day, seg.toStock), bucket (stop - t.createdAt))

def countHit (counts : Counts) (hit : SnapshotKey × ℕ) : Counts :=
  let row := (counts.find hit.1).getD zeros
  counts.set hit.1 (some ((row.modify 0 (· + 1)).modify (1 + hit.2) (· + 1)))

/-- The end of each day: `dayEnd` is the local midnight after it. -/
def dayEndInstants (dayEnd : ℤ → ℤ) (days : List ℤ) : Table ℤ ℤ where
  rows := days.dedup.map fun day ↦ (day, dayEnd day)
  keyed := List.pairwise_map.2 (List.nodup_dedup days)

def computeSnapshotCounts (tickets : List Ticket) (ends : Table ℤ ℤ) : Counts :=
  let ordered := ends.rows.mergeSort fun x y ↦ x.2 ≤ y.2
  (tickets.flatMap (ticketHits ordered)).foldl countHit Table.empty

/-- What the snapshots read of a fact. -/
structure Fact where
  createdAt : ℤ
  stateType : Text
  priorityId : ℤ
  lastEventAt : ℤ

/-- The facts and the events in the order of their ids. -/
structure Store where
  facts : Table ℤ Fact
  events : List EventRow

namespace Store

def ticket (store : Store) (row : ℤ × Fact) : Ticket where
  createdAt := row.2.createdAt
  events := store.events.filter fun e ↦ e.ticketId = row.1 && (kindOrder e.kind).isSome
  defaultPriority := row.2.priorityId

def candidates (store : Store) (windowStart lastEnd : ℤ) : List (ℤ × Fact) :=
  (store.facts.rows.filter fun r ↦ r.2.createdAt < lastEnd &&
    (r.2.stateType ∈ openStateTypes || windowStart ≤ r.2.lastEventAt)).mergeSort fun r r' ↦
      r.1 ≤ r'.1

end Store

def candidateChunk : ℕ := 500

def addPart (counts part : Counts) : Counts :=
  part.rows.foldl (fun counts row ↦ counts.set row.1
    (some (List.zipWith (· + ·) ((counts.find row.1).getD zeros) row.2))) counts

/-- The rows of the days are replaced; none if two new rows have one key. -/
def writeSnapshots (table : Counts) (days : List ℤ) (counts : Counts) : Option Counts :=
  (table.delete fun r ↦ r.1.1 ∈ days).insert (counts.rows.filter fun r ↦ r.1.1 ∈ days)

def snapshotDays (dayEnd : ℤ → ℤ) (store : Store) (table : Counts) (days : List ℤ) :
    Option Counts :=
  match sortedSet days with
  | [] => some table
  | first :: rest =>
    let days := first :: rest
    let ends := dayEndInstants dayEnd days
    let windowStart := dayEnd (first - 1)
    let lastEnd := dayEnd (days.getLast (List.cons_ne_nil _ _))
    let parts := (chunks candidateChunk (store.candidates windowStart lastEnd)).map fun chunk ↦
      computeSnapshotCounts (chunk.map store.ticket) ends
    writeSnapshots table days (parts.foldl addPart Table.empty)

end Tiqora.Reporting.Snapshots
