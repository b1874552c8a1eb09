import Tiqora.Foundation.Machine
import Mathlib.Data.List.Dedup
import Mathlib.Data.List.Sort

namespace Tiqora.Reporting

open Foundation

structure HistoryRow where
  id : ℕ
  ticketId : ℕ
  deriving DecidableEq

def HistoryRow.Before (row row' : HistoryRow) : Prop := row.id ≤ row'.id

instance (row row' : HistoryRow) : Decidable (row.Before row') :=
  inferInstanceAs (Decidable (_ ≤ _))

/-- Missing ids below the watermark, each with the time it was noticed. -/
abbrev Gaps := List (ℕ × ℕ)

/-- The ids the server hands out: `auto_increment_increment` and its offset. -/
structure IdSequence where
  step : ℕ
  offset : ℕ
  pos : 0 < step

def IdSequence.Expects (ids : IdSequence) (id : ℕ) : Prop := id % ids.step = ids.offset % ids.step

instance (ids : IdSequence) (id : ℕ) : Decidable (ids.Expects id) :=
  inferInstanceAs (Decidable (_ = _))

def historyBatch : ℕ := 5000

def maxBatchesPerTick : ℕ := 10

def gapTtlSeconds : ℕ := 600

def maxGaps : ℕ := 5000

def Gaps.ids (gaps : Gaps) : List ℕ := gaps.map (·.1)

def Gaps.setDefault (seenAt : ℕ) (gaps : Gaps) (id : ℕ) : Gaps :=
  if id ∈ gaps.ids then gaps else gaps ++ [(id, seenAt)]

def dumpGaps (gaps : Gaps) : Gaps := gaps.insertionSort fun g g' ↦ g.1 ≤ g'.1

def rowsByIds (history : List HistoryRow) (ids : List ℕ) : List HistoryRow :=
  history.filter fun row ↦ row.id ∈ ids

def rowsAbove (history : List HistoryRow) (watermark : ℕ) : List HistoryRow :=
  (history.filter fun row ↦ watermark < row.id).take historyBatch

/-- The walk of `_missing_ids` down from an expected id; `budget` is what `MAX_GAPS` leaves, and
`fuel` bounds the number of ids below. -/
def missingFrom (ids : IdSequence) (oldWatermark : ℕ) (returned : List ℕ) :
    ℕ → ℕ → ℕ → List ℕ
  | 0, _, _ => []
  | _ + 1, 0, _ => []
  | fuel + 1, budget + 1, id =>
    if oldWatermark < id then
      if id ∈ returned then
        missingFrom ids oldWatermark returned fuel (budget + 1) (id - ids.step)
      else id :: missingFrom ids oldWatermark returned fuel budget (id - ids.step)
    else []

/-- The highest expected id not above `batchMax`. -/
def alignedMax (ids : IdSequence) (batchMax : ℕ) : ℕ :=
  ((batchMax : ℤ) - ((batchMax : ℤ) - ids.offset) % ids.step).toNat

def missingIds (ids : IdSequence) (oldWatermark batchMax : ℕ) (returned : List ℕ) : List ℕ :=
  missingFrom ids oldWatermark returned (batchMax + 1) maxGaps (alignedMax ids batchMax)

def dropExpired (now : ℕ) (gaps : Gaps) : Gaps :=
  gaps.filter fun g ↦ ¬(g.2 + gapTtlSeconds < now)

/-- The oldest gaps go when there are too many. -/
def evictGaps (gaps : Gaps) : Gaps :=
  if maxGaps < gaps.length then
    (gaps.insertionSort fun g g' ↦ g.2 < g'.2 ∨ g.2 = g'.2 ∧ g.1 ≤ g'.1).drop
      (gaps.length - maxGaps)
  else gaps

/-- What one batch of `_follow_history` holds. -/
structure Batch where
  number : ℕ
  watermark : ℕ
  gaps : Gaps
  gapRows : List HistoryRow
  rows : List HistoryRow

def Batch.read (b : Batch) : List HistoryRow := b.gapRows ++ b.rows

def Batch.touched (b : Batch) : List ℕ := (b.read.map (·.ticketId)).dedup

def Batch.readGaps (b : Batch) (history : List HistoryRow) : Batch :=
  { b with gapRows := if b.number = 0 then rowsByIds history b.gaps.ids else [] }

def Batch.readRows (b : Batch) (history : List HistoryRow) : Batch :=
  { b with rows := rowsAbove history b.watermark }

def Batch.popped (b : Batch) : Gaps := b.gaps.filter fun g ↦ g.1 ∉ b.gapRows.map (·.id)

def Batch.note (ids : IdSequence) (seenAt : ℕ) (b : Batch) : Batch :=
  match b.rows.getLast? with
  | none => { b with gaps := b.popped }
  | some last =>
    { b with
      gaps := (missingIds ids b.watermark last.id (b.rows.map (·.id))).foldl
        (Gaps.setDefault seenAt) b.popped
      watermark := last.id }

def Batch.trim (now : ℕ) (b : Batch) : Batch :=
  { b with gaps := evictGaps (dropExpired now b.gaps) }

def Batch.complete (b : Batch) : Bool := b.rows.length < historyBatch

def Batch.next (b : Batch) : Batch where
  number := b.number + 1
  watermark := b.watermark
  gaps := b.gaps
  gapRows := []
  rows := []

/-- The tick between two of its statements. -/
inductive Tick
  | idle
  | begun (b : Batch)
  | gapsRead (b : Batch)
  | rowsRead (b : Batch)
  | noted (b : Batch)
  | trimmed (b : Batch)
  | rebuilt (b : Batch) (failed : List ℕ)
  | marked (b : Batch)
  | done (complete : Bool)

structure Progress where
  lastHistoryId : ℕ
  gapIds : Gaps

def saveProgress (saved : Progress) (b : Batch) : Progress where
  lastHistoryId := max saved.lastHistoryId b.watermark
  gapIds := dumpGaps b.gaps

/-- The history table with the inserts under way, the saved progress, the tick; and what a reader
of the run keeps: `old` rows were there at the first tick, `saw` is when a tick first saw a higher
id, `picked` rows have had their ticket rebuilt or marked dirty, and of the last tick `opening`
are the rows it found, `before` those picked by then, `handled` its tickets. -/
structure FollowerState where
  clock : ℕ
  lastId : ℕ
  pending : List HistoryRow
  history : List HistoryRow
  saved : Progress
  tick : Tick
  started : Bool
  old : List HistoryRow
  saw : ℕ → Option ℕ
  picked : List HistoryRow
  opening : List HistoryRow
  before : List HistoryRow
  handled : List ℕ

inductive FollowerAction
  | wait (duration : ℕ)
  | allocate (row : HistoryRow)
  | commit (row : HistoryRow)
  | rollback (row : HistoryRow)
  | start
  | advance
  | rebuild (failed : List ℕ)
  | finish
  | crash

def insertRow (row : HistoryRow) (history : List HistoryRow) : List HistoryRow :=
  history.orderedInsert HistoryRow.Before row

def maxHistoryId (history : List HistoryRow) : ℕ := (history.map (·.id)).foldr max 0

def FollowerState.sees (s : FollowerState) (bound : ℕ) (id : ℕ) : Option ℕ :=
  if id < bound then (s.saw id).or (some s.clock) else s.saw id

def FollowerState.initialise (s : FollowerState) : FollowerState :=
  if s.saved.lastHistoryId = 0 then
    { s with
      saved := { s.saved with lastHistoryId := maxHistoryId s.history }
      saw := s.sees (maxHistoryId s.history) }
  else s

def FollowerState.begin (s : FollowerState) : FollowerState :=
  { s with
    started := true
    opening := s.history
    before := s.picked
    handled := []
    tick := .begun
      { number := 0
        watermark := s.saved.lastHistoryId
        gaps := s.saved.gapIds
        gapRows := []
        rows := [] } }

/-- The tickets of a batch are rebuilt or marked dirty. -/
def FollowerState.pick (s : FollowerState) (b : Batch) (tickets : List ℕ) (tick : Tick) :
    FollowerState :=
  { s with
    picked := s.picked ++ b.read.filter (fun row ↦ row.ticketId ∈ tickets)
    handled := s.handled ++ tickets
    tick := tick }

/-- The loop goes on after a full batch, up to `MAX_BATCHES_PER_TICK` batches. -/
def Batch.after (b : Batch) : Tick :=
  if b.complete || b.number + 1 = maxBatchesPerTick then .done b.complete else .begun b.next

def FollowerState.save (s : FollowerState) (b : Batch) : FollowerState :=
  { s with
    saved := saveProgress s.saved b
    tick := b.after }

/-- The next statement of the tick, the rebuild apart. -/
def FollowerState.advance (ids : IdSequence) (s : FollowerState) : Option FollowerState :=
  match s.tick with
  | .begun b => some { s with tick := .gapsRead (b.readGaps s.history) }
  | .gapsRead b => some
    { s with
      tick := .rowsRead (b.readRows s.history)
      saw := s.sees (maxHistoryId (rowsAbove s.history b.watermark)) }
  | .rowsRead b => some { s with tick := .noted (b.note ids s.clock) }
  | .noted b => some { s with tick := .trimmed (b.trim s.clock) }
  | .rebuilt b failed => some (s.pick b failed (.marked b))
  | .marked b => some (s.save b)
  | .idle | .trimmed _ | .done _ => none

def FollowerState.next (ids : IdSequence) (s : FollowerState) :
    FollowerAction → Option FollowerState
  | .wait duration => some { s with clock := s.clock + duration }
  | .allocate row =>
    if s.lastId < row.id ∧ ids.Expects row.id then
      some { s with lastId := row.id, pending := s.pending ++ [row] }
    else none
  | .commit row =>
    if row ∈ s.pending then
      some
        { s with
          pending := s.pending.erase row
          history := insertRow row s.history
          old := if s.started then s.old else insertRow row s.old }
    else none
  | .rollback row => some { s with pending := s.pending.erase row }
  | .start =>
    match s.tick with
    | .idle => some s.initialise.begin
    | _ => none
  | .advance => s.advance ids
  | .rebuild failed =>
    match s.tick with
    | .trimmed b =>
      if ∀ ticket ∈ failed, ticket ∈ b.touched then
        some (s.pick b (b.touched.filter (· ∉ failed)) (.rebuilt b failed))
      else none
    | _ => none
  | .finish =>
    match s.tick with
    | .done _ => some { s with tick := .idle }
    | _ => none
  | .crash => some { s with tick := .idle }

/-- Any database before the first tick. -/
structure FollowerStart (ids : IdSequence) (s : FollowerState) : Prop where
  sorted : s.history.Pairwise HistoryRow.Before
  nodup : ((s.pending ++ s.history).map (·.id)).Nodup
  allocated : ∀ row ∈ s.pending ++ s.history, 0 < row.id ∧ row.id ≤ s.lastId
  expected : ∀ row ∈ s.pending, ids.Expects row.id
  saved : s.saved = ⟨0, []⟩
  tick : s.tick = .idle
  started : s.started = false
  old : s.old = s.history
  saw : ∀ id, s.saw id = none
  picked : s.picked = []
  opening : s.opening = []
  before : s.before = []
  handled : s.handled = []

def followerMachine (ids : IdSequence) : Machine FollowerState FollowerAction :=
  .ofNext (FollowerStart ids) (FollowerState.next ids)

end Tiqora.Reporting
