import Tiqora.Foundation.Machine
import Tiqora.Foundation.Sorting
import Tiqora.Foundation.Tables
import Tiqora.Foundation.Text

namespace Tiqora.Ai.AutoWorker

open Foundation

def outboxBatchSize : ℕ := 200

inductive EventType
  | articleCreate
  | aiReplyRequest
  | other
  deriving DecidableEq

/-- A row of `tiqora_event_outbox` with what the worker reads of its payload. -/
structure OutboxRow where
  id : ℕ
  eventType : EventType
  ticketId : ℕ
  articleId : Option ℕ
  channel : Option String
  deriving DecidableEq

def OutboxRow.Before (row row' : OutboxRow) : Prop := row.id ≤ row'.id

instance (row row' : OutboxRow) : Decidable (row.Before row') :=
  inferInstanceAs (Decidable (_ ≤ _))

/-- `_CUSTOMER_ARTICLE_EVENTS`. -/
def EventType.ofCustomer : EventType → Bool
  | .articleCreate | .aiReplyRequest => true
  | .other => false

/-- `AUTO_REPLY_SKIP_CHANNELS`. -/
def skipChannel (channel : Option String) : Bool := channel.any fun name ↦ name.toLower = "webchat"

/-- `is_tiqora_only_channel`; `driverFor` says which channels a loaded plugin brings. -/
def isTiqoraOnlyChannel (driverFor : List Char → Bool) (channel : Option String) : Bool :=
  channel.any fun name ↦
    let name := strip name.toList |>.map Char.toLower
    name ≠ [] && (name = "telegram".toList || name = "webchat".toList || driverFor name)

/-- The settings behind the gate. -/
structure Gate where
  primary : Bool
  paused : Bool
  deriving DecidableEq

def Gate.isOpen (gate : Gate) : Bool := gate.primary && !gate.paused

/-- A row of `tiqora_ai_triage`. -/
structure TriageRow where
  isOpen : Bool
  deferred : Option ℕ
  deriving DecidableEq

/-- What a session that began with it reads of the outbox and of the triage watermark. -/
structure View where
  rows : List OutboxRow
  triage : Option ℕ

/-- What a tick works through: the rest of its batch, or of the articles that it replays. -/
inductive Work
  | batch (watermark last : ℕ) (left : List OutboxRow)
  | replies (left : List (ℕ × ℕ))

/-- Where a tick stands. `bound` is the triage watermark that it has read. -/
inductive Tick
  | idle
  | started (gate : Gate) (view : View)
  | bounding (gate : Gate) (view : View) (read : List OutboxRow)
  | working (gate : Gate) (bound : Option ℕ) (work : Work)
  | deferring (gate : Gate) (bound : Option ℕ) (work : Work) (ticketId articleId : ℕ)
  | parking (gate : Gate) (bound : Option ℕ) (work : Work) (ticketId articleId : ℕ)
  | selecting (gate : Gate) (bound : Option ℕ)
  | cleared (gate : Gate) (bound : Option ℕ) (left : List (ℕ × ℕ)) (ticketId articleId : ℕ)

/-- What became of a parked article that a tick took off its row. -/
inductive Outcome
  | gateClosed
  | answered
  | replayed
  deriving DecidableEq

/-- A row that was handed to `_process_customer_article_event`, and the triage watermark that the
tick had read. -/
structure Handing where
  id : ℕ
  bound : Option ℕ
  deriving DecidableEq

/-- The outbox with the rows of open transactions, the settings, the triage rows, the pauses, and
the tick. Beside them stand the rows that were visible while the gate was closed, the rows that were
handed over, the parked articles with what became of those that were taken off their rows, the
articles that the completed ticks had selected, and the lowest row that each of them had found. -/
structure State where
  rows : List OutboxRow
  pending : List (ℕ × OutboxRow)
  allocated : ℕ
  gate : Gate
  watermark : ℕ
  triage : Option ℕ
  triageRows : Table ℕ TriageRow
  aiPaused : List ℕ
  customerPaused : List ℕ
  tick : Tick
  first : ℕ
  shut : List ℕ
  handed : List Handing
  parked : List (ℕ × ℕ)
  outcomes : List ((ℕ × ℕ) × Outcome)
  selected : List (ℕ × ℕ)
  taken : List (ℕ × ℕ)
  lowest : Option ℕ
  passed : List ℕ

/-- The statements of the tick, and what happens between them. A `step` says whether the checks
before `_defer_for_open_triage` let the article through, and whether an agent has written since. -/
inductive Action
  | insert (transaction : ℕ) (eventType : EventType) (ticketId : ℕ) (articleId : Option ℕ)
      (channel : Option String)
  | commit (transaction : ℕ)
  | rollback (transaction : ℕ)
  | setGate (gate : Gate)
  | triageTick (watermark : ℕ)
  | openTriage (ticketId : ℕ)
  | decide (ticketId : ℕ)
  | pauseTicket (ticketId : ℕ)
  | unpauseTicket (ticketId : ℕ)
  | pauseCustomers (ticketIds : List ℕ)
  | startTick
  | readBatch
  | readTriage
  | select (selected : List (ℕ × ℕ))
  | step (checks answered : Bool)

/-- `next_outbox_batch`. -/
def nextOutboxBatch (rows : List OutboxRow) (after : ℕ) : List OutboxRow :=
  ((rows.filter fun row ↦ after < row.id).insertionSort OutboxRow.Before).take outboxBatchSize

/-- The rows of the batch that triage has reached. -/
def bounded (bound : Option ℕ) (batch : List OutboxRow) : List OutboxRow :=
  match bound with
  | some triage => batch.filter fun row ↦ row.id ≤ triage
  | none => batch

namespace State

variable (driverFor : List Char → Bool) (isolation : Isolation) (s : State)

/-- The articles on triage rows that are decided. -/
def waiting : List (ℕ × ℕ) :=
  s.triageRows.rows.filterMap fun r ↦
    if r.2.isOpen then none else r.2.deferred.map fun articleId ↦ (r.1, articleId)

def setRow (ticketId : ℕ) (row : TriageRow) : State :=
  { s with triageRows := s.triageRows.set ticketId (some row) }

/-- A row of the batch: it is passed over, or handed over and processed. -/
def event (gate : Gate) (bound : Option ℕ) (watermark : ℕ) (row : OutboxRow)
    (left : List OutboxRow) (checks : Bool) : State :=
  let work := .batch watermark row.id left
  if row.eventType.ofCustomer && !skipChannel row.channel && !gate.paused &&
      (gate.primary || isTiqoraOnlyChannel driverFor row.channel) then
    { s with
      handed := s.handed ++ [⟨row.id, bound⟩]
      tick := match row.articleId with
        | some articleId =>
          if checks then .deferring gate bound work row.ticketId articleId
          else .working gate bound work
        | none => .working gate bound work }
  else { s with tick := .working gate bound work }

/-- `_defer_for_open_triage` up to its write. -/
def defer (gate : Gate) (bound : Option ℕ) (work : Work) (ticketId articleId : ℕ) : Tick :=
  if ticketId ∈ s.aiPaused ∨ ticketId ∈ s.customerPaused then .working gate bound work
  else
    match s.triageRows.find ticketId with
    | some ⟨true, deferred⟩ =>
      if deferred.all fun d ↦ d < articleId then .parking gate bound work ticketId articleId
      else .working gate bound work
    | _ => .working gate bound work

/-- The write of `_defer_for_open_triage`. -/
def park (gate : Gate) (bound : Option ℕ) (work : Work) (ticketId articleId : ℕ) : State :=
  match s.triageRows.find ticketId with
  | some row =>
    { s.setRow ticketId { row with deferred := some articleId } with
      tick := .working gate bound work
      parked := s.parked ++ [(ticketId, articleId)] }
  | none => { s with tick := .working gate bound work }

/-- A selected row is read again and its article taken off. -/
def takeOff (gate : Gate) (bound : Option ℕ) (ticketId articleId : ℕ) (left : List (ℕ × ℕ)) :
    State :=
  match s.triageRows.find ticketId with
  | some ⟨isOpen, some _⟩ =>
    { s.setRow ticketId ⟨isOpen, none⟩ with
      tick := .cleared gate bound left ticketId articleId }
  | _ => { s with tick := .working gate bound (.replies left) }

/-- The article is dropped, or handed over and processed. -/
def replay (gate : Gate) (bound : Option ℕ) (left : List (ℕ × ℕ)) (ticketId articleId : ℕ)
    (checks answered : Bool) : State :=
  let outcome : Outcome :=
    if !gate.isOpen then .gateClosed else if answered then .answered else .replayed
  { s with
    outcomes := s.outcomes ++ [((ticketId, articleId), outcome)]
    tick :=
      if outcome = .replayed ∧ checks then .deferring gate bound (.replies left) ticketId articleId
      else .working gate bound (.replies left) }

def step (checks answered : Bool) : Option State :=
  match s.tick with
  | .idle | .started _ _ | .bounding _ _ _ | .selecting _ _ => none
  | .working gate bound (.batch watermark _ (row :: left)) =>
    some (s.event driverFor gate bound watermark row left checks)
  | .working gate bound (.batch _ last []) =>
    some { s with
      watermark := last
      tick := .selecting gate bound
      lowest := none
      passed := s.passed ++ s.lowest.toList }
  | .deferring gate bound work ticketId articleId =>
    some { s with tick := s.defer gate bound work ticketId articleId }
  | .parking gate bound work ticketId articleId =>
    some (s.park gate bound work ticketId articleId)
  | .working gate bound (.replies ((ticketId, articleId) :: left)) =>
    some (s.takeOff gate bound ticketId articleId left)
  | .cleared gate bound left ticketId articleId =>
    some (s.replay gate bound left ticketId articleId checks answered)
  | .working _ _ (.replies []) =>
    some { s with tick := .idle, selected := [], taken := s.taken ++ s.selected }

def next : Action → Option State
  | .insert transaction eventType ticketId articleId channel =>
    let id := s.allocated + 1
    some { s with
      allocated := id
      pending := s.pending ++ [(transaction, ⟨id, eventType, ticketId, articleId, channel⟩)] }
  | .commit transaction =>
    let new := (s.pending.filter fun r ↦ r.1 = transaction).map (·.2)
    some { s with
      rows := s.rows ++ new
      pending := s.pending.filter fun r ↦ r.1 ≠ transaction
      shut := if s.gate.isOpen then s.shut else s.shut ++ new.map (·.id) }
  | .rollback transaction =>
    some { s with pending := s.pending.filter fun r ↦ r.1 ≠ transaction }
  | .setGate gate =>
    some { s with
      gate
      shut := if gate.isOpen then s.shut else s.shut ++ s.rows.map (·.id) }
  | .triageTick watermark =>
    if s.triage.all fun triage ↦ triage ≤ watermark then
      some { s with triage := some watermark } else none
  | .openTriage ticketId =>
    if (s.triageRows.find ticketId).isNone then some (s.setRow ticketId ⟨true, none⟩) else none
  | .decide ticketId =>
    (s.triageRows.find ticketId).map fun row ↦ s.setRow ticketId { row with isOpen := false }
  | .pauseTicket ticketId =>
    if ticketId ∈ s.aiPaused then some s
    else
      let paused := { s with aiPaused := ticketId :: s.aiPaused }
      match s.triageRows.find ticketId with
      | some row => some (paused.setRow ticketId { row with deferred := none })
      | none => some paused
  | .unpauseTicket ticketId =>
    some { s with aiPaused := s.aiPaused.filter fun id ↦ id ≠ ticketId }
  | .pauseCustomers ticketIds => some { s with customerPaused := ticketIds }
  | .startTick =>
    match s.tick with
    | .idle => some { s with tick := .started s.gate ⟨s.rows, s.triage⟩ }
    | _ => none
  | .readBatch =>
    match s.tick with
    | .started gate view =>
      some { s with tick := .bounding gate view (isolation.visible view.rows s.rows) }
    | _ => none
  | .readTriage =>
    match s.tick with
    | .bounding gate view read =>
      let bound := isolation.visible view.triage s.triage
      let batch := bounded bound (nextOutboxBatch read s.watermark)
      some { s with
        tick := .working gate bound (.batch s.watermark s.watermark batch)
        lowest := ((bounded bound (read.filter fun row ↦ s.watermark < row.id)).map (·.id)).min? }
    | _ => none
  | .select selected =>
    match s.tick with
    | .selecting gate bound =>
      if (selected.map (·.1)).Nodup ∧ (selected.all fun r ↦ s.waiting.contains r) ∧
          selected.length = min outboxBatchSize s.waiting.length then
        some { s with tick := .working gate bound (.replies selected), selected }
      else none
    | _ => none
  | .step checks answered => s.step driverFor checks answered

end State

/-- Triage has its watermark when the run begins. -/
def Initial (s : State) : Prop :=
  (s.rows.map (·.id) ++ s.pending.map (·.2.id)).Nodup ∧
    (∀ id ∈ s.rows.map (·.id) ++ s.pending.map (·.2.id), id ≤ s.allocated) ∧
      s.first = s.watermark ∧ s.triage.isSome ∧
        (s.gate.isOpen = false → ∀ row ∈ s.rows, row.id ∈ s.shut) ∧ s.tick = .idle ∧
          s.handed = [] ∧ s.parked = [] ∧ s.outcomes = [] ∧ s.selected = [] ∧ s.taken = [] ∧
            s.passed = []

def autoWorker (driverFor : List Char → Bool) (isolation : Isolation) : Machine State Action :=
  .ofNext Initial (State.next driverFor isolation)

end Tiqora.Ai.AutoWorker
