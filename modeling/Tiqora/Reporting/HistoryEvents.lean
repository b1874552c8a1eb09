import Tiqora.Foundation.Text
import Mathlib.Data.Prod.Lex
import Mathlib.Data.List.Basic

namespace Tiqora.Reporting.HistoryEvents

open Foundation

inductive EventKind
  | create
  | state
  | close
  | reopen
  | queue
  | owner
  | responsible
  | priority
  | type
  | service
  | sla
  | merge
  | processActivity
  | reply
  | note
  | customerMessage
  deriving DecidableEq

def eventKinds : List EventKind :=
  [.create, .state, .close, .reopen, .queue, .owner, .responsible, .priority, .type, .service, .sla,
    .merge, .processActivity, .reply, .note, .customerMessage]

/-- `_DURATION_KINDS`. -/
def EventKind.timed : EventKind → Bool
  | .queue => true
  | .state => true
  | .owner => true
  | .priority => true
  | .type => true
  | .service => true
  | .sla => true
  | .responsible => true
  | .processActivity => true
  | _ => false

/-- `CLOSED_STATE_TYPE`. -/
def closedStateType : List Char := ['c', 'l', 'o', 's', 'e', 'd']

/-- `PROCESS_ACTIVITY_FIELD`. -/
def processActivityField : List Char := "ProcessManagementActivityID".toList

/-- Times are the whole seconds of the database. -/
structure TicketRow where
  id : ℤ
  createTime : ℤ
  createBy : ℤ
  queueId : ℤ
  stateId : ℤ
  priorityId : ℤ
  typeId : Option ℤ
  userId : ℤ

/-- The history types that `derive_events` reads. -/
inductive HistoryType
  | serviceUpdate
  | slaUpdate
  | responsibleUpdate
  | merged
  | ticketDynamicFieldUpdate
  | other
  deriving DecidableEq

structure HistoryRow where
  id : ℕ
  historyType : HistoryType
  name : List Char
  articleId : Option ℤ
  queueId : ℤ
  stateId : ℤ
  priorityId : ℤ
  ownerId : ℤ
  typeId : ℤ
  createTime : ℤ
  createBy : ℤ
  changeTime : Option ℤ

def movedByMerge (row : HistoryRow) : Bool :=
  row.articleId.isSome && row.changeTime.any fun changeTime ↦ row.createTime < changeTime

inductive SenderType
  | agent
  | customer
  | system
  deriving DecidableEq

structure ArticleRow where
  id : ℕ
  senderType : SenderType
  visible : Bool
  createTime : ℤ
  createBy : ℤ

structure EventRow where
  ticketId : ℤ
  kind : EventKind
  occurredAt : ℤ
  queueId : ℤ
  historyId : Option ℕ := none
  articleId : Option ℕ := none
  actorUserId : Option ℤ := none
  fromId : Option ℤ := none
  toId : Option ℤ := none
  fromValue : Option (List Char) := none
  toValue : Option (List Char) := none
  fromDurationSeconds : Option ℤ := none

def EventRow.isChange (e : EventRow) : Bool := e.kind = .close || e.kind = .reopen

/-- `split("%%")`. -/
def splitPercents : List Char → List (List Char)
  | [] => [[]]
  | '%' :: '%' :: rest => [] :: splitPercents rest
  | c :: rest =>
    match splitPercents rest with
    | [] => [[c]]
    | part :: parts => (c :: part) :: parts

def removePercents : List Char → List Char
  | '%' :: '%' :: rest => rest
  | name => name

def splitHistoryName (name : List Char) : List (List Char) := splitPercents (removePercents name)

example : splitHistoryName "%%a%%b%%".toList = [['a'], ['b'], []] := by decide

/-- `_int`. -/
def intOf (value : List Char) : Option ℤ :=
  if strip value = [] then none
  else ((strip value).mapM digitValue).map fun digits ↦
    digits.foldl (fun n digit ↦ n * 10 + (digit : ℤ)) 0

/-- `_at`. -/
def valueAt (values : List (List Char)) (idx : ℕ) : List Char := values.getD idx []

def orNone (value : List Char) : Option (List Char) := if value = [] then none else some value

/-- The columns that are compared from row to row, in their order. -/
inductive Column
  | queue
  | state
  | owner
  | priority
  | type
  deriving DecidableEq

def Column.all : List Column := [.queue, .state, .owner, .priority, .type]

def Column.kind : Column → EventKind
  | .queue => .queue
  | .state => .state
  | .owner => .owner
  | .priority => .priority
  | .type => .type

def HistoryRow.column (r : HistoryRow) : Column → ℤ
  | .queue => r.queueId
  | .state => r.stateId
  | .owner => r.ownerId
  | .priority => r.priorityId
  | .type => r.typeId

def TicketRow.column (ticket : TicketRow) : Column → ℤ
  | .queue => ticket.queueId
  | .state => ticket.stateId
  | .owner => ticket.userId
  | .priority => ticket.priorityId
  | .type => ticket.typeId.getD 0

/-- The rows of the ticket itself, by id. -/
def ownRows (history : List HistoryRow) : List HistoryRow :=
  (history.filter fun r ↦ !movedByMerge r).mergeSort fun r r' ↦ r.id ≤ r'.id

/-- The columns before the first change. -/
def baseline (ticket : TicketRow) (rows : List HistoryRow) : Column → ℤ :=
  match rows with
  | [] => ticket.column
  | first :: _ => first.column

abbrev StateTypes := ℤ → Option (List Char)

/-- The close or reopen that goes with a change of state between known states. -/
def closeOrReopen (oldType newType : Option (List Char)) (ev : EventRow) : List EventRow :=
  match oldType, newType with
  | some old, some new =>
    if new = closedStateType ∧ old ≠ closedStateType then [{ ev with kind := .close }]
    else if old = closedStateType ∧ new ≠ closedStateType then [{ ev with kind := .reopen }]
    else []
  | _, _ => []

def changeEvent (ticket : TicketRow) (prev : Column → ℤ) (r : HistoryRow) (column : Column) :
    EventRow where
  ticketId := ticket.id
  kind := column.kind
  occurredAt := r.createTime
  queueId := r.queueId
  historyId := some r.id
  actorUserId := some r.createBy
  fromId := some (prev column)
  toId := some (r.column column)

def stateEvent (ticket : TicketRow) (stateTypes : StateTypes) (prev : Column → ℤ) (r : HistoryRow) :
    EventRow :=
  { changeEvent ticket prev r .state with
    fromValue := stateTypes (prev .state)
    toValue := stateTypes (r.column .state) }

def columnEvent (ticket : TicketRow) (stateTypes : StateTypes) (prev : Column → ℤ) (r : HistoryRow)
    (column : Column) : List EventRow :=
  if r.column column = prev column then []
  else if column = .state then
    stateEvent ticket stateTypes prev r ::
      closeOrReopen (stateTypes (prev .state)) (stateTypes (r.column .state))
        (stateEvent ticket stateTypes prev r)
  else [changeEvent ticket prev r column]

def columnEvents (ticket : TicketRow) (stateTypes : StateTypes) (prev : Column → ℤ)
    (r : HistoryRow) : List EventRow :=
  Column.all.flatMap (columnEvent ticket stateTypes prev r)

/-- An event without the columns, from the name of a row. -/
def commonEvent (ticket : TicketRow) (r : HistoryRow) (kind : EventKind) : EventRow where
  ticketId := ticket.id
  kind := kind
  occurredAt := r.createTime
  queueId := r.queueId
  historyId := some r.id
  actorUserId := some r.createBy

/-- The events of the name of a row, and the responsible user after it. -/
def nameEvents (ticket : TicketRow) (lastResponsible : Option ℤ) (r : HistoryRow) :
    List EventRow × Option ℤ :=
  let values := splitHistoryName r.name
  match r.historyType with
  | .serviceUpdate | .slaUpdate =>
    let newId := intOf (valueAt values 1)
    let oldId := intOf (valueAt values 3)
    if newId = none ∧ oldId = none then ([], lastResponsible)
    else
      let kind := if r.historyType = .serviceUpdate then EventKind.service else .sla
      ([{ commonEvent ticket r kind with fromId := oldId, toId := newId }], lastResponsible)
  | .responsibleUpdate =>
    match intOf (valueAt values 1) with
    | none => ([], lastResponsible)
    | some newId =>
      ([{ commonEvent ticket r .responsible with fromId := lastResponsible, toId := some newId }],
        some newId)
  | .merged =>
    let merged := (removePercents r.name).take 100
    if merged.all (· = '%') then ([], lastResponsible)
    else ([{ commonEvent ticket r .merge with toValue := some merged }], lastResponsible)
  | .ticketDynamicFieldUpdate =>
    if 4 ≤ values.length ∧ valueAt values 0 = "FieldName".toList ∧
        valueAt values 1 = processActivityField then
      let newV := orNone (valueAt values 3)
      let oldV := orNone (valueAt values 5)
      if newV = none ∧ oldV = none then ([], lastResponsible)
      else
        ([{ commonEvent ticket r .processActivity with fromValue := oldV, toValue := newV }],
          lastResponsible)
    else ([], lastResponsible)
  | .other => ([], lastResponsible)

/-- The loop over the rows; the first row is the baseline. -/
def rowEvents (ticket : TicketRow) (stateTypes : StateTypes) :
    Bool → (Column → ℤ) → Option ℤ → List HistoryRow → List EventRow
  | _, _, _, [] => []
  | first, prev, lastResponsible, r :: rows =>
    (if first then [] else columnEvents ticket stateTypes prev r) ++
      (nameEvents ticket lastResponsible r).1 ++
      rowEvents ticket stateTypes false r.column (nameEvents ticket lastResponsible r).2 rows

/-- The queue of the last row that is no later than the article. -/
def articleQueue (baseQueue : ℤ) (rows : List HistoryRow) (article : ArticleRow) : ℤ :=
  (rows.takeWhile fun r ↦ r.createTime ≤ article.createTime).getLast?.elim baseQueue (·.queueId)

def articleKind (article : ArticleRow) : Option EventKind :=
  match article.senderType with
  | .agent => some (if article.visible then .reply else .note)
  | .customer => some .customerMessage
  | .system => none

def articleEvent (ticket : TicketRow) (baseQueue : ℤ) (rows : List HistoryRow)
    (article : ArticleRow) : Option EventRow :=
  (articleKind article).map fun kind ↦
    { ticketId := ticket.id
      kind := kind
      occurredAt := article.createTime
      queueId := articleQueue baseQueue rows article
      articleId := some article.id
      actorUserId := some article.createBy }

def articleEvents (ticket : TicketRow) (baseQueue : ℤ) (rows : List HistoryRow)
    (articles : List ArticleRow) : List EventRow :=
  let qrows := rows.mergeSort fun r r' ↦ toLex (r.createTime, r.id) ≤ toLex (r'.createTime, r'.id)
  (articles.mergeSort fun a a' ↦ toLex (a.createTime, a.id) ≤ toLex (a'.createTime, a'.id)).filterMap
    (articleEvent ticket baseQueue qrows)

/-- The event of the creation, and a close where the ticket was created closed. -/
def createEvents (ticket : TicketRow) (stateTypes : StateTypes) (base : Column → ℤ) :
    List EventRow :=
  { ticketId := ticket.id
    kind := .create
    occurredAt := ticket.createTime
    queueId := base .queue
    actorUserId := some ticket.createBy
    toId := some (base .queue)
    toValue := stateTypes (base .state) } ::
  if stateTypes (base .state) = some closedStateType then
    [{ ticketId := ticket.id
       kind := .close
       occurredAt := ticket.createTime
       queueId := base .queue
       actorUserId := some ticket.createBy
       toId := some (base .state)
       toValue := stateTypes (base .state) }]
  else []

def EventRow.sortKey (e : EventRow) : ℤ ×ₗ ℕ ×ₗ ℕ ×ₗ ℕ :=
  toLex (e.occurredAt, toLex (e.historyId.getD 0, toLex (e.articleId.getD 0, eventKinds.idxOf e.kind)))

/-- `_with_durations`: `last` is the time of the last event of each kind, at first that of the
creation. -/
def withDurations : (EventKind → ℤ) → List EventRow → List EventRow
  | _, [] => []
  | last, e :: events =>
    if e.kind.timed then
      { e with fromDurationSeconds := some (max 0 (e.occurredAt - last e.kind)) } ::
        withDurations (Function.update last e.kind e.occurredAt) events
    else e :: withDurations last events

/-- The events in the order in which they are appended. -/
def appendedEvents (ticket : TicketRow) (history : List HistoryRow) (articles : List ArticleRow)
    (stateTypes : StateTypes) : List EventRow :=
  let rows := ownRows history
  let base := baseline ticket rows
  createEvents ticket stateTypes base ++ rowEvents ticket stateTypes true base none rows ++
    articleEvents ticket (base .queue) rows articles

def deriveEvents (ticket : TicketRow) (history : List HistoryRow) (articles : List ArticleRow)
    (stateTypes : StateTypes) : List EventRow :=
  withDurations (fun _ ↦ ticket.createTime)
    ((appendedEvents ticket history articles stateTypes).mergeSort fun e e' ↦ e.sortKey ≤ e'.sortKey)

end Tiqora.Reporting.HistoryEvents
