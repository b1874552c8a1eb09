import Mathlib.Data.List.Dedup
import Mathlib.Data.List.Sort
import Tiqora.Domain.DynamicFieldValues
import Tiqora.Foundation.Machine
import Tiqora.Process.Conditions

namespace Tiqora.Process.Engine

open Foundation Calendar
open Domain.DynamicField (FieldConfig Store TicketRow HistoryRow isOf setTicketDynamicField
  dynamicFieldUpdate)

def processIdDfName : Text := "ProcessManagementProcessID".toList

def activityIdDfName : Text := "ProcessManagementActivityID".toList

def runningStates : List Text := ["S1".toList, "S3".toList]

structure ProcessConfig where
  startActivity : Option Text
  /-- The transitions from an activity, with the activities that they lead to. -/
  path : List (Text × List (Text × Text))

structure ProcessRecord where
  stateEntityId : Text
  config : ProcessConfig

/-- The records of the active source, and the names of its activities. -/
structure ProcessSource where
  process : Text → Option ProcessRecord
  activity : Text → Option Text
  transition : Text → Option TransitionConfig

structure TransitionNode where
  entityId : Text
  config : TransitionConfig
  targetActivityEntityId : Text

structure ProcessGraph where
  stateEntityId : Text
  config : ProcessConfig
  activities : List (Text × List TransitionNode)

/-- The activities that a process refers to. -/
def ProcessConfig.activityEntityIds (config : ProcessConfig) : List Text :=
  (config.path.map (·.1) ++
    config.path.flatMap (fun (_, transitions) ↦ (transitions.map (·.2)).filter (· ≠ [])) ++
    config.startActivity.toList).dedup

namespace ProcessSource

variable (source : ProcessSource)

def outgoingTransitions (config : ProcessConfig) (activityEntityId : Text) :
    List TransitionNode :=
  ((config.path.lookup activityEntityId).getD []).filterMap fun (entityId, target) ↦
    (source.transition entityId).map fun transition ↦ ⟨entityId, transition, target⟩

def getProcess (entityId : Text) : Option ProcessGraph :=
  (source.process entityId).map fun rec ↦ {
    stateEntityId := rec.stateEntityId
    config := rec.config
    activities := (rec.config.activityEntityIds.filter fun id ↦ (source.activity id).isSome).map
      fun id ↦ (id, source.outgoingTransitions rec.config id) }

end ProcessSource

/-- The values of a dynamic field and the name it is written under. -/
abbrev FieldWrite := Text × List Text

structure TicketProcessState where
  processEntityId : Text
  activityEntityId : Text
  deriving DecidableEq

inductive EngineFailure
  | processNotFound
  | ticketAlreadyInProcess
  | ticketNotInProcess
  | field (e : Domain.DynamicField.Error)
  | condition (e : ValueError)
  deriving DecidableEq

variable (fields : List FieldConfig) (source : ProcessSource)

def loadTicketDynamicField (name : Text) : Option FieldConfig := fields.find? (·.name = name)

/-- The text of a field; of several rows the last one counts. -/
def storedText (field : FieldConfig) (ticketId : ℕ) (db : Store) : Option Text :=
  ((db.values.filter (isOf field ticketId)).getLast?.bind (·.valueText)).filter (· ≠ [])

def getTicketProcessState (ticketId : ℕ) (db : Store) : Option TicketProcessState := do
  let process ← loadTicketDynamicField fields processIdDfName
  let activity ← loadTicketDynamicField fields activityIdDfName
  let processEntityId ← storedText process ticketId db
  let activityEntityId ← storedText activity ticketId db
  return ⟨processEntityId, activityEntityId⟩

section Requests

variable (ticketId userId : ℕ) (now : Datetime)

/-- Fields that are not known are ignored. -/
def updateDynamicField (db : Store) (write : FieldWrite) : Except EngineFailure Store :=
  match loadTicketDynamicField fields write.1 with
  | none => .ok db
  | some field =>
    match setTicketDynamicField field now ticketId write.2 userId db with
    | (_, .error e) => .error (.field e)
    | (db, .ok _) => .ok db

/-- The writes of a request, one after the other; a failure undoes them all. -/
def updateDynamicFields (writes : List FieldWrite) (db : Store) : Except EngineFailure Store :=
  writes.foldlM (updateDynamicField fields ticketId userId now) db

/-- What `start_process` writes. -/
def startProcess (processEntityId : Text) (db : Store) : Except EngineFailure (List FieldWrite) :=
  match (source.getProcess processEntityId).bind (·.config.startActivity) with
  | none => .error .processNotFound
  | some startActivity =>
    if (getTicketProcessState fields ticketId db).isSome then .error .ticketAlreadyInProcess
    else .ok [(processIdDfName, [processEntityId]), (activityIdDfName, [startActivity])]

variable (rt : Runtime) (data : Data) (tags : List (Text × Text))

/-- The first transition that matches; a broken condition ends the search. -/
def firstTransition : List TransitionNode → Except ValueError (Option TransitionNode)
  | [] => .ok none
  | candidate :: rest =>
    match checkTransition rt data tags candidate.config with
    | .ok true => .ok (some candidate)
    | .ok false => firstTransition rest
    | .error (.config _) => .ok none
    | .error (.value e) => .error e

/-- What `run_transitions` writes: the next activity, and then what the actions of the transition
write. -/
def runTransitions (actions : List FieldWrite) (db : Store) :
    Except EngineFailure (List FieldWrite) :=
  match getTicketProcessState fields ticketId db with
  | none => .ok []
  | some state =>
    match source.getProcess state.processEntityId with
    | none => .ok []
    | some graph =>
      if runningStates.contains graph.stateEntityId then
        match graph.activities.lookup state.activityEntityId with
        | none => .ok []
        | some outgoing =>
          match firstTransition rt data tags
              (outgoing.insertionSort fun t t' ↦ t.entityId ≤ t'.entityId) with
          | .error e => .error (.condition e)
          | .ok none => .ok []
          | .ok (some transition) =>
            .ok ((activityIdDfName, [transition.targetActivityEntityId]) :: actions)
      else .ok []

/-- What `submit_activity_dialog` requires of the ticket. -/
def checkSubmit (db : Store) : Except EngineFailure Unit :=
  match getTicketProcessState fields ticketId db with
  | none => .error .ticketNotInProcess
  | some state =>
    match source.getProcess state.processEntityId with
    | none => .error .processNotFound
    | some graph =>
      if (graph.activities.lookup state.activityEntityId).isSome then .ok ()
      else .error .ticketNotInProcess

end Requests

section Path

def maxPathSteps : ℕ := 200

def fieldNameMark : Text := "%%FieldName%%".toList

def valueMark : Text := "%%Value%%".toList

def fieldPrefix (name : Text) : Text := fieldNameMark ++ name ++ valueMark

def oldValueMark : Text := "%%OldValue%%".toList

/-- The text before a mark, or all of it. -/
def before (mark : Text) : Text → Text
  | [] => []
  | c :: s => if mark.isPrefixOf (c :: s) then [] else c :: before mark s

/-- `_value_after`. -/
def valueAfter (name fieldPrefix : Text) : Option Text :=
  if fieldPrefix.isPrefixOf name then some (before oldValueMark (name.drop fieldPrefix.length))
  else none

structure ProcessPathStepOut where
  activityEntityId : Text
  activityName : Text
  enteredAt : Datetime
  enteredBy : ℕ
  enteredByName : Text
  current : Bool
  deriving DecidableEq

structure ProcessPathOut where
  processEntityId : Option Text
  steps : List ProcessPathStepOut
  deriving DecidableEq

variable (userName : ℕ → Option Text) (ticketId : ℕ)

/-- The rows of the updates of dynamic fields, in the order of their ids. -/
def updateRows (db : Store) : List HistoryRow :=
  db.history.filter fun row ↦
    row.ticketId = ticketId && db.historyTypes.lookup dynamicFieldUpdate = some row.historyTypeId

/-- The place of the last row that put the ticket in the process. -/
def enrolledAt (processEntityId : Text) (rows : List HistoryRow) : ℕ :=
  ((rows.zipIdx.filter fun (row, _) ↦
    valueAfter row.name (fieldPrefix processIdDfName) = some processEntityId).getLast?).elim 0 (·.2)

/-- An activity that a row says the ticket has entered. -/
def entered? (row : HistoryRow) : Option (Text × HistoryRow) :=
  ((valueAfter row.name (fieldPrefix activityIdDfName)).filter (· ≠ [])).map (·, row)

def lastOf {α : Type} (n : ℕ) (xs : List α) : List α := xs.drop (xs.length - n)

def loadProcessPath (db : Store) : ProcessPathOut :=
  match getTicketProcessState fields ticketId db with
  | none => ⟨none, []⟩
  | some state =>
    let rows := updateRows ticketId db
    let entered := lastOf maxPathSteps
      ((rows.drop (enrolledAt state.processEntityId rows)).filterMap entered?)
    ⟨some state.processEntityId, entered.zipIdx.map fun ((activity, row), i) ↦ {
      activityEntityId := activity
      activityName := (source.activity activity).getD []
      enteredAt := row.createTime
      enteredBy := row.createBy
      enteredByName := (userName row.createBy).getD []
      current := i + 1 = entered.length && activity = state.activityEntityId }⟩

end Path

section Machine

/-- An activity that a ticket enters. -/
structure Step where
  activityEntityId : Text
  enteredAt : Datetime
  enteredBy : ℕ
  deriving DecidableEq

/-- The process of a ticket, its activity, and those that it has entered since it is in the
process. -/
structure Enrolment where
  process : Option Text
  activity : Option Text
  entered : List Step

namespace Enrolment

variable (e : Enrolment)

def setProcess (process : Option Text) : Enrolment :=
  if process = e.process then e else { e with process := process, entered := [] }

def setActivity (userId : ℕ) (now : Datetime) (activity : Option Text) : Enrolment :=
  if activity = e.activity then e
  else { e with
    activity := activity
    entered := e.entered ++ (activity.map (⟨·, now, userId⟩)).toList }

def write (userId : ℕ) (now : Datetime) (write : FieldWrite) : Enrolment :=
  let value := (write.2.filter (· ≠ [])).head?
  if write.1 = processIdDfName then e.setProcess value
  else if write.1 = activityIdDfName then e.setActivity userId now value
  else e

end Enrolment

/-- The tables, and where each ticket is; the latter is kept for the statements only. -/
structure World where
  db : Store
  enrolment : ℕ → Enrolment

inductive Request
  | start (processEntityId : Text)
  | submit (writes : List FieldWrite) (rt : Runtime) (data : Data) (tags : List (Text × Text))
      (actions : List FieldWrite)
  | write (write : FieldWrite)
  /-- What else is done to tickets, with its row of the history. -/
  | other (tickets : List TicketRow) (row : HistoryRow)

structure Action where
  ticketId : ℕ
  userId : ℕ
  now : Datetime
  request : Request

namespace World

variable (s : World)

/-- The writes of a request, kept when all succeed. -/
def update (ticketId userId : ℕ) (now : Datetime) (writes : List FieldWrite) :
    Except EngineFailure World := do
  let db ← updateDynamicFields fields ticketId userId now writes s.db
  return {
    db := db
    enrolment := Function.update s.enrolment ticketId
      (writes.foldl (·.write userId now ·) (s.enrolment ticketId)) }

def serve (a : Action) : Except EngineFailure World :=
  match a.request with
  | .start processEntityId => do
    let writes ← startProcess fields source a.ticketId processEntityId s.db
    s.update fields a.ticketId a.userId a.now writes
  | .submit writes rt data tags actions => do
    checkSubmit fields source a.ticketId s.db
    let s ← s.update fields a.ticketId a.userId a.now writes
    let moves ← runTransitions fields source a.ticketId rt data tags actions s.db
    s.update fields a.ticketId a.userId a.now moves
  | .write write => s.update fields a.ticketId a.userId a.now [write]
  | .other tickets row =>
    .ok { s with db := { s.db with tickets := tickets, history := s.db.history ++ [row] } }

end World

/-- No ticket is in a process, and none has been since the history begins. -/
structure Unenrolled (s : World) : Prop where
  none : ∀ ticketId, s.enrolment ticketId = ⟨none, none, []⟩
  values : ∀ row ∈ s.db.values, ∀ field ∈ fields,
    field.name = processIdDfName ∨ field.name = activityIdDfName → row.fieldId ≠ field.id

/-- Tickets that are taken through their processes. -/
def processTickets : Machine World Action :=
  .ofNext (Unenrolled fields) fun s a ↦ (s.serve fields source a).toOption

end Machine

end Tiqora.Process.Engine
