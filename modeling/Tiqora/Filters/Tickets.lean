import Tiqora.Filters.Reports

namespace Tiqora.Filters

open Foundation

/-- A value that an integer column of the type can hold. -/
abbrev SqlInt (type : IntType) := {n : ℤ // type.lo ≤ n ∧ n ≤ type.hi}

namespace Column

variable {ρ : Type}

def int (type : IntType) (nullable : Bool) (f : ρ → Option (SqlInt type)) : Column ρ where
  type := .int type
  nullable := nullable
  value r := (f r).map fun n ↦ .int n.1
  typed r c h := by
    obtain ⟨n, -, rfl⟩ := Option.map_eq_some_iff.1 h
    exact n.2

def text (nullable : Bool) (f : ρ → Option String) : Column ρ where
  type := .text
  nullable := nullable
  value r := (f r).map .text
  typed r c h := by
    obtain ⟨s, -, rfl⟩ := Option.map_eq_some_iff.1 h
    exact trivial

def moment (nullable : Bool) (f : ρ → Option ℤ) : Column ρ where
  type := .moment
  nullable := nullable
  value r := (f r).map .moment
  typed r c h := by
    obtain ⟨n, -, rfl⟩ := Option.map_eq_some_iff.1 h
    exact trivial

end Column

structure Ticket where
  id : SqlInt .big
  tn : String
  title : Option String
  queueId : SqlInt .int
  ticketLockId : SqlInt .small
  typeId : Option (SqlInt .small)
  serviceId : Option (SqlInt .int)
  slaId : Option (SqlInt .int)
  userId : SqlInt .int
  responsibleUserId : SqlInt .int
  ticketPriorityId : SqlInt .small
  ticketStateId : SqlInt .small
  customerId : Option String
  customerUserId : Option String
  untilTime : SqlInt .int
  escalationTime : SqlInt .int
  escalationUpdateTime : SqlInt .int
  escalationResponseTime : SqlInt .int
  escalationSolutionTime : SqlInt .int
  archiveFlag : SqlInt .small
  createTime : ℤ
  changeTime : ℤ

structure DynamicField where
  id : ℤ
  name : String
  fieldType : String
  objectType : String
  validId : ℤ

structure DynamicFieldValue where
  fieldId : ℤ
  objectId : ℤ
  valueText : Option String
  valueDate : Option ℤ
  valueInt : Option (SqlInt .big)

structure TicketState where
  id : ℤ
  typeId : ℤ

/-- A row with an id and a name: a state type, a lock type or a communication channel. -/
structure NamedRow where
  id : ℤ
  name : String

structure AiTicketState where
  ticketId : ℤ
  aiEscalatedAt : Option ℤ

structure TicketWatcher where
  ticketId : ℤ
  userId : SqlInt .int

structure Article where
  id : ℤ
  ticketId : ℤ
  communicationChannelId : ℤ

/-- The tables that the compiled conditions read beside the ticket. The dynamic fields stand in
their order. -/
structure Database where
  dynamicFields : List DynamicField
  dynamicFieldValues : List DynamicFieldValue
  states : List TicketState
  stateTypes : List NamedRow
  lockTypes : List NamedRow
  aiTicketStates : List AiTicketState
  watchers : List TicketWatcher
  articles : List Article
  channels : List NamedRow

/-- The static fields. -/
inductive TicketField
  | ticketId | tn | title | queueId | stateId | stateType | priorityId | typeId | serviceId | slaId
  | ownerId | responsibleId | customerId | customerUserId | locked | watchedBy | unassigned
  | escalated | aiEscalated | escalationDueWithin | channel | archived | created | changed
  | pendingUntil
  deriving DecidableEq

def listChannelKeys : List String := ["email", "telegram", "webchat", "phone"]

namespace TicketField

def key : TicketField → String
  | ticketId => "ticket_id" | tn => "tn" | title => "title" | queueId => "queue_id"
  | stateId => "state_id" | stateType => "state_type" | priorityId => "priority_id"
  | typeId => "type_id" | serviceId => "service_id" | slaId => "sla_id" | ownerId => "owner_id"
  | responsibleId => "responsible_id" | customerId => "customer_id"
  | customerUserId => "customer_user_id" | locked => "locked" | watchedBy => "watched_by"
  | unassigned => "unassigned" | escalated => "escalated" | aiEscalated => "ai_escalated"
  | escalationDueWithin => "escalation_due_within" | channel => "channel"
  | archived => "archived" | created => "created" | changed => "changed"
  | pendingUntil => "pending_until"

def all : List TicketField :=
  [ticketId, tn, title, queueId, stateId, stateType, priorityId, typeId, serviceId, slaId, ownerId,
    responsibleId, customerId, customerUserId, locked, watchedBy, unassigned, escalated,
    aiEscalated, escalationDueWithin, channel, archived, created, changed, pendingUntil]

def ofKey? (key : String) : Option TicketField := all.find? fun f ↦ f.key = key

def type : TicketField → FieldType
  | tn | title | stateType | customerId | customerUserId => .string
  | locked | unassigned | escalated | aiEscalated | archived => .bool
  | escalationDueWithin => .int
  | channel => .enum
  | created | changed | pendingUntil => .datetime
  | ticketId | queueId | stateId | priorityId | typeId | serviceId | slaId | ownerId
  | responsibleId | watchedBy => .id

def ops : TicketField → Option (List ConditionOp)
  | stateType => some [.eq, .neq, .in_, .notIn]
  | watchedBy => some [.eq, .in_]
  | escalationDueWithin => some [.lte]
  | channel => some [.eq, .in_]
  | _ => none

/-- `TICKET_FILTER_FIELDS`. -/
def spec (f : TicketField) : FilterFieldSpec where
  key := f.key
  type := f.type
  ops := f.ops
  enumValues := if f = channel then listChannelKeys else []
  ops_subset := by cases f <;> decide

/-- `_COLUMNS`. -/
def column? : TicketField → Option (Column Ticket)
  | ticketId => some (.int .big false fun t ↦ some t.id)
  | tn => some (.text false fun t ↦ some t.tn)
  | title => some (.text true (·.title))
  | queueId => some (.int .int false fun t ↦ some t.queueId)
  | stateId => some (.int .small false fun t ↦ some t.ticketStateId)
  | priorityId => some (.int .small false fun t ↦ some t.ticketPriorityId)
  | typeId => some (.int .small true (·.typeId))
  | serviceId => some (.int .int true (·.serviceId))
  | slaId => some (.int .int true (·.slaId))
  | ownerId => some (.int .int false fun t ↦ some t.userId)
  | responsibleId => some (.int .int false fun t ↦ some t.responsibleUserId)
  | customerId => some (.text true (·.customerId))
  | customerUserId => some (.text true (·.customerUserId))
  | created => some (.moment false fun t ↦ some t.createTime)
  | changed => some (.moment false fun t ↦ some t.changeTime)
  | pendingUntil => some (.int .int false fun t ↦ some t.untilTime)
  | _ => none

end TicketField

/-- `_DF_TYPES`. -/
def dfTypes : List (String × FieldType × Column DynamicFieldValue) :=
  [("Text", .string, .text true (·.valueText)),
    ("TextArea", .string, .text true (·.valueText)),
    ("Dropdown", .string, .text true (·.valueText)),
    ("Multiselect", .string, .text true (·.valueText)),
    ("Checkbox", .bool, .int .big true (·.valueInt)),
    ("Date", .datetime, .moment true (·.valueDate)),
    ("DateTime", .datetime, .moment true (·.valueDate))]

structure DynamicFieldInfo where
  id : ℤ
  name : String
  filterType : FieldType
  valueColumn : Column DynamicFieldValue

def DynamicFieldInfo.key (info : DynamicFieldInfo) : String := "df." ++ info.name

def DynamicFieldInfo.spec (info : DynamicFieldInfo) : FilterFieldSpec where
  key := info.key
  type := info.filterType
  ops := none
  enumValues := []
  ops_subset := nofun

def Value.asList : Value → List Value
  | .list items => items
  | v => [v]

/-- `int(value)`, where only a number passes the checks. -/
def Value.number : Value → ℤ
  | .int n => n
  | _ => 0

namespace Database

variable (db : Database) (py : Builtins) (collation : Collation) (now : Now)

def loadDynamicFields : List DynamicFieldInfo :=
  db.dynamicFields.filterMap fun f ↦
    if f.objectType = "Ticket" ∧ f.validId = 1 then
      (dfTypes.lookup f.fieldType).map fun e ↦ ⟨f.id, f.name, e.1, e.2⟩
    else none

/-- The field of a key that starts with `df.`: the last one of its name. -/
def dynamicField? (key : String) : Option DynamicFieldInfo :=
  db.loadDynamicFields.reverse.find? fun info ↦ info.key = key

def resolve (key : String) : Option FilterFieldSpec :=
  match TicketField.ofKey? key with
  | some f => some f.spec
  | none => (db.dynamicField? key).map (·.spec)

/-- The states with the names of their types. -/
def stateRows : List (ℤ × String) :=
  db.states.flatMap fun s ↦
    (db.stateTypes.filter fun type ↦ type.id = s.typeId).map fun type ↦ (s.id, type.name)

def stateIdsByType : Value → List ℤ
  | .text name => (db.stateRows.filter fun row ↦ row.2 = name).map (·.1)
  | _ => []

/-- `_lock_type_ids`: the last id of the name. -/
def lockTypeId (name : String) : Option ℤ :=
  (db.lockTypes.reverse.find? fun type ↦ type.name = name).map (·.id)

def aiEscalatedIds : List ℤ :=
  (db.aiTicketStates.filter fun s ↦ s.aiEscalatedAt.isSome).map (·.ticketId)

/-- `in_` of ids, `false()` when there are none. -/
def inIds (f : Ticket → ℤ) (ids : List ℤ) : Predicate Ticket :=
  if ids = [] then .const false else .ofBool fun t ↦ f t ∈ ids

def escalationTimes : List (Ticket → SqlInt .int) :=
  [(·.escalationTime), (·.escalationResponseTime), (·.escalationUpdateTime),
    (·.escalationSolutionTime)]

def escalationDueBefore (deadline : ℤ) : Predicate Ticket :=
  .any (escalationTimes.map fun time ↦
    let col : Column Ticket := .int .int false fun t ↦ some (time t)
    (col.test fun cell ↦ cell.compares .gt (.int 0)).and
      (col.test fun cell ↦ cell.compares .lt (.int deadline)))

def escalatedCondition : Predicate Ticket :=
  let sla := escalationDueBefore now.seconds
  if db.aiEscalatedIds = [] then sla
  else sla.or (.ofBool fun t ↦ t.id.1 ∈ db.aiEscalatedIds)

def listChannels : List (String × String) :=
  [("Telegram", "telegram"), ("Chat", "webchat"), ("WebChat", "webchat")]

/-- An article of the channel with one of the names. -/
def onChannel (names : List String) (a : Article) : Bool :=
  db.channels.any fun c ↦ c.id = a.communicationChannelId && names.any (collation.eq c.name)

def hasArticleOn (names : List String) (t : Ticket) : Bool :=
  db.articles.any fun a ↦ a.ticketId = t.id.1 && db.onChannel collation names a

def firstArticleOnPhone (t : Ticket) : Bool :=
  db.articles.any fun a ↦ a.ticketId = t.id.1 &&
    (db.articles.all fun b ↦ b.ticketId ≠ a.ticketId || a.id ≤ b.id) &&
      db.onChannel collation ["Phone"] a

def channelCondition (key : String) : Predicate Ticket :=
  let noChat := (Predicate.ofBool (db.hasArticleOn collation (listChannels.map (·.1)))).not
  let phone := Predicate.ofBool (db.firstArticleOnPhone collation)
  if key = "email" then noChat.and phone.not
  else if key = "phone" then noChat.and phone
  else .ofBool (db.hasArticleOn collation ((listChannels.filter fun e ↦ e.2 = key).map (·.1)))

def channelsCondition : Value → Predicate Ticket
  | .text key => db.channelCondition collation key
  | _ => .const false

/-- `_special`. -/
def special (f : TicketField) (c : Condition) : Except FilterError (Predicate Ticket) :=
  let negative := c.op ∈ [.neq, .notIn, .isFalse]
  match f with
  | .stateType =>
    let pred := inIds (·.ticketStateId) (c.value.asList.flatMap db.stateIdsByType)
    .ok (if negative then pred.not else pred)
  | .locked => .ok
      (if c.op = .isTrue then
        inIds (·.ticketLockId) (["lock", "tmp_lock"].filterMap db.lockTypeId)
      else
        match db.lockTypeId "unlock" with
        | some unlock => .ofBool fun t ↦ t.ticketLockId.1 = unlock
        | none => .const false)
  | .watchedBy =>
    let users := c.value.asList.filter (Value.fits IntType.int.lo IntType.int.hi)
    .ok (if users.isEmpty then .const false
      else inIds (·.id) ((db.watchers.filter fun w ↦
        users.any fun v ↦ (Cell.int w.userId).eq collation v).map (·.ticketId)))
  | .unassigned => .ok
      (if c.op = .isTrue then .ofBool fun t ↦ t.userId.1 = 1 else .ofBool fun t ↦ t.userId.1 ≠ 1)
  | .escalated => .ok
      (if negative then (db.escalatedCondition now).not else db.escalatedCondition now)
  | .aiEscalated =>
    let pred := inIds (·.id) db.aiEscalatedIds
    .ok (if negative then pred.not else pred)
  | .escalationDueWithin =>
    let limit := now.seconds + c.value.number
    .ok (escalationDueBefore (min (max limit IntType.int.lo) IntType.int.hi))
  | .channel => .ok (.any (c.value.asList.map (db.channelsCondition collation)))
  | .archived => .ok (.ofBool fun t ↦ t.archiveFlag.1 = if c.op = .isTrue then 1 else 0)
  | _ => .error ⟨"Unbekanntes Feld „" ++ f.key ++ "“.", "where.field"⟩

/-- `EXISTS` over the values of a field. -/
def hasValue (info : DynamicFieldInfo) (p : Predicate DynamicFieldValue) : Predicate Ticket :=
  .ofBool fun t ↦ Predicate.exists_
    (((Predicate.ofBool fun v ↦ v.objectId = t.id.1).and
      (.ofBool fun v ↦ v.fieldId = info.id)).and p) db.dynamicFieldValues

/-- `_dynamic_field`. -/
def dynamicField (info : DynamicFieldInfo) (c : Condition) (vpath : String) :
    Except FilterError (Predicate Ticket) :=
  let col := info.valueColumn
  let has := db.hasValue info
  if info.filterType = .bool then
    let checked := has (col.test fun cell ↦ cell.eq collation (.int 1))
    .ok (if c.op = .isTrue then checked else checked.not)
  else if c.op = .isEmpty then
    .ok (has (if info.filterType = .datetime then col.isNotNull else nonEmpty collation col)).not
  else
    match negatedOp c.op with
    | some op => do
      let positive ←
        positivePredicate py collation col info.filterType { c with op } vpath now false
      pure (has positive).not
    | none => do
      let positive ← positivePredicate py collation col info.filterType c vpath now false
      pure (has positive)

/-- `condition`. A key of neither kind does not pass the checks. -/
def condition (path : String) (c : Condition) : Except FilterError (Predicate Ticket) :=
  match db.dynamicField? c.field, TicketField.ofKey? c.field with
  | some info, _ => db.dynamicField py collation now info c (path ++ ".value")
  | none, some f =>
    match f.column? with
    | some col =>
      columnPredicate py collation col f.type c (path ++ ".value") now (f = .pendingUntil)
    | none => db.special collation now f c
  | none, none => .error ⟨"Unbekanntes Feld „" ++ c.field ++ "“.", "where.field"⟩

end Database

structure TicketQueryScope where
  queueIds : List ℤ
  includeArchived : Bool

def TicketQueryScope.predicate (scope : TicketQueryScope) : Predicate Ticket :=
  let queues : Predicate Ticket := .ofBool fun t ↦ t.queueId.1 ∈ scope.queueIds
  if scope.includeArchived then queues else queues.and (.ofBool fun t ↦ t.archiveFlag.1 = 0)

/-- `none` means guaranteed empty. -/
def compileTicketFilter (py : Builtins) (collation : Collation) (db : Database) (now : Now)
    (flt : Filter) (scope : TicketQueryScope) :
    Except FilterError (Option (Predicate Ticket)) := do
  validateFilter py db.resolve flt
  if scope.queueIds = [] then pure none
  else
    match flt with
    | none => pure (some scope.predicate)
    | some node => do
      let p ← compileNode (db.condition py collation now) "where" node
      pure (some (scope.predicate.and p))

end Tiqora.Filters
