import Tiqora.Calendar.Moments

namespace Tiqora.Domain.DynamicField

open Foundation Civil Calendar

abbrev Text := List Char

inductive FieldType
  | text
  | textArea
  | dropdown
  | multiselect
  | checkbox
  | date
  | dateTime
  | other (name : Text)
  deriving DecidableEq

/-- The types of `_SINGLE_VALUE_TYPES`. -/
def FieldType.isSingle : FieldType → Bool
  | .text | .textArea | .dropdown | .date | .dateTime | .checkbox => true
  | _ => false

def FieldType.isMoment : FieldType → Bool
  | .date | .dateTime => true
  | _ => false

structure FieldConfig where
  id : ℕ
  name : Text
  fieldType : FieldType
  deriving DecidableEq

inductive Error
  | dynamicFieldValue (message : String)
  | valueError (message : String)
  deriving DecidableEq

/-- The moment of the digits of a text that the pattern matches; `fromisoformat` takes only those
of ASCII. -/
def fromDigits (y e a r m o d t h i n u s c : Char) : Option Datetime :=
  if [y, e, a, r, m, o, d, t, h, i, n, u, s, c].all Char.isDigit then
    Datetime.ofFields (readDigits [y, e, a, r]) (readDigits [m, o]) (readDigits [d, t])
      (readDigits [h, i]) (readDigits [n, u]) (readDigits [s, c])
  else none

/-- `_parse_datetime`. -/
def parseDatetime (raw : Text) : Option Datetime :=
  match strip raw with
  | [y, e, a, r, '-', m, o, '-', d, t] => fromDigits y e a r m o d t '0' '0' '0' '0' '0' '0'
  | [y, e, a, r, '-', m, o, '-', d, t, sep, h, i, ':', n, u] =>
    if sep = ' ' ∨ sep = 'T' then fromDigits y e a r m o d t h i n u '0' '0' else none
  | [y, e, a, r, '-', m, o, '-', d, t, sep, h, i, ':', n, u, ':', s, c] =>
    if sep = ' ' ∨ sep = 'T' then fromDigits y e a r m o d t h i n u s c else none
  | _ => none

/-- `strftime("%Y-%m-%d %H:%M:%S")`. -/
def fmtDate (dt : Datetime) : Text :=
  zfill 4 (yearOf dt.month) ++ '-' :: (zfill 2 (dt.month % 12 + 1) ++ '-' :: (zfill 2 dt.day ++
    ' ' :: (zfill 2 (dt.clock / 3600) ++ ':' :: (zfill 2 (dt.clock / 60 % 60) ++
      ':' :: zfill 2 (dt.clock % 60)))))

section Strptime

def within (low high : Char) (c : Char) : Bool := low ≤ c && c ≤ high

/-- Whether one of the alternatives of a pattern is a text, class by class. -/
def matchesOne (alternatives : List (List (Char → Bool))) (s : Text) : Bool :=
  alternatives.any fun classes ↦
    classes.length = s.length && (List.zipWith (fun p c ↦ p c) classes s).all id

/-- The patterns of `%m`, `%d`, `%H`, `%M` and `%S`. -/
def monthPattern : List (List (Char → Bool)) :=
  [[within '1' '1', within '0' '2'], [within '0' '0', within '1' '9'], [within '1' '9']]

def dayPattern : List (List (Char → Bool)) :=
  [[within '3' '3', within '0' '1'], [within '1' '2', isDigit], [within '0' '0', within '1' '9'],
    [within '1' '9'], [within ' ' ' ', within '1' '9']]

def hourPattern : List (List (Char → Bool)) :=
  [[within '2' '2', within '0' '3'], [within '0' '1', isDigit], [isDigit]]

def minutePattern : List (List (Char → Bool)) := [[within '0' '5', isDigit], [isDigit]]

def secondPattern : List (List (Char → Bool)) :=
  [[within '6' '6', within '0' '1'], [within '0' '5', isDigit], [isDigit]]

/-- `int` of the text of a field. -/
def fieldValue (s : Text) : ℕ := readDigits (s.filter (· ≠ ' '))

/-- `strptime(s, "%Y-%m-%d %H:%M:%S")`; white space in the format is any white space. -/
def strptime (s : Text) : Option Datetime :=
  match s.splitOn '-' with
  | [year, month, tail] =>
    let day := tail.take 1 ++ (tail.drop 1).takeWhile fun c ↦ !isSpace c
    let rest := tail.drop day.length
    match rest.takeWhile isSpace, (rest.dropWhile isSpace).splitOn ':' with
    | _ :: _, [hour, minute, second] =>
      if year.length = 4 ∧ year.all isDigit ∧ matchesOne monthPattern month ∧
          matchesOne dayPattern day ∧ matchesOne hourPattern hour ∧
          matchesOne minutePattern minute ∧ matchesOne secondPattern second then
        Datetime.ofFields (fieldValue year) (fieldValue month) (fieldValue day) (fieldValue hour)
          (fieldValue minute) (fieldValue second)
      else none
    | _, _ => none
  | _ => none

end Strptime

def oneValue : Error := .dynamicFieldValue "Dieses Feld erlaubt nur einen Wert."

def badDate : Error :=
  .dynamicFieldValue "Bitte ein gültiges Datum im Format JJJJ-MM-TT angeben (ohne Uhrzeit)."

def badDateTime : Error :=
  .dynamicFieldValue "Bitte Datum und Uhrzeit im Format JJJJ-MM-TT HH:MM angeben."

def badCheckbox : Error :=
  .dynamicFieldValue "Ein Kontrollkästchen akzeptiert nur 0 oder 1."

def normalizeDate (v : Text) : Except Error Text :=
  match parseDatetime v with
  | some dt => if dt.clock = 0 then .ok (fmtDate dt) else .error badDate
  | none => .error badDate

def normalizeDateTime (v : Text) : Except Error Text :=
  match parseDatetime v with
  | some dt => if (strip v).length ≤ 10 then .error badDateTime else .ok (fmtDate dt)
  | none => .error badDateTime

def normalizeDfValues (fieldType : FieldType) (values : List Text) : Except Error (List Text) :=
  let vals := values.filter (· ≠ [])
  if fieldType.isSingle ∧ 1 < vals.length then .error oneValue
  else
    match fieldType with
    | .date => vals.mapM normalizeDate
    | .dateTime => vals.mapM normalizeDateTime
    | .checkbox =>
      if values ≠ [] ∧ vals = [] then .ok [['0']]
      else if vals.all fun v ↦ v = ['0'] ∨ v = ['1'] then .ok vals
      else .error badCheckbox
    | _ => .ok vals

/-- A row of `dynamic_field_value`. -/
structure ValueRow where
  fieldId : ℕ
  objectId : ℕ
  valueText : Option Text
  valueInt : Option ℤ
  valueDate : Option Datetime
  deriving DecidableEq

/-- The value of a row, and whether it is a text in the place of a typed value. -/
def renderRow (fieldType : FieldType) (row : ValueRow) : Option Text × Bool :=
  if fieldType = .checkbox then
    match row.valueInt with
    | some vi => (some (intText vi), false)
    | none => (row.valueText, row.valueText.isSome)
  else if fieldType.isMoment then
    match row.valueDate with
    | some vd => (some (fmtDate vd), false)
    | none =>
      (row.valueText.map fun vt ↦ (parseDatetime vt).elim vt fmtDate, row.valueText.isSome)
  else (row.valueText, false)

/-- `_render_df_rows`. -/
def renderDfRows (fieldType : FieldType) (rows : List ValueRow) : List Text × Bool :=
  (rows.filterMap fun row ↦ (renderRow fieldType row).1,
    rows.any fun row ↦ (renderRow fieldType row).2)

structure TicketRow where
  id : ℕ
  queueId : ℕ
  typeId : Option ℕ
  userId : ℕ
  priorityId : ℕ
  stateId : ℕ
  changeTime : Datetime
  changeBy : ℕ
  deriving DecidableEq

structure HistoryRow where
  name : Text
  historyTypeId : ℕ
  ticketId : ℕ
  queueId : ℕ
  ownerId : ℕ
  priorityId : ℕ
  stateId : ℕ
  typeId : ℕ
  createTime : Datetime
  createBy : ℕ
  deriving DecidableEq

structure EventRow where
  eventType : Text
  ticketId : ℕ
  field : Text
  values : List Text
  created : Datetime
  deriving DecidableEq

/-- The tables that are read and written; the rows of `dynamic_field_value` in the order of their
ids. -/
structure Store where
  values : List ValueRow
  tickets : List TicketRow
  historyTypes : List (Text × ℕ)
  history : List HistoryRow
  cacheInvalidations : List (ℕ × Datetime)
  events : List EventRow

/-- A write, with what it leaves in the tables also when it raises. -/
abbrev Write (α : Type) := Store × Except Error α

variable (field : FieldConfig) (now : Datetime)

def isOf (objectId : ℕ) (row : ValueRow) : Bool := row.fieldId = field.id && row.objectId = objectId

/-- `_read_df_values`. -/
def readDfValues (db : Store) (objectId : ℕ) : List Text × Bool :=
  renderDfRows field.fieldType (db.values.filter (isOf field objectId))

def dfValuesDiffer (old new : List Text) : Bool :=
  if old.isEmpty && new.isEmpty then false else old ≠ new

def joined (values : List Text) : Text := (values.intersperse ", ".toList).flatten

def readableHistoryValue (fieldType : FieldType) (values : List Text) : Text :=
  match fieldType with
  | .multiselect => joined values
  | .date => (values.headD []).take 10
  | _ => values.headD []

def historyMaxChars : ℕ := 166

def cut (s : Text) (length : ℕ) : Text := s.take length ++ "[...]".toList

/-- The three texts in 166 characters. -/
def truncateHistoryParts (fieldName value oldValue : Text) : Text × Text × Text :=
  if fieldName.length + value.length + oldValue.length ≤ historyMaxChars then
    (fieldName, value, oldValue)
  else
    let oldValue := if 55 < oldValue.length then cut oldValue 50 else oldValue
    let half := (historyMaxChars - oldValue.length) / 2
    if half < fieldName.length then
      if half < value.length then (cut fieldName (half - 5), cut value (half - 5), oldValue)
      else (cut fieldName (historyMaxChars - oldValue.length - value.length - 5), value, oldValue)
    else
      let left := historyMaxChars - oldValue.length - fieldName.length - 5
      (fieldName, if left < value.length then cut value left else value, oldValue)

/-- The row that a value is written as. -/
def typedRow (objectId : ℕ) (v : Text) : Except Error ValueRow :=
  if field.fieldType.isMoment then
    match strptime v with
    | some dt => .ok ⟨field.id, objectId, none, none, some dt⟩
    | none => .error (.valueError "time data does not match format")
  else if field.fieldType = .checkbox then
    match readInt v with
    | some n => .ok ⟨field.id, objectId, none, some n, none⟩
    | none => .error (.valueError "invalid literal for int()")
  else .ok ⟨field.id, objectId, some v, none, none⟩

def insertDfRows (objectId : ℕ) : List Text → Store → Write Unit
  | [], db => (db, .ok ())
  | v :: new, db =>
    match typedRow field objectId v with
    | .error e => (db, .error e)
    | .ok row => insertDfRows objectId new { db with values := db.values ++ [row] }

/-- `_replace_df_rows`. -/
def replaceDfRows (objectId : ℕ) (new : List Text) (db : Store) : Write Unit :=
  insertDfRows field objectId new
    { db with values := db.values.filter fun row ↦ !isOf field objectId row }

def touchTicket (ticketId userId : ℕ) (db : Store) : Store :=
  { db with tickets := db.tickets.map fun t ↦
      if t.id = ticketId then { t with changeTime := now, changeBy := userId } else t }

def dynamicFieldUpdate : Text := "TicketDynamicFieldUpdate".toList

/-- Code points above U+FFFF are replaced. -/
def replaceNonBmp (s : Text) : Text :=
  s.map fun c ↦ if c.toNat ≤ 0xFFFF then c else Char.ofNat 0xFFFD

/-- `add_dynamic_field_update`, by way of `history_add`. -/
def addDynamicFieldUpdate (ticketId : ℕ) (name value oldValue : Text) (userId : ℕ) (db : Store) :
    Write Unit :=
  let text := "%%FieldName%%".toList ++ name ++ "%%Value%%".toList ++ value ++
    "%%OldValue%%".toList ++ oldValue
  match db.tickets.find? (·.id = ticketId) with
  | none => (db, .error (.valueError "Ticket not found"))
  | some ticket =>
    match db.historyTypes.lookup dynamicFieldUpdate with
    | none => (db, .error (.valueError "Unknown ticket history type"))
    | some historyTypeId =>
      ({ db with history := db.history ++ [{
          name := (replaceNonBmp text).take 200, historyTypeId, ticketId,
          queueId := ticket.queueId, ownerId := ticket.userId, priorityId := ticket.priorityId,
          stateId := ticket.stateId, typeId := ticket.typeId.getD 1, createTime := now,
          createBy := userId }] }, .ok ())

def signalChange (ticketId : ℕ) (new : List Text) (db : Store) : Store :=
  { db with
    cacheInvalidations := db.cacheInvalidations ++ [(ticketId, now)]
    events := db.events ++ [{
      eventType := dynamicFieldUpdate ++ '_' :: field.name, ticketId, field := field.name,
      values := new, created := now }] }

/-- The write of a field without a plugin type. -/
def setTicketDynamicField (ticketId : ℕ) (values : List Text) (userId : ℕ) (db : Store) :
    Write Bool :=
  match normalizeDfValues field.fieldType values with
  | .error e => (db, .error e)
  | .ok new =>
    let (old, legacy) := readDfValues field db ticketId
    if !legacy && !dfValuesDiffer old new then (db, .ok false)
    else
      match replaceDfRows field ticketId new db with
      | (db, .error e) => (db, .error e)
      | (db, .ok ()) =>
        let (name, value, oldValue) := truncateHistoryParts field.name
          (readableHistoryValue field.fieldType new) (readableHistoryValue field.fieldType old)
        match addDynamicFieldUpdate now ticketId name value oldValue userId
            (touchTicket now ticketId userId db) with
        | (db, .error e) => (db, .error e)
        | (db, .ok ()) => (signalChange field now ticketId new db, .ok true)

end Tiqora.Domain.DynamicField
