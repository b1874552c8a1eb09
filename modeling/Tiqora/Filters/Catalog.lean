import Mathlib.Algebra.Ring.Int.Defs
import Mathlib.Data.List.Basic
import Tiqora.Foundation.Guarded

namespace Tiqora.Filters

open Foundation

inductive ConditionOp
  | eq | neq | in_ | notIn | contains | startsWith | isEmpty | isNotEmpty | lt | lte | gt | gte
  | between | before | after | withinLast | olderThan | isTrue | isFalse
  deriving DecidableEq

def ConditionOp.name : ConditionOp → String
  | .eq => "eq" | .neq => "neq" | .in_ => "in" | .notIn => "not_in" | .contains => "contains"
  | .startsWith => "starts_with" | .isEmpty => "is_empty" | .isNotEmpty => "is_not_empty"
  | .lt => "lt" | .lte => "lte" | .gt => "gt" | .gte => "gte" | .between => "between"
  | .before => "before" | .after => "after" | .withinLast => "within_last"
  | .olderThan => "older_than" | .isTrue => "is_true" | .isFalse => "is_false"

/-- A JSON value. -/
inductive Value
  | null
  | bool (b : Bool)
  | int (n : ℤ)
  | float (text : String)
  | text (s : String)
  | list (items : List Value)
  | dict (entries : List (String × Value))

def Value.items : Value → List Value
  | .list items => items
  | _ => []

def Value.isOneOf (texts : List String) : Value → Bool
  | .text s => s ∈ texts
  | _ => false

def Value.get? (key : String) : Value → Option Value
  | .dict entries => entries.lookup key
  | _ => none

structure Condition where
  field : String
  op : ConditionOp
  value : Value

/-- `all` and `any` have at least one child. -/
inductive FilterNode
  | cond (c : Condition)
  | all (first : FilterNode) (rest : List FilterNode)
  | any (first : FilterNode) (rest : List FilterNode)
  | not (child : FilterNode)

/-- `where` of a filter. -/
abbrev Filter := Option FilterNode

inductive FieldType
  | id | string | int | datetime | bool | enum
  deriving DecidableEq

def opsByType : FieldType → List ConditionOp
  | .id => [.eq, .neq, .in_, .notIn]
  | .string => [.eq, .neq, .in_, .notIn, .contains, .startsWith, .isEmpty, .isNotEmpty]
  | .int => [.eq, .neq, .lt, .lte, .gt, .gte, .between, .in_]
  | .datetime => [.before, .after, .between, .withinLast, .olderThan, .isEmpty, .isNotEmpty]
  | .bool => [.isTrue, .isFalse]
  | .enum => [.eq, .neq, .in_, .notIn]

def maxDepth : ℕ := 6
def maxConditions : ℕ := 100
def maxInValues : ℕ := 1000
def maxStringLength : ℕ := 1000
def maxRelativeSeconds : ℤ := 100 * 366 * 86400
def int64Min : ℤ := -2 ^ 63
def int64Max : ℤ := 2 ^ 63 - 1

def unitSeconds : String → Option ℤ
  | "minute" => some 60
  | "hour" => some 3600
  | "day" => some 86400
  | "week" => some 604800
  | _ => none

/-- Only operators of its type are allowed on a field. -/
structure FilterFieldSpec where
  key : String
  type : FieldType
  ops : Option (List ConditionOp)
  enumValues : List String
  ops_subset : ∀ allowed ∈ ops, allowed ⊆ opsByType type

def FilterFieldSpec.allowedOps (spec : FilterFieldSpec) : List ConditionOp :=
  spec.ops.getD (opsByType spec.type)

theorem FilterFieldSpec.allowedOps_subset (spec : FilterFieldSpec) :
    spec.allowedOps ⊆ opsByType spec.type := by
  rw [allowedOps]
  cases hops : spec.ops with
  | none => exact List.Subset.refl _
  | some allowed => exact spec.ops_subset allowed hops

structure FilterError where
  message : String
  path : String
  deriving DecidableEq

/-- What the checks call of Python: `datetime.fromisoformat` of the stripped text, as the second
since 1970 in UTC, and `str` of a value. -/
structure Builtins where
  fromisoformat : String → Option ℤ
  str : Value → String
  epoch : fromisoformat "1970-01-01" = some 0

section Checks

variable (py : Builtins)

def parseDatetimeValue (value : Value) (path : String) : Except FilterError ℤ :=
  match value with
  | .text s =>
    match py.fromisoformat s with
    | some parsed =>
      if parsed < 0 then .error ⟨"Das Datum darf nicht vor 1970 liegen.", path⟩ else .ok parsed
    | none =>
      let shown := if s.length ≤ 40 then s else String.ofList (s.toList.take 40) ++ "…"
      .error ⟨"„" ++ shown ++ "“ ist kein gültiges Datum.", path⟩
  | _ => .error ⟨"Bitte ein Datum im Format JJJJ-MM-TT angeben.", path⟩

/-- `set(value) == set(keys)`. -/
def hasKeys (entries : List (String × Value)) (keys : List String) : Bool :=
  (entries.all fun e ↦ e.1 ∈ keys) && keys.all fun k ↦ k ∈ entries.map (·.1)

/-- The amount and the unit of a relative date, in seconds. -/
def relativeSeconds (value : Value) : Option ℤ :=
  match value with
  | .dict entries =>
    if hasKeys entries ["amount", "unit"] then
      match entries.lookup "amount", entries.lookup "unit" with
      | some (.int amount), some (.text unit) =>
        (unitSeconds unit).bind fun seconds ↦ if 1 ≤ amount then some (amount * seconds) else none
      | _, _ => none
    else none
  | _ => none

def relativeDelta (value : Value) (path : String) : Except FilterError ℤ :=
  match relativeSeconds value with
  | none => .error ⟨"Bitte eine Anzahl (mindestens 1) und eine Einheit " ++
      "(Minute, Stunde, Tag oder Woche) angeben.", path⟩
  | some seconds =>
    if maxRelativeSeconds < seconds then
      .error ⟨"Der Zeitraum darf höchstens 100 Jahre betragen.", path⟩
    else .ok seconds

mutual

/-- The conditions of a filter with their paths, depth first. -/
def iterConditions (path : String) : FilterNode → List (String × Condition)
  | .cond c => [(path, c)]
  | .all first rest =>
    iterConditions (path ++ ".all[0]") first ++ iterChildren (path ++ ".all[") 1 rest
  | .any first rest =>
    iterConditions (path ++ ".any[0]") first ++ iterChildren (path ++ ".any[") 1 rest
  | .not child => iterConditions (path ++ ".not") child

def iterChildren (path : String) (i : ℕ) : List FilterNode → List (String × Condition)
  | [] => []
  | node :: nodes =>
    iterConditions (path ++ toString i ++ "]") node ++ iterChildren path (i + 1) nodes

end

mutual

def checkDepth (path : String) (depth : ℕ) : FilterNode → Except FilterError Unit
  | .cond _ => require (depth ≤ maxDepth) ⟨"Der Filter ist zu tief verschachtelt.", path⟩
  | .all first rest => do
    require (depth ≤ maxDepth) ⟨"Der Filter ist zu tief verschachtelt.", path⟩
    checkDepth (path ++ ".all[0]") (depth + 1) first
    checkDepths (path ++ ".all[") (depth + 1) 1 rest
  | .any first rest => do
    require (depth ≤ maxDepth) ⟨"Der Filter ist zu tief verschachtelt.", path⟩
    checkDepth (path ++ ".any[0]") (depth + 1) first
    checkDepths (path ++ ".any[") (depth + 1) 1 rest
  | .not child => do
    require (depth ≤ maxDepth) ⟨"Der Filter ist zu tief verschachtelt.", path⟩
    checkDepth (path ++ ".not") (depth + 1) child

def checkDepths (path : String) (depth i : ℕ) : List FilterNode → Except FilterError Unit
  | [] => .ok ()
  | node :: nodes => do
    checkDepth (path ++ toString i ++ "]") depth node
    checkDepths path depth (i + 1) nodes

end

def checkItem (spec : FilterFieldSpec) (v : Value) (path : String) : Except FilterError Unit :=
  match spec.type with
  | .id | .int =>
    match v with
    | .int n => require (int64Min ≤ n ∧ n ≤ int64Max) ⟨"Die Zahl ist zu groß.", path⟩
    | _ => .error ⟨"Bitte eine ganze Zahl angeben.", path⟩
  | .string =>
    match v with
    | .text s => require (s.length ≤ maxStringLength)
        ⟨"Der Text ist zu lang (höchstens " ++ toString maxStringLength ++ " Zeichen).", path⟩
    | _ => .error ⟨"Bitte einen Text angeben.", path⟩
  | .enum => require (v.isOneOf spec.enumValues)
      ⟨"„" ++ py.str v ++ "“ ist kein erlaubter Wert. Erlaubt: " ++
        String.intercalate ", " spec.enumValues ++ ".", path⟩
  | .datetime => do
    let _ ← parseDatetimeValue py v path
  | .bool => .ok ()

def checkItems (spec : FilterFieldSpec) (path : String) (i : ℕ) :
    List Value → Except FilterError Unit
  | [] => .ok ()
  | v :: vs => do
    checkItem py spec v (path ++ "[" ++ toString i ++ "]")
    checkItems spec path (i + 1) vs

def checkValue (spec : FilterFieldSpec) (c : Condition) (path : String) :
    Except FilterError Unit :=
  match c.op with
  | .isEmpty | .isNotEmpty | .isTrue | .isFalse =>
    match c.value with
    | .null => .ok ()
    | _ => .error ⟨"Für „" ++ c.op.name ++ "“ darf kein Wert angegeben werden.", path⟩
  | .in_ | .notIn =>
    match c.value with
    | .list (v :: vs) => do
      require ((v :: vs).length ≤ maxInValues)
        ⟨"Es sind höchstens " ++ toString maxInValues ++ " Werte erlaubt.", path⟩
      checkItems py spec path 0 (v :: vs)
    | _ => .error ⟨"Bitte mindestens einen Wert als Liste angeben.", path⟩
  | .between =>
    match c.value with
    | .dict entries =>
      match hasKeys entries ["from", "to"], entries.lookup "from", entries.lookup "to" with
      | true, some low, some high => do
        checkItem py spec low (path ++ ".from")
        checkItem py spec high (path ++ ".to")
      | _, _, _ => .error ⟨"Bitte „von“ und „bis“ angeben.", path⟩
    | _ => .error ⟨"Bitte „von“ und „bis“ angeben.", path⟩
  | .withinLast | .olderThan => do
    let _ ← relativeDelta c.value path
  | .eq | .neq | .contains | .startsWith | .lt | .lte | .gt | .gte | .before | .after =>
    match c.value with
    | .null | .list _ | .dict _ => .error ⟨"Bitte genau einen Wert angeben.", path⟩
    | v => checkItem py spec v path

variable (resolve : String → Option FilterFieldSpec)

def checkCondition (path : String) (c : Condition) : Except FilterError Unit :=
  match resolve c.field with
  | none => .error ⟨"Unbekanntes Feld „" ++ c.field ++ "“.", path ++ ".field"⟩
  | some spec => do
    require (c.op ∈ spec.allowedOps)
      ⟨"Für dieses Feld ist „" ++ c.op.name ++ "“ nicht möglich.", path ++ ".op"⟩
    checkValue py spec c (path ++ ".value")

def checkConditions (count : ℕ) : List (String × Condition) → Except FilterError Unit
  | [] => .ok ()
  | (path, c) :: rest => do
    require (count ≤ maxConditions)
      ⟨"Der Filter hat zu viele Bedingungen (höchstens " ++ toString maxConditions ++ ").", path⟩
    checkCondition py resolve path c
    checkConditions (count + 1) rest

def validateFilter (flt : Filter) : Except FilterError Unit :=
  match flt with
  | none => .ok ()
  | some node => do
    checkDepth "where" 1 node
    checkConditions py resolve 1 (iterConditions "where" node)

end Checks

end Tiqora.Filters
