import Mathlib.Data.Char
import Mathlib.Data.List.Lex
import Tiqora.Foundation.Civil
import Tiqora.Foundation.Guarded
import Tiqora.Foundation.Text

namespace Tiqora.Process

open Foundation Foundation.Civil

abbrev Text := List Char

/-- A value of the ticket data or of a `Match`; `other` is a scalar that is no string. The elements
of lists and hashes are what `str` prints of them. -/
inductive Value
  | null
  | text (s : Text)
  | other (s : Text)
  | list (items : List Text)
  | hash (entries : List (Text × Text))
  deriving DecidableEq

abbrev Data := List (Text × Value)

inductive ValueError
  | noSuchDate
  | tooManyDigits
  deriving DecidableEq

inductive ConfigError
  | noConditions
  | invalidLinking
  | noFields
  | invalidBlockType
  | invalidField (name : Text)
  deriving DecidableEq

inductive Failure
  | value (e : ValueError)
  | config (e : ConfigError)
  deriving DecidableEq

/-- `str.lower`, the search of a Perl pattern (nothing for an invalid one and after a timeout),
`str` of lists and hashes, and the registry of the condition modules. -/
structure Runtime where
  lower : Text → Text
  regex : Text → Text → Option Bool
  print : Value → Text
  modules : Text → Option (Data → Text → Bool)

inductive BaseType
  | equal
  | notEqual
  | contains
  | notContains
  | greaterThan
  | greaterThanOrEqual
  | lessThan
  | lessThanOrEqual
  deriving DecidableEq

inductive ConditionType
  | string
  | regexp
  | array
  | hash
  | module
  | base (type : BaseType)
  deriving DecidableEq

def conditionTypes : List (Text × ConditionType) :=
  [("String".toList, .string), ("Regexp".toList, .regexp), ("Array".toList, .array),
    ("Hash".toList, .hash), ("Module".toList, .module), ("Equal".toList, .base .equal),
    ("NotEqual".toList, .base .notEqual), ("Contains".toList, .base .contains),
    ("NotContains".toList, .base .notContains), ("GreaterThan".toList, .base .greaterThan),
    ("GreaterThanOrEqual".toList, .base .greaterThanOrEqual),
    ("LessThan".toList, .base .lessThan), ("LessThanOrEqual".toList, .base .lessThanOrEqual)]

structure Condition where
  match' : Value
  type : Text

/-- What a field comes to. -/
inductive Result
  | match'
  | noMatch
  | noMatchQuiet
  | error
  deriving DecidableEq

section Values

/-- A number of so many digits at the start of a text, and the rest. -/
def number? (least most : ℕ) (s : Text) : Option (ℕ × Text) :=
  let digits := s.takeWhile isDigit
  if least ≤ digits.length ∧ digits.length ≤ most then
    some (digits.foldl (fun n c ↦ n * 10 + (digitValue c).getD 0) 0, s.dropWhile isDigit)
  else none

def literal? (c : Char) : Text → Option Text
  | [] => none
  | d :: rest => if d = c then some rest else none

def space? : Text → Option Text
  | [] => none
  | c :: rest => if isSpace c then some rest else none

/-- `$` at the end of a pattern. -/
def atEnd (s : Text) : Bool := s = [] || s = ['\n']

structure Stamp where
  year : ℕ
  month : ℕ
  day : ℕ
  hour : ℕ
  minute : ℕ
  second : ℕ
  deriving DecidableEq

/-- The year, the month and the day of both patterns, and the rest of the text. -/
def day? (s : Text) : Option (ℕ × ℕ × ℕ × Text) := do
  let (y, s) ← number? 4 4 s
  let s ← literal? '-' s
  let (mo, s) ← number? 1 2 s
  let s ← literal? '-' s
  let (d, s) ← number? 1 2 s
  some (y, mo, d, s)

/-- `_DATETIME_RE`. -/
def datetime? (s : Text) : Option Stamp := do
  let (y, mo, d, s) ← day? s
  let s ← space? s
  let (h, s) ← number? 1 2 s
  let s ← literal? ':' s
  let (mi, s) ← number? 1 2 s
  if atEnd s then some ⟨y, mo, d, h, mi, 0⟩
  else
    let s ← literal? ':' s
    let (sec, s) ← number? 1 2 s
    if atEnd s then some ⟨y, mo, d, h, mi, sec⟩ else none

/-- `_DATE_RE`. -/
def date? (s : Text) : Option Stamp := do
  let (y, mo, d, s) ← day? s
  if atEnd s then some ⟨y, mo, d, 0, 0, 0⟩ else none

namespace Stamp

variable (t : Stamp)

def monthIndex : ℕ := (t.year - 1) * 12 + (t.month - 1)

/-- What `datetime` takes. -/
def exists' : Bool :=
  1 ≤ t.year && t.year ≤ 9999 && 1 ≤ t.month && t.month ≤ 12 && 1 ≤ t.day &&
    t.day ≤ monthLength t.monthIndex && t.hour ≤ 23 && t.minute ≤ 59 && t.second ≤ 59

def epoch : ℤ :=
  ((ofMonthDay t.monthIndex t.day : ℕ) - 719162) * 86400 + t.hour * 3600 + t.minute * 60 + t.second

def timestamp : Except ValueError ℤ := if t.exists' then .ok t.epoch else .error .noSuchDate

end Stamp

/-- `str` of an integer. -/
def intText (z : ℤ) : Text :=
  if z < 0 then '-' :: Nat.toDigits 10 z.natAbs else Nat.toDigits 10 z.natAbs

/-- `str(value_validate(raw))`. -/
def valueValidate (raw : Text) : Except ValueError Text :=
  match datetime? raw with
  | some t => t.timestamp.map intText
  | none =>
    match date? raw with
    | some t => t.timestamp.map intText
    | none => .ok raw

/-- `_INTEGER_RE`. -/
def isIntegerText (s : Text) : Bool :=
  let digits := if s.head? = some '-' then s.tail else s
  digits = ['0'] ||
    digits.all Char.isDigit && digits.head?.any fun c ↦ c ≠ '0'

/-- The digits that `int` takes. -/
def maxDigits : ℕ := 4300

def asInteger (s : Text) : Except ValueError (Option ℤ) :=
  if isIntegerText s then
    let negative := s.head? = some '-'
    let digits := if negative then s.tail else s
    if maxDigits < digits.length then .error .tooManyDigits
    else .ok (some (if negative then -(Nat.ofDigitChars 10 digits 0 : ℤ)
      else Nat.ofDigitChars 10 digits 0))
  else .ok none

/-- The texts that the caller rendered. -/
def sub (tags : List (Text × Text)) (value : Text) : Text := (tags.lookup value).getD value

def scalar : Value → Option Text
  | .text s => some s
  | .other s => some s
  | _ => none

def perlTrue (value : Option Text) : Bool :=
  value ≠ none && value ≠ some [] && value ≠ some ['0']

end Values

section Comparisons

variable (rt : Runtime)

/-- `re.split(r"\s*,\s*", …)` without the empty parts at the end. -/
def splitCommas (s : Text) : List Text :=
  let parts := s.splitOn ','
  let trimmed := parts.mapIdx fun i part ↦
    let part := if i = 0 then part else part.dropWhile isSpace
    if i + 1 = parts.length then part else part.rdropWhile isSpace
  trimmed.rdropWhile fun part ↦ part.isEmpty

/-- A side of a comparison. -/
abbrev Side := List Text ⊕ Text

def equal (check match' : Side) : Bool :=
  let match' := match'.map id rt.lower
  match check, match' with
  | .inl check, .inl match' => !check.isEmpty && !match'.isEmpty && check = match'
  | .inl check, .inr match' =>
    if check.isEmpty || match'.isEmpty then false
    else if match'.contains ',' then check.map rt.lower = splitCommas match'
    else check.map rt.lower = [match']
  | .inr check, .inl match' =>
    if check.isEmpty || match'.isEmpty then false
    else if check.contains ',' then splitCommas check = match'.map rt.lower
    else match'.map rt.lower = [rt.lower check]
  | .inr check, .inr match' => !check.isEmpty && !match'.isEmpty && rt.lower check = match'

def notEqual (check match' : Side) : Bool :=
  match check, match' with
  | .inl check, .inl match' =>
    if !check.isEmpty && !match'.isEmpty then check ≠ match' else true
  | .inl check, .inr match' => !check.any fun c ↦ match' = rt.lower c
  | .inr check, .inl match' => rt.lower check ≠ rt.lower (rt.print (.list match'))
  | .inr check, .inr match' => rt.lower check ≠ rt.lower match'

def contains (check match' : Side) : Bool :=
  match check, match' with
  | _, .inl _ => false
  | .inl check, .inr match' =>
    check.any fun c ↦ rt.regex (rt.lower match') (rt.lower c) = some true
  | .inr check, .inr match' => rt.regex (rt.lower match') (rt.lower check) = some true

def notContains (check match' : Side) : Bool :=
  match check, match' with
  | _, .inl _ => false
  | .inl check, .inr match' => !check.any fun c ↦ rt.lower match' = rt.lower c
  | .inr check, .inr match' => rt.regex (rt.lower match') (rt.lower check) = some false

/-- The comparison of the integers of both sides. -/
def ordered (check match' : Side) (op : ℤ → ℤ → Bool) : Except ValueError Bool :=
  match check, match' with
  | .inr check, .inr match' => do
    let check ← asInteger check
    let match' ← asInteger match'
    match check, match' with
    | some check, some match' => .ok (op check match')
    | _, _ => .ok false
  | _, _ => .ok false

/-- The comparison of a type that orders. -/
def orderedOp : BaseType → Option (ℤ → ℤ → Bool)
  | .greaterThan => some fun check match' ↦ match' < check
  | .greaterThanOrEqual => some fun check match' ↦ match' ≤ check
  | .lessThan => some fun check match' ↦ check < match'
  | .lessThanOrEqual => some fun check match' ↦ check ≤ match'
  | _ => none

def baseCompare (type : BaseType) (check match' : Side) : Except ValueError Bool :=
  match type, orderedOp type with
  | _, some op => ordered check match' op
  | .equal, none => .ok (equal rt check match')
  | .notEqual, none => .ok (notEqual rt check match')
  | .contains, none => .ok (contains rt check match')
  | _, none => .ok (notContains rt check match')

end Comparisons

section Fields

variable (rt : Runtime) (data : Data) (tags : List (Text × Text))

def lookup (name : Text) : Value := (data.lookup name).getD .null

/-- The value that a field stands for, before it is rendered. -/
def checkSource (fieldName : Text) : Side :=
  let rendered := sub tags fieldName
  let fieldValue := if rendered = [] ∨ rendered = ['-'] then fieldName else rendered
  match lookup data fieldValue with
  | .null => .inr fieldValue
  | .list items => .inl items
  | .hash entries => .inr (rt.print (.hash entries))
  | .text s => .inr s
  | .other s => .inr s

def checkValueGet (fieldName : Text) : Except ValueError Side :=
  match checkSource rt data tags fieldName with
  | .inl items => .ok (.inl items)
  | .inr check =>
    if perlTrue (some check) then (valueValidate (sub tags check)).map .inr else .ok (.inr check)

def matchValueGet : Value → Except ValueError (Option Side)
  | .null => .ok none
  | .list items => .ok (some (.inl items))
  | .hash _ => .ok none
  | .text s => (valueValidate (sub tags s)).map fun v ↦ some (.inr v)
  | .other s => (valueValidate (sub tags s)).map fun v ↦ some (.inr v)

/-- The suffix that a module path may have. -/
def dropPm (s : Text) : Text := if ".pm".toList.isSuffixOf s then s.take (s.length - 3) else s

def normalizeModuleMatch (s : Text) : Text := strip (dropPm (strip s))

def resolveConditionModule : Value → Option (Data → Text → Bool)
  | .text s => rt.modules (normalizeModuleMatch s)
  | _ => none

def decided (found : Bool) : Result := if found then .match' else .noMatch

def stringField (value match' : Value) : Result :=
  match scalar match' with
  | none => .noMatch
  | some match' =>
    if match' = [] then .noMatch
    else
      match value with
      | .null => .noMatch
      | .list items => decided (items.any fun i ↦ match' = i)
      | .hash entries => decided (match' = rt.print (.hash entries))
      | .text s => decided (match' = s)
      | .other s => decided (match' = s)

def regexpField (value match' : Value) : Result :=
  match scalar match' with
  | none => .noMatch
  | some pattern =>
    if !perlTrue (some pattern) then .noMatch
    else
      match value with
      | .null => .noMatch
      | .list items => decided (items.any fun i ↦ rt.regex pattern i = some true)
      | .hash entries => decided (rt.regex pattern (rt.print (.hash entries)) = some true)
      | .text s => decided (perlTrue (some s) && rt.regex pattern s = some true)
      | .other s => decided (perlTrue (some s) && rt.regex pattern s = some true)

def arrayField (value match' : Value) : Result :=
  match match' with
  | .list wanted =>
    let have' := match value with
      | .null => []
      | .list items => items
      | .hash entries => [rt.print (.hash entries)]
      | .text s => [s]
      | .other s => [s]
    decided (wanted.foldl (fun found m ↦ found + have'.countP fun i ↦ i = m) 0 = wanted.length)
  | _ => .error

def hashField (value match' : Value) : Result :=
  match match' with
  | .hash wanted =>
    match value with
    | .hash entries =>
      if entries.isEmpty then .noMatchQuiet
      else decided (wanted.countP (fun w ↦ (entries.lookup w.1).getD [] = w.2) = wanted.length)
    | _ => .noMatchQuiet
  | _ => .error

def evaluateField (field : Text × Condition) : Except ValueError Result :=
  let value := lookup data field.1
  match conditionTypes.lookup field.2.type with
  | some .string => .ok (stringField rt value field.2.match')
  | some .regexp => .ok (regexpField rt value field.2.match')
  | some .array => .ok (arrayField rt value field.2.match')
  | some .hash => .ok (hashField value field.2.match')
  | some .module =>
    match resolveConditionModule rt field.2.match' with
    | some validate => .ok (decided (validate data field.1))
    | none => .ok .noMatch
  | some (.base type) => do
    let check ← checkValueGet rt data tags field.1
    let matchValue ← matchValueGet tags field.2.match'
    match matchValue with
    | some match' => (baseCompare rt type check match').map decided
    | none => .ok .noMatch
  | none => .ok .error

end Fields

section Transitions

inductive Linking
  | and
  | or
  | xor
  deriving DecidableEq

def linkings : List (Text × Linking) :=
  [("and".toList, .and), ("or".toList, .or), ("xor".toList, .xor)]

structure Block where
  type : Text
  fields : List (Text × Condition)

namespace Block

def condType (b : Block) : Option Linking :=
  linkings.lookup (if b.type = [] then "and".toList else b.type)

/-- The fields in the order of their names. -/
def sorted (b : Block) : List (Text × Condition) := b.fields.mergeSort fun f f' ↦ f.1 ≤ f'.1

end Block

structure TransitionConfig where
  conditionLinking : Text
  conditions : List Block
  conditionPresent : Bool

def TransitionConfig.hasCondition (cfg : TransitionConfig) : Bool :=
  cfg.conditionPresent || !cfg.conditions.isEmpty

/-- How the loop over the fields of a block ends. -/
inductive Walk
  | returned (result : Bool)
  | skipped
  | counted (success fail : ℕ)
  deriving DecidableEq

variable (rt : Runtime) (data : Data) (tags : List (Text × Text))

def checkFields (linking condType : Linking) :
    List (Text × Condition) → ℕ → ℕ → Except Failure Walk
  | [], success, fail => .ok (.counted success fail)
  | field :: rest, success, fail =>
    match evaluateField rt data tags field with
    | .error e => .error (.value e)
    | .ok .error => .error (.config (.invalidField field.1))
    | .ok .match' =>
      if linking = .or ∧ condType = .or then .ok (.returned true)
      else if linking ≠ .or ∧ condType = .or then .ok .skipped
      else checkFields linking condType rest (success + 1) fail
    | .ok .noMatchQuiet => checkFields linking condType rest success (fail + 1)
    | .ok .noMatch =>
      if linking = .and ∧ condType = .and then .ok (.returned false)
      else if condType = .and then .ok .skipped
      else checkFields linking condType rest success (fail + 1)

/-- Whether a block whose fields are counted holds. -/
def blockOk (condType : Linking) (success fail : ℕ) : Bool :=
  match condType with
  | .and => fail = 0
  | .or => 0 < success
  | .xor => success = 1

def checkBlocks (linking : Linking) : List Block → ℕ → ℕ → Except Failure Bool
  | [], success, fail =>
    match linking with
    | .and => .ok (fail = 0)
    | .or => .ok (0 < success)
    | .xor => .ok (success = 1)
  | block :: rest, success, fail => do
    if block.fields.isEmpty then .error (.config .noFields)
    else
      match block.condType with
      | none => .error (.config .invalidBlockType)
      | some condType =>
        match ← checkFields rt data tags linking condType block.sorted 0 0 with
        | .returned result => .ok result
        | .skipped => checkBlocks linking rest success fail
        | .counted s f =>
          if blockOk condType s f then
            if linking = .or then .ok true
            else checkBlocks linking rest (success + 1) fail
          else if linking = .and ∧ condType ≠ .xor then .ok false
          else checkBlocks linking rest success (fail + 1)

def checkTransition (cfg : TransitionConfig) : Except Failure Bool :=
  if cfg.hasCondition then
    match linkings.lookup cfg.conditionLinking with
    | some linking => checkBlocks rt data tags linking cfg.conditions 0 0
    | none => .error (.config .invalidLinking)
  else .error (.config .noConditions)

end Transitions

end Tiqora.Process
