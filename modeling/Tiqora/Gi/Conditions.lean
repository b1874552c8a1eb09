import Mathlib.Algebra.GroupWithZero.Nat
import Mathlib.Data.Char
import Mathlib.Data.Int.Notation
import Mathlib.Data.List.Lex
import Tiqora.Foundation.Text

namespace Tiqora.Gi.Conditions

open Foundation

abbrev Text := List Char

inductive Key
  | text (s : Text)
  | number (n : ℤ)
  deriving DecidableEq

/-- `str(key)`. -/
def Key.str : Key → Text
  | .text s => s
  | .number n => (toString n).toList

/-- A value of the configuration or of the event data. Of a number or a truth value `perl_str` and
whether it is other than 0 are read. -/
inductive Value
  | null
  | number (printed : Text) (nonzero : Bool)
  | str (s : Text)
  | list (items : List Value)
  | dict (items : List (Key × Value))

abbrev Dict := List (Key × Value)

/-- What `str` makes of lists and dictionaries, and the patterns of the `regex` package: none for
an invalid one, and no answer of a search that takes too long. -/
structure Runtime where
  print : Value → Text
  compile : Text → Except Text (Text → Option Bool)

namespace Value

def isContainer : Value → Bool
  | .list _ => true
  | .dict _ => true
  | _ => false

/-- `perl_truthy`. -/
def truthy : Value → Bool
  | .null => false
  | .number _ nonzero => nonzero
  | .str s => s ≠ [] && s ≠ ['0']
  | _ => true

def get (v : Value) (name : String) : Value :=
  match v with
  | .dict items => (items.lookup (.text name.toList)).getD .null
  | _ => .null

def isNull : Value → Bool
  | .null => true
  | _ => false

def isDict : Value → Bool
  | .dict _ => true
  | _ => false

/-- A dictionary that is not empty. -/
def filled : Value → Option Dict
  | .dict (item :: items) => some (item :: items)
  | _ => none

end Value

/-- The key that is no block. -/
def linkingKey : Key := .text "ConditionLinking".toList

/-- `sorted(items, key=str)`. -/
def byName (items : Dict) : Dict := items.mergeSort fun a b ↦ a.1.str ≤ b.1.str

inductive Linking
  | and
  | or
  | xor
  deriving DecidableEq

def linkings : List (Text × Linking) :=
  [("and".toList, .and), ("or".toList, .or), ("xor".toList, .xor)]

inductive FieldType
  | string
  | hash
  | array
  | regexp
  | module
  deriving DecidableEq

def fieldTypes : List (Text × FieldType) :=
  [("String".toList, .string), ("Hash".toList, .hash), ("Array".toList, .array),
    ("Regexp".toList, .regexp), ("Module".toList, .module)]

inductive Outcome
  | match'
  | fail
  | failSoft
  | none
  | error
  deriving DecidableEq

/-- What is read of a field. -/
structure Spec where
  type : Value
  hasMatch : Bool
  match' : Value

def readSpec (v : Value) : Spec :=
  match v with
  | .list items => ⟨.str "Array".toList, true, .list items⟩
  | .dict items => ⟨v.get "Type", (items.lookup (.text "Match".toList)).isSome, v.get "Match"⟩
  | v => ⟨.str "String".toList, true, v⟩

/-- The type that the check of a field is chosen by; a type that is no text chooses none. -/
def Spec.fieldType (spec : Spec) : Option FieldType :=
  match spec.type with
  | .str type => fieldTypes.lookup type
  | _ => none

/-- The pattern `\Ajq#(.+)`. -/
def isJqField (name : Text) : Bool :=
  match name with
  | j :: q :: '#' :: _ :: _ => (j = 'j' || j = 'J') && (q = 'q' || q = 'Q')
  | _ => false

section Check

variable (rt : Runtime)

def perlStr (v : Value) : Text :=
  match v with
  | .null => []
  | .number printed _ => printed
  | .str s => s
  | v => rt.print v

/-- The text of a scalar. -/
def scalar (v : Value) : Option Text := if v.isContainer then none else some (perlStr rt v)

def linkingOf (raw : Value) : Option Linking :=
  linkings.lookup (if raw.truthy then perlStr rt raw else "and".toList)

def hasFieldType (spec : Spec) : Bool :=
  (fieldTypes.lookup (if spec.type.truthy then perlStr rt spec.type else "String".toList)).isSome

/-- A text to compare with, which may be `0`. -/
def isText (match' : Value) : Bool :=
  (match'.truthy || perlStr rt match' = ['0']) && !match'.isContainer

def isPattern (spec : Spec) : Bool :=
  spec.hasMatch && spec.match'.truthy && !spec.match'.isContainer

variable (data : Dict)

/-- The values under `<name>_<n>`. -/
def arrayFields (name : Text) : List Value :=
  (data.filter fun (key, _) ↦
    match key with
    | .text k =>
      (name ++ ['_']).isPrefixOf k && k.drop (name.length + 1) ≠ [] &&
        (k.drop (name.length + 1)).all isDigit
    | .number _ => false).map (·.2)

def found (b : Bool) : Outcome := if b then .match' else .fail

def checkString (name : Text) (value match' : Value) : Outcome :=
  let wanted := perlStr rt match'
  if isJqField name || value.truthy || perlStr rt value = ['0'] && !value.isNull then
    match value with
    | .list items => found (items.any fun item ↦ scalar rt item = some wanted)
    | .dict _ => .fail
    | value => found (wanted = perlStr rt value)
  else found ((arrayFields data name).any fun item ↦ scalar rt item = some wanted)

def checkArray (value : Value) (match' : List Value) : Outcome :=
  let present := match value with
    | .list items => items.map (scalar rt)
    | _ => []
  found ((match'.map fun wanted ↦ present.count (scalar rt wanted)).sum = match'.length)

def checkHash (value : Value) (match' : Dict) : Outcome :=
  match value with
  | .dict items =>
    found (match'.countP (fun (key, wanted) ↦
      scalar rt ((items.lookup key).getD .null) = scalar rt wanted) = match'.length)
  | _ => .failSoft

/-- The first value that the pattern is found in. -/
def anyHit (search : Text → Option Bool) (label : Text) : List Value → Bool × List Text
  | [] => (false, [])
  | value :: values =>
    match (scalar rt value).elim (some false) search with
    | some true => (true, [])
    | some false => anyHit search label values
    | none =>
      let (hit, warnings) := anyHit search label values
      (hit, (label ++ ": regulärer Ausdruck überschritt 0.2s".toList) :: warnings)

def checkRegexp (name : Text) (value : Value) (search : Text → Option Bool) (label : Text) :
    Outcome × List Text :=
  let values := match value with
    | .list items => items
    | .dict _ => []
    | value => [value]
  let (hit, warnings) := anyHit rt search label
    (if value.truthy then values else arrayFields data name)
  (found hit, warnings)

def checkField (name : Text) (spec : Spec) (label : Text) : Outcome × List Text :=
  let value := (data.lookup (.text name)).getD .null
  match spec.fieldType with
  | some .string =>
    if isText rt spec.match' then (checkString rt data name value spec.match', [])
    else (.error, [label ++ ": Match muss ein String sein, wenn Type String ist".toList])
  | some .array =>
    match spec.match' with
    | .list items => (checkArray rt value items, [])
    | _ => (.error, [label ++ ": Match muss eine Liste sein, wenn Type Array ist".toList])
  | some .hash =>
    match spec.match' with
    | .dict items => (checkHash rt value items, [])
    | _ => (.error, [label ++ ": Match muss ein Hash sein".toList])
  | some .regexp =>
    if isPattern spec then
      match rt.compile (perlStr rt spec.match') with
      | .error e => (.error, [label ++ ": ".toList ++ e])
      | .ok search => checkRegexp rt data name value search label
    else
      (.error, [label ++ ": Match muss ein regulärer Ausdruck sein, wenn Type Regexp ist".toList])
  | some .module =>
    (.fail, ["Bedingung vom Typ Module wird in Tiqora nicht ausgewertet".toList])
  | none => (.none, [])

/-- How the loop over the fields of a block ends. -/
inductive Walk
  | returned (result : Bool)
  | skipped
  | counted (success fail : ℕ)
  deriving DecidableEq

def jqWarning (name : Text) : Text :=
  "Feld ".toList ++ name ++ (": jq-Ausdrücke werden in Tiqora nicht ausgewertet" ++
    " (Bedingung trifft nie zu)").toList

def checkFields (linking condType : Linking) (start : Text) :
    Dict → ℕ → ℕ → List Text → Walk × List Text
  | [], success, fail, warnings => (.counted success fail, warnings)
  | (key, v) :: rest, success, fail, warnings =>
    let name := key.str
    let spec := readSpec v
    let label := start ++ "->Fields->".toList ++ name
    if !hasFieldType rt spec then
      (.returned false, warnings ++ [label ++ ": ungültiger Typ".toList])
    else
      let warnings := if isJqField name then warnings ++ [jqWarning name] else warnings
      let (outcome, more) := checkField rt data name spec label
      let warnings := warnings ++ more
      match outcome with
      | .error => (.returned false, warnings)
      | .none => checkFields linking condType start rest success fail warnings
      | .match' =>
        if linking = .or ∧ condType = .or then (.returned true, warnings)
        else if linking ≠ .or ∧ condType = .or then (.skipped, warnings)
        else checkFields linking condType start rest (success + 1) fail warnings
      | .failSoft => checkFields linking condType start rest success (fail + 1) warnings
      | .fail =>
        if linking = .and ∧ condType = .and then (.returned false, warnings)
        else if condType = .and then (.skipped, warnings)
        else checkFields linking condType start rest success (fail + 1) warnings

/-- Whether a block whose fields are counted holds. -/
def blockOk (condType : Linking) (success fail : ℕ) : Bool :=
  match condType with
  | .and => fail = 0
  | .or => 0 < success
  | .xor => success = 1

def checkBlocks (linking : Linking) : Dict → ℕ → ℕ → List Text → Bool × List Text
  | [], success, fail, warnings =>
    match linking with
    | .and => (fail = 0, warnings)
    | .or => (0 < success, warnings)
    | .xor => (success = 1, warnings)
  | (key, actual) :: rest, success, fail, warnings =>
    let start := "Condition->".toList ++ key.str
    if key = linkingKey then checkBlocks linking rest success fail warnings
    else
      match (actual.get "Fields").filled with
      | none => (false, warnings ++ [start ++ ": keine Fields vorhanden".toList])
      | some fields =>
        match linkingOf rt (actual.get "Type") with
        | none => (false, warnings ++ [start ++ "->Type ist ungültig".toList])
        | some condType =>
          match checkFields rt data linking condType start (byName fields) 0 0 warnings with
          | (.returned result, warnings) => (result, warnings)
          | (.skipped, warnings) => checkBlocks linking rest success fail warnings
          | (.counted s f, warnings) =>
            if blockOk condType s f then
              if linking = .or then (true, warnings)
              else checkBlocks linking rest (success + 1) fail warnings
            else if linking = .and ∧ condType ≠ .xor then (false, warnings)
            else checkBlocks linking rest success (fail + 1) warnings

end Check

/-- The result and the warnings. -/
def conditionCheck (rt : Runtime) (condition data : Value) : Bool × List Text :=
  if !condition.isDict || (condition.get "Condition").isNull then
    (false, ["Bedingung fehlt".toList])
  else
    match data.filled, (condition.get "Condition").filled with
    | none, _ => (false, ["Ereignisdaten sind leer".toList])
    | some _, none => (false, ["Bedingung enthält keine Werte".toList])
    | some data, some conditions =>
      match linkingOf rt (condition.get "ConditionLinking") with
      | none => (false, ["Ungültiges ConditionLinking".toList])
      | some linking => checkBlocks rt data linking (byName conditions) 0 0 []

end Tiqora.Gi.Conditions
