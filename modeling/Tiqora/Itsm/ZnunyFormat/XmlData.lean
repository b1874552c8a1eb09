import Mathlib.Algebra.GroupWithZero.Nat
import Tiqora.Cmdb.ValuesAgain
import Tiqora.Foundation.Dicts
import Tiqora.Itsm.ZnunyFormat.Limits

namespace Tiqora.Itsm.ZnunyFormat

open Foundation Cmdb.Definition Cmdb.Values

structure RefResolver where
  ci : Text → Option ℤ
  catalog : Text → Option ℤ

/-- A resolver that maps every id to itself. -/
structure RefResolver.Identity (resolver : RefResolver) : Prop where
  ci : ∀ n : ℤ, resolver.ci (intText n) = some n
  catalog : ∀ n : ℤ, resolver.catalog (intText n) = some n

structure AttrIssue where
  code : String
  path : Text
  value : Text
  deriving DecidableEq

/-- The id-valued types that are Znuny ids already. -/
def isPlainId : AttributeType → Bool
  | .catalog | .ciRef | .attachment => false
  | kind => kind.isIntId

/-- The pattern `[+-]?\d{1,18}` for a text without white space at its ends. -/
def isShortInt (s : Text) : Bool := isIntPattern s && (readSign s).2.length ≤ 18

def strptimeMonth : Text → Option ℕ
  | [m] => if m.isDigit ∧ m ≠ '0' then some (readDigits [m]) else none
  | [m, o] =>
    if m.isDigit ∧ o.isDigit ∧ 1 ≤ readDigits [m, o] ∧ readDigits [m, o] ≤ 12 then
      some (readDigits [m, o]) else none
  | _ => none

def strptimeDay : Text → Option ℕ
  | [d] => if d.isDigit ∧ d ≠ '0' then some (readDigits [d]) else none
  | [d, t] =>
    if d = ' ' then if t.isDigit ∧ t ≠ '0' then some (readDigits [t]) else none
    else if d.isDigit ∧ (t.isDigit ∨ (d = '1' ∨ d = '2') ∧ isDigit t) ∧ 1 ≤ readDigits [d, t] ∧
        readDigits [d, t] ≤ 31 then some (readDigits [d, t]) else none
  | _ => none

/-- Whether `strptime(s, "%Y-%m-%d")` takes a text. -/
def isStrptime (s : Text) : Bool :=
  match s with
  | y :: e :: a :: r :: '-' :: rest =>
    match rest.dropWhile (· ≠ '-') with
    | '-' :: day =>
      match strptimeMonth (rest.takeWhile (· ≠ '-')), strptimeDay day with
      | some month, some day =>
        let year := readDigits [y, e, a, r]
        [y, e, a, r].all isDigit && 1 ≤ year &&
          day ≤ Civil.monthLength (12 * (year - 1) + (month - 1))
      | _, _ => false
    | _ => false
  | _ => false

/-- The text with a `T` and with seconds of a text of the pattern of a moment. -/
def momentText (s : Text) : Option Text :=
  if isDatetimePattern s then
    some (s.take 10 ++ 'T' :: s.drop 11 ++ if s.length = 16 then ":00".toList else [])
  else none

/-- What `str` prints; `print` prints lists and mappings. -/
def str (print : Raw → Text) : Raw → Text
  | .null => "None".toList
  | .bool true => "True".toList
  | .bool false => "False".toList
  | .int n => intText n
  | .float x => x.repr
  | .str s => s
  | v => print v

def text (print : Raw → Text) : Raw → Text
  | .null => []
  | v => str print v

section Read

variable (print : Raw → Text) (L : Lib) (resolver : RefResolver)

def resolved (raw path : Text) : Option ℤ → Raw × List AttrIssue
  | none => (.str raw, [⟨"unresolved_reference", path, raw⟩])
  | some n => (.int n, [])

def badValue (raw path : Text) : Raw × List AttrIssue := (.str raw, [⟨"bad_value", path, raw⟩])

/-- The stored scalar for a Znuny `Content` string. -/
def convertValue (kind : AttributeType) (raw path : Text) : Raw × List AttrIssue :=
  if kind = .group ∨ raw = [] then (.null, [])
  else if kind = .catalog then resolved raw path (resolver.catalog raw)
  else if kind = .ciRef then resolved raw path (resolver.ci raw)
  else if kind = .integer ∨ isPlainId kind then
    if isShortInt (strip raw) then (.int (signedValue (strip raw)), []) else badValue raw path
  else if kind = .date then
    if isStrptime (strip raw) then (.str (strip raw), []) else badValue raw path
  else if kind = .datetime then
    match momentText (strip raw) with
    | none => badValue raw path
    | some out => if (L.fromisoformat out).isSome then (.str out, []) else badValue raw path
  else if kind = .attachment then (.null, [⟨"bad_value", path, raw.take 80⟩])
  else (.str raw, [])

def isAttributeList : Raw → Bool
  | .list items => items.any fun e ↦ e.dict?.isSome
  | _ => false

/-- The attributes below an entry. -/
abbrev Reader := Dict → Text → Dict × List AttrIssue

def readEntry (spec : AttributeSpec) (below : Option Reader) (path : Text) (entry : Dict) :
    Raw × List AttrIssue :=
  let (v, bad) := convertValue L resolver spec.type (text print (get entry "Content")) path
  match below with
  | some read =>
    let (s, found) := read entry (path ++ ['.'])
    (.dict [("v".toList, v), ("s".toList, .dict s)], bad ++ found)
  | none =>
    (.dict [("v".toList, v)], bad ++ (entry.filter fun (k, v) ↦
      k ≠ "Content".toList ∧ isAttributeList v).map fun (k, _) ↦
        ⟨"unknown_attribute", path ++ '.' :: k, k⟩)

def readEntries (spec : AttributeSpec) (below : Option Reader) (path : Text) (entries : List Dict) :
    List Raw × List AttrIssue :=
  let found := (entries.zipIdx 1).map fun (entry, idx) ↦
    readEntry print L resolver spec below (path ++ '[' :: Nat.toDigits 10 idx ++ [']']) entry
  (found.map Prod.fst, found.flatMap Prod.snd)

def orNull (s : Text) : Raw := if s = [] then .null else .str s

/-- What is not in the class definition is kept as text and reported. -/
def readUnknown (attrs : List AttributeDef) (node : Dict) (start : Text)
    (acc : Dict × List AttrIssue) : Dict × List AttrIssue :=
  node.foldl (fun (out, issues) (key, value) ↦
    if key ∈ attrs.map (·.key) ∨ ¬ isAttributeList value then (out, issues)
    else (setItem out key (.list ((entriesOf value).map fun e ↦
      .dict [("v".toList, orNull (text print (get e "Content")))])),
      issues ++ [⟨"unknown_attribute", start ++ key, key⟩])) acc

mutual

def readAttrs : List AttributeDef → Dict → Text → Dict × List AttrIssue → Dict × List AttrIssue
  | [], _, _, acc => acc
  | a :: attrs, node, start, (out, issues) =>
    let (kept, found) := readAttr a ((node.lookup a.key).getD .null) (start ++ a.key)
    readAttrs attrs node start
      (if kept.isEmpty then out else setItem out a.key (.list kept), issues ++ found)

def readAttr : AttributeDef → Raw → Text → List Raw × List AttrIssue
  | .mk spec sub, value, path =>
    readEntries print L resolver spec (if sub.isEmpty then none else some fun node start ↦
      readUnknown print sub node start (readAttrs sub node start ([], []))) path (entriesOf value)

end

def toAttributes (attrs : List AttributeDef) : Reader := fun node start ↦
  readUnknown print attrs node start (readAttrs print L resolver attrs node start ([], []))

/-- The attribute values of XMLData, and what could not be mapped cleanly. -/
def xmldataToAttributes (attrs : List AttributeDef) (xmlData : Dict) :
    Except ValueError (Dict × List AttrIssue) := do
  guardXmlData xmlData
  return toAttributes print L resolver attrs xmlData []

end Read

section Write

variable (print : Raw → Text)

/-- `s.replace("T", " ", 1)`. -/
def blankT : Text → Text
  | [] => []
  | c :: s => if c = 'T' then ' ' :: s else c :: blankT s

def toContent (kind : AttributeType) (value : Raw) : Text :=
  match value with
  | .null => []
  | .str s => if kind = .datetime then blankT s else s
  | value => str print value

def writeBelow : Option (Dict → Dict) → Raw → Dict
  | some write, .dict sub => write sub
  | _, _ => []

def writeEntry (spec : AttributeSpec) (below : Option (Dict → Dict)) (entry : Dict) : Dict :=
  setItem (writeBelow below (get entry "s")) "Content".toList
    (.str (toContent print spec.type (get entry "v")))

mutual

def writeAttrs : List AttributeDef → Dict → Dict → Dict
  | [], _, out => out
  | a :: attrs, values, out =>
    let entries := writeAttr a ((values.lookup a.key).getD .null)
    writeAttrs attrs values (if entries.isEmpty then out else setItem out a.key (.list entries))

def writeAttr : AttributeDef → Raw → List Raw
  | .mk spec sub, value =>
    (entriesOf value).map fun entry ↦
      .dict (writeEntry print spec (if sub.isEmpty then none else some fun s ↦
        writeAttrs sub s []) entry)

end

/-- The XMLData of attribute values. -/
def attributesToXmldata (attrs : List AttributeDef) (attributes : Dict) : Dict :=
  writeAttrs print attrs attributes []

end Write

end Tiqora.Itsm.ZnunyFormat
