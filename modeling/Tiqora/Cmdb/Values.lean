import Tiqora.Calendar.Recurrence
import Tiqora.Cmdb.Definition
import Tiqora.Foundation.Guarded

namespace Tiqora.Cmdb.Values

open Foundation Civil Calendar Definition

/-- A float as far as it is read: its `repr`, and its value when it is whole. -/
structure PyFloat where
  repr : Text
  whole : Option ℤ
  deriving DecidableEq

inductive Raw
  | null
  | bool (b : Bool)
  | int (n : ℤ)
  | float (x : PyFloat)
  | str (s : Text)
  | list (items : List Raw)
  | dict (items : List (Text × Raw))

abbrev Dict := List (Text × Raw)

structure ValueIssue where
  path : Text
  code : String
  message : String
  deriving DecidableEq

structure Bad where
  code : String
  message : String
  deriving DecidableEq

def yearText (dt : Datetime) : Text := zfill 4 (yearOf dt.month)

/-- `isoformat(timespec="seconds")`. -/
def isoformat (dt : Datetime) : Text :=
  let seconds := dt.time / 1000000
  yearText dt ++ '-' :: zfill 2 (dt.month % 12 + 1) ++ '-' :: zfill 2 dt.day ++ 'T' ::
    zfill 2 (seconds / 3600) ++ ':' :: zfill 2 (seconds / 60 % 60) ++ ':' :: zfill 2 (seconds % 60)

/-- What is used of the standard library: `urlparse` with the scheme and the host, the texts that
`ipaddress` makes of addresses and of interfaces, `datetime.fromisoformat` with the offset in
microseconds, and the offset in seconds of the zone `now_tz`. -/
structure Lib where
  urlparse : Text → Option (Text × Text)
  address : Text → Option Text
  interface : Text → Option Text
  fromisoformat : Text → Option (Datetime × Option ℤ)
  utcoffset : Datetime → ℤ
  address_text : ∀ {s r}, strip s = s → '/' ∉ s → address s = some r →
    address r = some r ∧ '/' ∉ r ∧ strip r = r ∧ r ≠ []
  interface_text : ∀ {s r}, strip s = s → '/' ∈ s → interface s = some r →
    interface r = some r ∧ '/' ∈ r ∧ strip r = r
  fromisoformat_isoformat : ∀ dt : Datetime, dt.1 % 1000000 = 0 →
    fromisoformat (isoformat dt) = some (dt, none)

def Raw.isEmpty : Raw → Bool
  | .null => true
  | .str s => (strip s).isEmpty
  | _ => false

def Raw.truthy : Raw → Bool
  | .null => false
  | .bool b => b
  | .int n => n ≠ 0
  | .float x => x.whole ≠ some 0
  | .str s => !s.isEmpty
  | .list items => !items.isEmpty
  | .dict items => !items.isEmpty

def maxInt : ℤ := 2 ^ 63 - 1

/-- The digits of the longest int that `str` prints. -/
def maxStrDigits : ℕ := 4300

def notInt : Bad := ⟨"bad_type", "Eine ganze Zahl wird erwartet."⟩

def tooLarge : Bad := ⟨"out_of_range", "Die Zahl ist zu groß."⟩

def readInt (v : Raw) : Except Bad ℤ :=
  match v with
  | .int n => .ok n
  | .float x =>
    match x.whole with
    | some n => .ok n
    | none => .error notInt
  | .str s =>
    let s := strip s
    if isIntPattern s then do
      require (s.length ≤ 40) tooLarge
      let (neg, ds) := readSign s
      return if neg then -(readDigits ds : ℤ) else readDigits ds
    else .error notInt
  | _ => .error notInt

def toInt (v : Raw) : Except Bad ℤ := do
  let n ← readInt v
  require (n.natAbs ≤ maxInt) tooLarge
  return n

def notNumber : Bad := ⟨"bad_type", "Eine Zahl wird erwartet."⟩

def badRange : Bad := ⟨"out_of_range", "Die Zahl ist zu groß, zu klein oder zu genau."⟩

/-- What a number may be, so that no digit is rounded. -/
def InPrecision (d : Decimal) : Prop :=
  d.coeff = 0 ∨ d.adjusted ≤ 30 ∧ -30 ≤ d.adjusted ∧ d.digits ≤ 28

instance (d : Decimal) : Decidable (InPrecision d) := inferInstanceAs (Decidable (_ ∨ _))

def readDecimal (v : Raw) : Except Bad Decimal :=
  match v with
  | .int n =>
    if digitCount n.natAbs ≤ maxStrDigits then .ok (Decimal.ofInt n)
    else .error ⟨"bad_format", "Ungültiger Wert."⟩
  | .float x => (Decimal.read x.repr).elim (.error notNumber) .ok
  | .str s => (Decimal.read (strip s)).elim (.error notNumber) .ok
  | _ => .error notNumber

def toDecimal (v : Raw) : Except Bad Decimal := do
  let d ← readDecimal v
  require (InPrecision d) badRange
  return d

/-- The pattern `\d{4}-\d{2}-\d{2}[T ]\d{2}:\d{2}(:\d{2})?`. -/
def isDatetimePattern (s : Text) : Bool :=
  let date := isDatePattern (s.take 10)
  match s.drop 10 with
  | [c, h, o, ':', m, i] => date && (c = 'T' || c = ' ') && [h, o, m, i].all isDigit
  | [c, h, o, ':', m, i, ':', s, e] =>
    date && (c = 'T' || c = ' ') && [h, o, m, i, s, e].all isDigit
  | _ => false

def badDatetime : Bad := ⟨"bad_format", "Format: JJJJ-MM-TTTHH:MM[:SS]."⟩

/-- A whole second of UTC. -/
def toUtc (dt : Datetime) (offset : ℤ) : Except Bad Datetime :=
  let micros := (dt.1 : ℤ) - offset
  match (if 0 ≤ micros then Datetime.of? (micros.toNat / 1000000 * 1000000) else none) with
  | some utc => .ok utc
  | none => .error ⟨"out_of_range", "Der Zeitpunkt liegt außerhalb des erlaubten Bereichs."⟩

section Coerce

variable (L : Lib) (spec : AttributeSpec)

/-- The moment that a text tells, a time without an offset in the zone. -/
def toMoment (v : Raw) : Except Bad Datetime :=
  match v with
  | .str s =>
    match L.fromisoformat (strip s) with
    | none => .error badDatetime
    | some (dt, none) => do
      require (isDatetimePattern (strip s)) badDatetime
      toUtc dt (L.utcoffset dt * 1000000)
    | some (dt, some offset) => toUtc dt offset
  | _ => .error ⟨"bad_type", "Ein Zeitpunkt als Text wird erwartet."⟩

def defaultMaxLength : AttributeType → ℤ
  | .textarea => 20000
  | .url => 2048
  | .email => 254
  | .ip => 64
  | .mac => 32
  | .customerUser => 250
  | .customerCompany => 150
  | _ => 255

def limit : ℤ := spec.options.maxLength.getD (defaultMaxLength spec.type)

/-- The pattern `[^@\s]+@[^@\s]+\.[^@\s]+`. -/
def isEmail (s : Text) : Bool :=
  let host := (s.dropWhile (· ≠ '@')).drop 1
  s.takeWhile (· ≠ '@') ≠ [] && !s.any isSpace && '@' ∈ s && '@' ∉ host &&
    '.' ∈ (host.drop 1).dropLast

def isHttpUrl (s : Text) : Bool :=
  (L.urlparse s).any fun (scheme, netloc) ↦
    (scheme.map Char.toLower = "http".toList || scheme.map Char.toLower = "https".toList) &&
      netloc ≠ []

def canonicalIp (s : Text) : Option Text := if '/' ∈ s then L.interface s else L.address s

/-- The hexadecimal digits of a MAC address in lower case. -/
def macDigits (s : Text) : Text :=
  (s.filter fun c ↦ ¬ (c = ':' ∨ c = '-' ∨ c = '.' ∨ isSpace c = true)).map Char.toLower

def isHex (c : Char) : Bool := c.isDigit || ('a' ≤ c && c ≤ 'f')

def joinPairs : Text → Text
  | a :: b :: c :: s => a :: b :: ':' :: joinPairs (c :: s)
  | s => s

def textExpected : Bad := ⟨"bad_type", "Ein Text wird erwartet."⟩

def isFreeText : AttributeType → Bool
  | .text | .textarea => true
  | _ => false

def coerceText (v : Raw) : Except Bad Raw :=
  match v with
  | .str given => do
    let s := if isFreeText spec.type then given else strip given
    require (¬ (isFreeText spec.type = true ∧ (strip s).isEmpty = true)) textExpected
    require ((s.length : ℤ) ≤ limit spec)
      ⟨"too_long", "Höchstens " ++ toString (limit spec) ++ " Zeichen."⟩
    match spec.type with
    | .email => do
      require (isEmail s) ⟨"bad_format", "Keine gültige E-Mail-Adresse."⟩
      return .str s
    | .url => do
      require (isHttpUrl L s)
        ⟨"bad_format", "Eine Adresse mit http:// oder https:// wird erwartet."⟩
      return .str s
    | .ip =>
      match canonicalIp L s with
      | some text => return .str text
      | none => .error ⟨"bad_format", "Keine gültige IP-Adresse."⟩
    | .mac => do
      let hexed := macDigits s
      require (hexed.length = 12 ∧ hexed.all isHex) ⟨"bad_format", "Keine gültige MAC-Adresse."⟩
      return .str (joinPairs hexed)
    | _ => return .str s
  | _ => .error textExpected

def checkRange (d : Decimal) : Except Bad Unit :=
  require ((∀ lo ∈ spec.options.min, lo.value ≤ d.value) ∧
    ∀ hi ∈ spec.options.max, d.value ≤ hi.value)
    ⟨"out_of_range", "Der Wert liegt außerhalb des erlaubten Bereichs."⟩

/-- The digits that `strptime` takes for a month and a day. -/
def isStrptimeDate (y e a r m o d t : Char) : Bool :=
  let year := readDigits [y, e, a, r]
  let month := readDigits [m, o]
  let day := readDigits [d, t]
  m.isDigit && o.isDigit && d.isDigit && (t.isDigit || d = '1' || d = '2') && 1 ≤ year &&
    1 ≤ month && month ≤ 12 && 1 ≤ day && day ≤ monthLength (12 * (year - 1) + (month - 1))

def isDate (s : Text) : Bool :=
  match s with
  | [y, e, a, r, '-', m, o, '-', d, t] => isStrptimeDate y e a r m o d t
  | _ => false

def coerceDate (v : Raw) : Except Bad Raw :=
  match v with
  | .str s => do
    require (isDatePattern (strip s)) ⟨"bad_format", "Format: JJJJ-MM-TT."⟩
    require (isDate (strip s)) ⟨"bad_format", "Kein gültiges Datum."⟩
    return .str (strip s)
  | _ => .error ⟨"bad_format", "Format: JJJJ-MM-TT."⟩

/-- The stored form of a value that is not empty. -/
def coerce (v : Raw) : Except Bad Raw :=
  match spec.type with
  | .text | .textarea | .url | .email | .ip | .mac | .customerUser | .customerCompany =>
    coerceText L spec v
  | .integer => do
    let n ← toInt v
    checkRange spec (Decimal.ofInt n)
    return .int n
  | .decimal | .money => do
    let d ← toDecimal v
    checkRange spec d
    return .str d.text
  | .date => coerceDate v
  | .datetime => do
    let utc ← toMoment L v
    return .str (isoformat utc)
  | .group => .error ⟨"bad_type", "Dieser Typ nimmt keinen Wert auf."⟩
  | _ => do
    let n ← toInt v
    return .int n

end Coerce

/-- What becomes of one entry. -/
structure Entry where
  item : Option Raw
  unusable : Bool
  issues : List ValueIssue

/-- The normalisation of the attributes below an entry. -/
abbrev Nested := Dict → Text → Dict × List ValueIssue

section Normalize

variable (L : Lib)

def isPresent (spec : AttributeSpec) (v : Raw) : Bool := spec.type ≠ .group && !v.isEmpty

/-- The value of an entry; `none` when it is bad. -/
def entryValue (spec : AttributeSpec) (path : Text) (v : Raw) : Option Raw × List ValueIssue :=
  if isPresent spec v then
    match coerce L spec v with
    | .ok value => (some value, [])
    | .error bad => (none, [⟨path, bad.code, bad.message⟩])
  else (some .null, [])

def entrySub (nested : Option Nested) (path : Text) (s : Raw) : Dict × List ValueIssue :=
  match nested, s with
  | some _, .null => ([], [])
  | some normalize, .dict items => if items.isEmpty then ([], []) else normalize items (path ++ ['.'])
  | some _, _ => ([], [⟨path, "bad_type", "„s“ muss ein Objekt sein."⟩])
  | none, .dict items => ([], items.map fun (k, _) ↦
      ⟨path ++ '.' :: k, "unknown_key", "Unbekanntes Attribut."⟩)
  | none, s => ([], if s.truthy then [⟨path, "bad_type", "„s“ ist hier nicht erlaubt."⟩] else [])

def get (items : Dict) (key : String) : Raw := (items.lookup key.toList).getD .null

def Raw.isNull : Raw → Bool
  | .null => true
  | _ => false

def itemOf (nested : Option Nested) (value : Raw) (sub : Dict) : Raw :=
  .dict (("v".toList, value) :: if nested.isSome then [("s".toList, .dict sub)] else [])

def normalizeEntry (spec : AttributeSpec) (nested : Option Nested) (path : Text) (entry : Raw) :
    Entry :=
  match entry with
  | .dict items =>
    let (value, bad) := entryValue L spec path (get items "v")
    let (sub, issues) := entrySub nested path (get items "s")
    let found := bad ++ issues
    match value with
    | none => ⟨none, true, found⟩
    | some value =>
      if value.isNull && sub.isEmpty then
        let found := found.filter fun i ↦ i.code ≠ "required" ∧ i.code ≠ "too_few"
        if spec.required then ⟨none, true, found ++ [⟨path, "required", "Pflichtfeld."⟩]⟩
        else ⟨none, false, found⟩
      else ⟨some (itemOf nested value sub), false, found⟩
  | _ => ⟨none, false, [⟨path, "bad_type", "Ein Eintrag mit „v“ wird erwartet."⟩]⟩

def countIssues (spec : AttributeSpec) (path : Text) (count : ℕ) : List ValueIssue :=
  (if spec.countMax < (count : ℤ) then [⟨path, "too_many",
    "Höchstens " ++ toString spec.countMax ++ " Einträge sind erlaubt."⟩] else []) ++
  if (count : ℤ) < spec.countMin then [⟨path, "too_few",
    "Mindestens " ++ toString spec.countMin ++ " Einträge sind nötig."⟩] else []

def normalizeEntries (spec : AttributeSpec) (nested : Option Nested) (path : Text)
    (entries : List Raw) : List Entry :=
  (entries.zipIdx 1).map fun (entry, idx) ↦
    normalizeEntry L spec nested (path ++ '[' :: Nat.toDigits 10 idx ++ [']']) entry

/-- The entries that are kept of an attribute. -/
def normalizeValue (spec : AttributeSpec) (nested : Option Nested) (path : Text) (value : Raw) :
    List Raw × List ValueIssue :=
  match (if value.isNull then .list [] else value) with
  | .list entries =>
    let found := normalizeEntries L spec nested path entries
    let kept := found.filterMap (·.item)
    let unusable := found.countP (·.unusable)
    (kept, found.flatMap (·.issues) ++ countIssues spec path (kept.length + unusable))
  | _ => ([], [⟨path, "bad_type", "Eine Liste von Einträgen wird erwartet."⟩])

def unknownKeys (attrs : List AttributeDef) (raw : Dict) (start : Text) : List ValueIssue :=
  (raw.filter fun (key, _) ↦ key ∉ attrs.map (·.key)).map fun (key, _) ↦
    ⟨start ++ key, "unknown_key", "Unbekanntes Attribut."⟩

mutual

/-- The attributes of a level one by one; their keys are distinct. -/
def normalizeAttrs : List AttributeDef → Nested
  | [], _, _ => ([], [])
  | a :: attrs, raw, start =>
    let (kept, found) := normalizeAttr a ((raw.lookup a.key).getD .null) (start ++ a.key)
    let (rest, issues) := normalizeAttrs attrs raw start
    (if kept.isEmpty then rest else (a.key, .list kept) :: rest, found ++ issues)

def normalizeAttr : AttributeDef → Raw → Text → List Raw × List ValueIssue
  | .mk spec sub, value, path =>
    normalizeValue L spec (if sub.isEmpty then none else some fun raw start ↦
      let (out, issues) := normalizeAttrs sub raw start
      (out, issues ++ unknownKeys sub raw start)) path value

end

def normalizeLevel (attrs : List AttributeDef) : Nested := fun raw start ↦
  let (out, issues) := normalizeAttrs L attrs raw start
  (out, issues ++ unknownKeys attrs raw start)

def normalizeValues (attrs : List AttributeDef) (raw : Dict) : Dict × List ValueIssue :=
  normalizeLevel L attrs raw []

end Normalize

end Tiqora.Cmdb.Values
