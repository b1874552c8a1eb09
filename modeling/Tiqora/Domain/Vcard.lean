import Mathlib.Data.List.Infix
import Mathlib.Algebra.GroupWithZero.Nat
import Tiqora.Foundation.Dicts
import Tiqora.Foundation.Replace
import Tiqora.Foundation.Text

namespace Tiqora.Domain.Vcard

open Foundation

abbrev Text := List Char

/-- What `str` methods, `phonenumbers`, `quopri`, `base64` and the C library answer. -/
structure Lib where
  lower : Text → Text
  upper : Text → Text
  upper_ascii : ∀ s : Text, (∀ c ∈ s, c.toNat < 128) → upper s = s.map Char.toUpper
  /-- Whether a valid number is a mobile one, and the number in the format E.164. -/
  phone : Text → Text → Option (Bool × Text)
  /-- The text of a year for `%Y`. -/
  year : ℕ → Text
  year_digits : ∀ n, ∀ c ∈ year n, isDigit c = true
  /-- The text of a charset in a quoted-printable value. -/
  quoted : Text → Text → Text
  base64 : Text → Option (List ℕ)

structure Datetime where
  year : ℕ
  month : ℕ
  day : ℕ
  hour : ℕ
  minute : ℕ
  second : ℕ

structure CustomerUser where
  login : Text
  email : Option Text
  title : Option Text
  firstName : Option Text
  lastName : Option Text
  phone : Option Text
  fax : Option Text
  mobile : Option Text
  street : Option Text
  zip : Option Text
  city : Option Text
  country : Option Text
  changeTime : Option Datetime

section Export

variable (lib : Lib)

def crlf : Text := ['\r', '\n']

/-- The line breaks of a text as line feeds. -/
def lf (s : Text) : Text := replaceAll ['\r'] ['\n'] (replaceAll crlf ['\n'] s)

def trim (value : Option Text) : Text := strip (value.getD [])

def esc (value : Option Text) : Text :=
  replaceAll [';'] ['\\', ';'] (replaceAll [','] ['\\', ','] (replaceAll ['\n'] ['\\', 'n']
    (lf (replaceAll ['\\'] ['\\', '\\'] (trim value)))))

def maxOctets : ℕ := 75

def octets (s : Text) : ℕ := (s.map Char.utf8Size).sum

/-- The physical lines of a line, with the one that is being filled and its octets. -/
def foldFrom : Text → ℕ → Text → List Text
  | current, _, [] => [current]
  | current, size, c :: s =>
    if maxOctets < size + c.utf8Size then current :: foldFrom [' ', c] (1 + c.utf8Size) s
    else foldFrom (current ++ [c]) (size + c.utf8Size) s

def fold (line : Text) : Text := crlf.intercalate (foldFrom [] 0 line)

inductive Kind
  | work
  | cell
  | fax

def Kind.text : Kind → Text
  | .work => "WORK".toList
  | .cell => "CELL".toList
  | .fax => "FAX".toList

def tel (region : Text) (raw : Option Text) (kind : Kind) : Option (Kind × Text) :=
  let value := trim raw
  if value = [] then none
  else match lib.phone value region with
    | none => some (kind, value)
    | some (mobile, number) =>
      match kind with
      | .work => some (if mobile then .cell else .work, number)
      | _ => some (kind, number)

def strftime (t : Datetime) : Text :=
  lib.year t.year ++ zfill 2 t.month ++ zfill 2 t.day ++ ['T'] ++ zfill 2 t.hour ++
    zfill 2 t.minute ++ zfill 2 t.second ++ ['Z']

/-- A line, with what stands before its first colon. -/
def entry (head value : Text) : Text := head ++ ':' :: value

def nameValue (cu : CustomerUser) : Text :=
  esc (some (trim cu.lastName)) ++ ';' :: (esc (some (trim cu.firstName)) ++ ';' :: ';' ::
    (esc (some (trim cu.title)) ++ [';']))

def fullName (cu : CustomerUser) : Text :=
  let full := [' '].intercalate ([trim cu.firstName, trim cu.lastName].filter (· ≠ []))
  if full = [] then cu.login else full

def orgLine (companyName : Option Text) : List Text :=
  if trim companyName = [] then [] else [entry "ORG".toList (esc companyName)]

def emailLine (cu : CustomerUser) : List Text :=
  if trim cu.email = [] then [] else [entry "EMAIL;TYPE=INTERNET".toList (esc cu.email)]

def telHead (kind : Kind) : Text := "TEL;TYPE=".toList ++ kind.text

def telLines (cu : CustomerUser) (region : Text) : List Text :=
  [(cu.phone, Kind.work), (cu.mobile, .cell), (cu.fax, .fax)].filterMap fun p ↦
    (tel lib region p.1 p.2).map fun t ↦ entry (telHead t.1) (esc (some t.2))

def addressLine (cu : CustomerUser) : List Text :=
  if [cu.street, cu.city, cu.zip, cu.country].any fun v ↦ trim v ≠ [] then
    [entry "ADR;TYPE=WORK".toList (";;".toList ++ esc cu.street ++ ';' :: (esc cu.city ++
      ';' :: ';' :: (esc cu.zip ++ ';' :: esc cu.country)))]
  else []

def revLine (cu : CustomerUser) : List Text :=
  match cu.changeTime with
  | none => []
  | some t => [entry "REV".toList (strftime lib t)]

def vcardLines (cu : CustomerUser) (companyName : Option Text) (region : Text) : List Text :=
  [entry "BEGIN".toList "VCARD".toList, entry "VERSION".toList "3.0".toList,
      entry "N".toList (nameValue cu), entry "FN".toList (esc (some (fullName cu)))] ++
    orgLine companyName ++ emailLine cu ++ telLines lib cu region ++ addressLine cu ++
    [entry "UID".toList ("tiqora-customer-".toList ++ esc (some cu.login))] ++ revLine lib cu ++
    [entry "END".toList "VCARD".toList]

def buildVcard (cu : CustomerUser) (companyName : Option Text) (region : Text) : Text :=
  (vcardLines lib cu companyName region).flatMap fun line ↦ fold line ++ crlf

end Export

structure ParsedVCard where
  index : ℕ
  displayName : Text
  firstName : Option Text
  lastName : Option Text
  emails : List Text
  phone : Option Text
  mobile : Option Text
  org : Option Text
  title : Option Text
  photo : Option (List ℕ)

def ParsedVCard.new (index : ℕ) : ParsedVCard :=
  ⟨index, [], none, none, [], none, none, none, none, none⟩

abbrev Params := List (Text × List Text)

structure Property where
  name : Text
  params : Params
  value : Text

section Scanners

/-- Split outside double quotes, with the splits that are left. -/
def splitUnquotedFrom (sep : Char) : Text → Bool → Option ℕ → Text → List Text
  | current, _, _, [] => [current]
  | current, quoted, left, c :: s =>
    if c = '"' then splitUnquotedFrom sep (current ++ [c]) (!quoted) left s
    else if c = sep ∧ quoted = false ∧ left ≠ some 0 then
      current :: splitUnquotedFrom sep [] quoted (left.map (· - 1)) s
    else splitUnquotedFrom sep (current ++ [c]) quoted left s

def splitUnquoted (text : Text) (sep : Char) (maxsplit : Option ℕ) : List Text :=
  splitUnquotedFrom sep [] false maxsplit text

def splitEscapedFrom (sep : Char) : Text → Bool → Text → List Text
  | current, _, [] => [current]
  | current, escaped, c :: s =>
    if escaped then splitEscapedFrom sep (current ++ ['\\', c]) false s
    else if c = '\\' then splitEscapedFrom sep current true s
    else if c = sep then current :: splitEscapedFrom sep [] false s
    else splitEscapedFrom sep (current ++ [c]) false s

def splitEscaped (value : Text) : List Text := splitEscapedFrom ';' [] false value

def escaped (c : Char) : Char := if c = 'n' ∨ c = 'N' then '\n' else c

/-- The pattern `\\(.)` replaced by what it escapes. -/
def unescapeText : Text → Text
  | [] => []
  | [c] => [c]
  | c :: d :: s =>
    if c = '\\' then
      if d = '\n' then c :: d :: unescapeText s else escaped d :: unescapeText s
    else c :: unescapeText (d :: s)

def unescape (value : Text) : Text := strip (unescapeText value)

/-- The split at the pattern `\r\n|\r|\n`. -/
def splitLinesFrom : Text → Text → List Text
  | current, [] => [current]
  | current, '\r' :: '\n' :: s => current :: splitLinesFrom [] s
  | current, c :: s =>
    if c = '\r' ∨ c = '\n' then current :: splitLinesFrom [] s
    else splitLinesFrom (current ++ [c]) s

def splitLines (text : Text) : List Text := splitLinesFrom [] text

end Scanners

section Import

variable (lib : Lib)

def isGroupChar (c : Char) : Bool := c.isAlphanum || c = '-'

def dropGroup (s : Text) : Text :=
  match s.takeWhile isGroupChar, s.dropWhile isGroupChar with
  | _ :: _, '.' :: rest => rest
  | _, _ => s

/-- What `setdefault` and `extend` make of the values of a key. -/
def extend (params : Params) (key : Text) (values : List Text) : Params :=
  setItem params key ((params.lookup key).getD [] ++ values)

def stripQuotes (s : Text) : Text := (s.dropWhile (· = '"')).rdropWhile (· = '"')

def isBareEncoding (bare : Text) : Bool :=
  ["BASE64".toList, "B".toList, "QUOTED-PRINTABLE".toList].contains bare

def addParam (params : Params) (piece : Text) : Params :=
  let key := lib.upper (strip (piece.takeWhile (· ≠ '=')))
  match piece.dropWhile (· ≠ '=') with
  | [] =>
    if isBareEncoding key then extend params "ENCODING".toList [key]
    else extend params "TYPE".toList [key]
  | _ :: raw =>
    extend params key ((((stripQuotes (strip raw)).splitOn ',').map strip).filter (· ≠ []))

def parseHead (head : Text) : Text × Params :=
  let pieces := splitUnquoted head ';' none
  (lib.upper (dropGroup (strip (pieces.headD []))), pieces.tail.foldl (addParam lib) [])

def parseProperty (line : Text) : Option Property :=
  match splitUnquoted line ':' (some 1) with
  | [head, value] => some ⟨(parseHead lib head).1, (parseHead lib head).2, value⟩
  | _ => none

def quotedPrintable : Text := "QUOTED-PRINTABLE".toList

def isQpSoftBreak (line : Text) : Bool :=
  line.getLast? = some '=' &&
    decide (quotedPrintable <:+: lib.upper ((splitUnquoted line ':' (some 1)).headD []))

/-- The lines with their continuations; the first argument is the last line so far. -/
def logicalFrom : Option Text → List Text → List Text
  | none, [] => []
  | some last, [] => [last]
  | none, raw :: rest => logicalFrom (some raw) rest
  | some last, raw :: rest =>
    if raw.head? = some ' ' ∨ raw.head? = some '\t' then
      logicalFrom (some (last ++ raw.drop 1)) rest
    else if isQpSoftBreak lib last then logicalFrom (some (last.dropLast ++ raw)) rest
    else last :: logicalFrom (some raw) rest

def logicalLines (text : Text) : List Text := logicalFrom lib none (splitLines text)

def Property.types (prop : Property) : List Text :=
  ((prop.params.lookup "TYPE".toList).getD []).map lib.lower

def Property.encoding (prop : Property) : Text :=
  match (prop.params.lookup "ENCODING".toList).getD [] with
  | [] => []
  | first :: _ => lib.upper first

def decodedText (prop : Property) : Text :=
  if prop.encoding lib ≠ quotedPrintable then prop.value
  else
    let charset := ((prop.params.lookup "CHARSET".toList).getD []).headD "utf-8".toList
    lib.quoted charset prop.value

def removeSpace (s : Text) : Text := s.filter fun c ↦ !isSpace c

/-- `value or None` of a text, a number of bytes or a list. -/
def orNone {α : Type} (s : List α) : Option (List α) := if s = [] then none else some s

def photoBytes (prop : Property) : Option (List ℕ) :=
  let value := strip prop.value
  if prop.encoding lib = "B".toList ∨ prop.encoding lib = "BASE64".toList then
    (lib.base64 (removeSpace value)).bind orNone
  else if "data:".toList <+: lib.lower value then
    match value.dropWhile (· ≠ ',') with
    | [] => none
    | _ :: payload =>
      if ";base64".toList <:+: lib.lower (value.takeWhile (· ≠ ',')) then
        (lib.base64 (removeSpace payload)).bind orNone
      else none
  else none

namespace ParsedVCard

variable (card : ParsedVCard)

def setName (value : Text) : ParsedVCard :=
  let parts := (splitEscaped value).map unescape ++ [[], []]
  { card with lastName := orNone (parts.getD 0 []), firstName := orNone (parts.getD 1 []) }

def mailto : Text := "mailto:".toList

def addEmail (value : Text) : ParsedVCard :=
  let email := unescape value
  let email := if mailto <+: lib.lower email then strip (email.drop 7) else email
  if '@' ∈ email ∧ lib.lower email ∉ card.emails.map lib.lower then
    { card with emails := card.emails ++ [email] }
  else card

def addTel (prop : Property) (value : Text) : ParsedVCard :=
  let number := unescape value
  let number := if "tel:".toList <+: lib.lower number then strip (number.drop 4) else number
  if number = [] ∨ "fax".toList ∈ prop.types lib then card
  else if "cell".toList ∈ prop.types lib then
    { card with mobile := some ((card.mobile.bind orNone).getD number) }
  else { card with phone := some ((card.phone.bind orNone).getD number) }

def setOrg (value : Text) : ParsedVCard :=
  { card with org := orNone (unescape ((splitEscaped value).headD [])) }

def apply (prop : Property) : ParsedVCard :=
  if prop.name = "PHOTO".toList then
    if card.photo = none then { card with photo := photoBytes lib prop } else card
  else
    let value := decodedText lib prop
    if prop.name = "FN".toList then { card with displayName := unescape value }
    else if prop.name = "N".toList then card.setName value
    else if prop.name = "EMAIL".toList then card.addEmail lib value
    else if prop.name = "TEL".toList then card.addTel lib prop value
    else if prop.name = "ORG".toList then card.setOrg value
    else if prop.name = "TITLE".toList then { card with title := orNone (unescape value) }
    else card

/-- The card at its end, with a display name of its other values. -/
def finished : ParsedVCard :=
  if card.displayName = [] then
    let full := [' '].intercalate ([card.firstName, card.lastName].filterMap fun p ↦ p.bind orNone)
    let org := (card.org.bind orNone).getD (card.emails.headD [])
    { card with displayName := if full = [] then org else full }
  else card

end ParsedVCard

structure Reading where
  cards : List ParsedVCard
  current : Option ParsedVCard
  depth : ℕ

def isMark (mark : Text) (prop : Property) : Bool :=
  prop.name = mark && lib.upper (strip prop.value) = "VCARD".toList

def Reading.end (r : Reading) : Reading :=
  match r.depth - 1, r.current with
  | 0, some card => ⟨r.cards ++ [card.finished], none, 0⟩
  | depth, current => ⟨r.cards, current, depth⟩

def Reading.take (r : Reading) (prop : Property) : Reading :=
  match r.current with
  | some card => if r.depth = 1 then { r with current := some (card.apply lib prop) } else r
  | none => r

def maxVcardImportCards : ℕ := 500

def parseFrom (maxCards : ℕ) : Reading → List Text → List ParsedVCard × Bool
  | r, [] => (r.cards, false)
  | r, line :: rest =>
    match if strip line = [] then none else parseProperty lib line with
    | none => parseFrom maxCards r rest
    | some prop =>
      if isMark lib "BEGIN".toList prop then
        if r.depth = 0 then
          if maxCards ≤ r.cards.length then (r.cards, true)
          else parseFrom maxCards ⟨r.cards, some (.new r.cards.length), 1⟩ rest
        else parseFrom maxCards { r with depth := r.depth + 1 } rest
      else if isMark lib "END".toList prop then parseFrom maxCards r.end rest
      else parseFrom maxCards (r.take lib prop) rest

/-- The contacts of a text, and whether it was cut at the greatest number of cards. -/
def parseVcards (text : Text) (maxCards : ℕ) : List ParsedVCard × Bool :=
  parseFrom lib maxCards ⟨[], none, 0⟩ (logicalLines lib text)

end Import

end Tiqora.Domain.Vcard
