import Tiqora.Foundation.Regex
import Tiqora.Foundation.Tables
import Tiqora.Foundation.Text

namespace Tiqora.Ai.Pii

open Foundation Regex

/-- The Unicode tables behind `\w` and `re.IGNORECASE`. -/
structure CharacterTables where
  word : Char → Bool
  folding : CaseFolding
  ascii : ∀ c, c.toNat < 128 → word c = (c.isAlphanum || c = '_')

inductive Kind
  | email
  | mac
  | ipv6
  | ipv4
  | phone
  | name
  deriving DecidableEq

def Kind.text : Kind → List Char
  | .email => "EMAIL".toList
  | .mac => "MAC".toList
  | .ipv6 => "IPV6".toList
  | .ipv4 => "IPV4".toList
  | .phone => "PHONE".toList
  | .name => "NAME".toList

def char (c : Char) : Regex Char := one fun d ↦ d = c

def isLocal (c : Char) : Bool := c.isAlphanum || "._%+-".toList.contains c

def isDomain (c : Char) : Bool := c.isAlphanum || ".-".toList.contains c

def isHex (c : Char) : Bool := c.isDigit || "abcdefABCDEF".toList.contains c

def emailRe : Regex Char :=
  all [notBehind isLocal, rep (one isLocal) 1 (some 64), char '@', rep (one isDomain) 1 (some 255),
    char '.', rep (one Char.isAlpha) 2 none,
    notAhead (any [one Char.isAlphanum, all [char '.', one Char.isAlphanum]])]

def macRe : Regex Char :=
  all [boundary, exactly (all [exactly (one isHex) 2, one fun c ↦ c = ':' || c = '-']) 5,
    exactly (one isHex) 2, boundary]

def ipv6Re : Regex Char :=
  all [boundary, rep (all [rep (one isHex) 0 (some 4), char ':']) 2 (some 7),
    rep (one isHex) 0 (some 4), boundary]

def octet : Regex Char :=
  any [all [char '2', char '5', one fun c ↦ '0' ≤ c && c ≤ '5'],
    all [char '2', one fun c ↦ '0' ≤ c && c ≤ '4', one isDigit],
    all [option (char '1'), option (one isDigit), one isDigit]]

def ipv4Re : Regex Char := all [boundary, exactly (all [octet, char '.']) 3, octet, boundary]

def isPhone (c : Char) : Bool := isDigit c || isSpace c || "()./-".toList.contains c

def phoneRe (tables : CharacterTables) : Regex Char :=
  all [notBehind tables.word, option (char '+'), one isDigit, rep (one isPhone) 6 none, one isDigit,
    notAhead (one tables.word)]

def dateLikeRe : Regex Char :=
  any [all [start, rep (one isDigit) 1 (some 2), one fun c ↦ c = '.' || c = '/',
      option (one isSpace), rep (one isDigit) 1 (some 2), one fun c ↦ c = '.' || c = '/',
      option (one isSpace), rep (one isDigit) 2 (some 4), stop],
    all [start, exactly (one isDigit) 4, char '-', exactly (one isDigit) 2, char '-',
      exactly (one isDigit) 2, stop]]

def identifierDigitCounts : List ℕ := [6, 9, 10]

def numberSeparatorRe : Regex Char := plus (one fun c ↦ isSpace c || c = '/' || c = '.')

def phoneLabels : List (List Char) :=
  ["tel".toList, "telefon".toList, "phone".toList, "mobil".toList, "mobile".toList, "handy".toList,
    "fax".toList, "durchwahl".toList, "dw".toList]

def phoneLabelRe (tables : CharacterTables) : Regex Char :=
  all [any (phoneLabels.map (literal tables.folding.same)), option (char '.'),
    star (one isSpace), option (char ':'), star (one isSpace), stop]

def jsonNumberValueRe : Regex Char :=
  all [char '"', star (one isSpace), char ':', star (one isSpace), stop]

def lookbehindWindow : ℕ := 32

def inFrontOf (tables : CharacterTables) (pattern : Regex Char) (found : Match Char) : Bool :=
  pattern.isFoundIn tables.word [] (found.behind.take lookbehindWindow).reverse

def timeLikeRe : Regex Char :=
  all [start, option (char ':'), rep (one isDigit) 1 (some 2),
    rep (all [char ':', exactly (one isDigit) 2]) 1 (some 2), stop]

def widenOverDigits (found : Match Char) : List Char :=
  (found.behind.takeWhile isDigitForm).reverse ++ found.value ++ found.ahead.takeWhile isDigitForm

def validateIpv6 (tables : CharacterTables) (found : Match Char) : Bool :=
  !timeLikeRe.isMatch tables.word (strip (widenOverDigits found))

/-- `str.isdigit`. -/
def allDigits (s : List Char) : Bool := s ≠ [] && s.all isDigitForm

def isIdentifier (value : List Char) : Bool :=
  let digits := value.filter fun c ↦ c ≠ '-'
  allDigits digits && identifierDigitCounts.contains digits.length && digits.head? ≠ some '0'

def validatePhone (tables : CharacterTables) (found : Match Char) : Bool :=
  let value := found.value
  if value.countP isDigitForm < 7 then false
  else
    let stripped := strip value
    if dateLikeRe.isMatch tables.word stripped then false
    else if allDigits stripped && inFrontOf tables jsonNumberValueRe found then false
    else if stripped.contains '+' || stripped.contains '(' then true
    else if inFrontOf tables (phoneLabelRe tables) found then true
    else if isIdentifier stripped then false
    else
      let parts := splitPieces (pieces (numberSeparatorRe.matchAt tables.word) 0 [] stripped)
      !(1 < parts.length && parts.all isIdentifier)

/-- What is masked in turn, and which candidates. -/
structure Pass where
  kind : Kind
  pattern : Regex Char
  validate : Match Char → Bool

def patterns (tables : CharacterTables) : List Pass :=
  [⟨.email, emailRe, fun _ ↦ true⟩, ⟨.mac, macRe, fun _ ↦ true⟩,
    ⟨.ipv6, ipv6Re, validateIpv6 tables⟩, ⟨.ipv4, ipv4Re, fun _ ↦ true⟩,
    ⟨.phone, phoneRe tables, validatePhone tables⟩]

/-- A `PiiMapper`. -/
structure Mapper where
  neverMask : List (List Char)
  names : List (List Char)
  tokenByValue : Table (List Char) (List Char)
  valueByToken : Table (List Char) (List Char)
  counters : Kind → ℕ

/-- `__init__`. A set has no order of its own: `knownNames` lists it in the order in which Python
goes through it. -/
def init (tables : CharacterTables) (neverMask knownNames : List (List Char)) : Mapper where
  neverMask := neverMask.filter fun v ↦ v ≠ [] && !emailRe.isFullmatch tables.word v
  names := ((knownNames.map strip).filter fun n ↦ 3 ≤ n.length).dedup.insertionSort
    fun n n' ↦ n'.length ≤ n.length
  tokenByValue := .empty
  valueByToken := .empty
  counters := fun _ ↦ 0

/-- `_name_pattern`, applied as the last pass. -/
def namePass (tables : CharacterTables) (names : List (List Char)) : List Pass :=
  if names = [] then []
  else [⟨.name, any (names.map fun n ↦ all [boundary, literal tables.folding.same n, boundary]),
    fun _ ↦ true⟩]

def tokenText (kind : Kind) (n : ℕ) : List Char :=
  '[' :: (kind.text ++ '_' :: Nat.toDigits 10 n) ++ [']']

namespace Mapper

variable (tables : CharacterTables) (m : Mapper)

/-- `_token_for`. -/
def tokenFor (kind : Kind) (value : List Char) : List Char × Mapper :=
  match m.tokenByValue.find value with
  | none =>
    let n := m.counters kind + 1
    let token := tokenText kind n
    (token, { m with
      counters := fun kind' ↦ if kind' = kind then n else m.counters kind'
      tokenByValue := m.tokenByValue.set value (some token)
      valueByToken := m.valueByToken.set token (some value) })
  | some existing => (existing, m)

/-- `_replace` and `_replace_name`. -/
def replace (pass : Pass) (m : Mapper) (found : Match Char) : List Char × Mapper :=
  if m.neverMask.contains found.value then (found.value, m)
  else if !pass.validate found then (found.value, m)
  else m.tokenFor pass.kind found.value

/-- One `sub`. -/
def apply (result : List Char × Mapper) (pass : Pass) : List Char × Mapper :=
  substitute (replace pass) result.2 (pieces (pass.pattern.matchAt tables.word) 0 [] result.1)

/-- `mask`; no text is the empty one. -/
def mask (text : List Char) : List Char × Mapper :=
  if text = [] then ([], m)
  else (patterns tables ++ namePass tables m.names).foldl (apply tables) (text, m)

/-- `unmask`. -/
def unmask (text : List Char) : List Char :=
  if text = [] then []
  else if m.valueByToken.rows = [] then text
  else
    let tokenRe := any (m.valueByToken.rows.map fun r ↦ literal (fun c d ↦ c = d) r.1)
    (substitute (fun _ found ↦ ((m.valueByToken.find found.value).getD found.value, ())) ()
      (pieces (tokenRe.matchAt tables.word) 0 [] text)).1

/-- `mask` of one text after the other. -/
def maskAll (m : Mapper) : List (List Char) → List (List Char) × Mapper
  | [] => ([], m)
  | text :: texts =>
    let (masked, m₁) := m.mask tables text
    let (rest, m₂) := maskAll m₁ texts
    (masked :: rest, m₂)

end Mapper

end Tiqora.Ai.Pii
