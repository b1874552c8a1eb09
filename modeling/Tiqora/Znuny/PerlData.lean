import Mathlib.Algebra.Ring.Int.Defs
import Tiqora.Foundation.Place

namespace Tiqora.Znuny.PerlData

open Foundation

abbrev Text := List Char

def maxTextChars : ℕ := 1024 * 1024

/-- The digits that `int` reads at most; beyond them it raises `ValueError`. -/
def maxIntDigits : ℕ := 4300

def isBarewordStart (c : Char) : Bool := c.isAlpha || c == '_'

def isBareword (c : Char) : Bool := isBarewordStart c || c.isDigit || c == ':'

def isWhitespace (c : Char) : Bool :=
  c == ' ' || c == '\t' || c == '\r' || c == '\n' || c == '\x0c' || c == '\x0b'

/-- What the escapes of a string stand for. -/
def escapes (quote c : Char) : Option Char :=
  if c = '\\' ∨ c = '\'' then some c
  else if quote = '\'' then none
  else if c = '"' then some '"'
  else if c = 'n' then some '\n'
  else if c = 't' then some '\t'
  else none

inductive Message
  | inputLarger (limit : ℕ)
  | emptyInput
  | textAfterValue
  | tooManyNodes (limit : ℕ)
  | tooDeep (limit : ℕ)
  | barewordValue (word : Text)
  | endOfInput
  | unexpectedCharacter (c : Char)
  | expectedInArray
  | unterminatedArray
  | expectedFatComma
  | expectedInHash
  | unterminatedHash
  | unexpectedKey (c : Char)
  | digitsAfterMinus
  | octal
  | digitsAfterPoint
  | unsupportedNumber
  | unsupportedEscape (next : Option Char)
  | interpolation (c : Char)
  | unterminatedString
  deriving DecidableEq

/-- `exhausted` stands for a reader without fuel. -/
inductive Error
  | perlData (position : ℕ) (message : Message)
  | valueError
  | exhausted
  deriving DecidableEq

inductive Value (F : Type)
  | array (items : List (Value F))
  | hash (pairs : List (Text × Value F))
  | string (text : Text)
  | int (i : ℤ)
  | decimal (f : F)
  | undef

variable {F : Type}

/-- `out[key] = value`. -/
def put (out : List (Text × Value F)) (pair : Text × Value F) : List (Text × Value F) :=
  match out with
  | [] => [pair]
  | (key, value) :: rest =>
    if key = pair.1 then pair :: rest else (key, value) :: put rest pair

/-- The parser: its position, the text from there on and the nodes counted. -/
abbrev Parser := Place Char

def fail {α : Type} (p : Parser) (message : Message) : Except Error α :=
  .error (.perlData p.pos message)

/-- The width of the blanks and comments ahead, where the flag says that a comment is open. -/
def spaceWidth : Bool → Text → ℕ
  | _, [] => 0
  | true, c :: rest => spaceWidth (c != '\n') rest + 1
  | false, c :: rest =>
    if isWhitespace c then spaceWidth false rest + 1
    else if c = '#' then spaceWidth true rest + 1
    else 0

def skipSpace (p : Parser) : Parser := p.advance (spaceWidth false p.rest)

def countNode (maxNodes : ℕ) (p : Parser) : Except Error (Unit × Parser) :=
  if maxNodes < p.spent + 1 then fail p (.tooManyNodes maxNodes) else .ok ((), p.spend 1)

def bareword (p : Parser) : Text × Parser :=
  let width := ((p.rest.drop 1).takeWhile isBareword).length + 1
  (p.rest.take width, p.advance width)

/-- The width of the digits after a point, where there is one. -/
def fractionWidth (p : Parser) : Text → Except Error ℕ
  | '.' :: rest =>
    if (rest.takeWhile Char.isDigit).length = 0 then fail p .digitsAfterPoint
    else .ok ((rest.takeWhile Char.isDigit).length + 1)
  | _ => .ok 0

def numberText (p : Parser) : Except Error (Text × Parser) := do
  let sign := if p.rest.head? = some '-' then 1 else 0
  let digits := (p.rest.drop sign).takeWhile Char.isDigit
  require (digits ≠ []) (.perlData p.pos .digitsAfterMinus)
  require (¬(digits.head? = some '0' ∧ 1 < digits.length)) (.perlData p.pos .octal)
  let fraction ← fractionWidth p (p.rest.drop (sign + digits.length))
  let width := sign + digits.length + fraction
  require ((p.rest.drop width).head?.all (fun c ↦ !(isBareword c || c == '.')) = true)
    (.perlData p.pos .unsupportedNumber)
  .ok (p.rest.take width, p.advance width)

/-- `int(raw)`. -/
def int (raw : Text) : Option ℤ :=
  if maxIntDigits < raw.countP Char.isDigit then none
  else match raw with
    | '-' :: digits => some (-(Nat.ofDigitChars 10 digits 0 : ℤ))
    | digits => some (Nat.ofDigitChars 10 digits 0 : ℤ)

def number (float : Text → F) (p : Parser) : Except Error (Value F × Parser) := do
  let (raw, p) ← numberText p
  if '.' ∈ raw then .ok (.decimal (float raw), p)
  else
    match int raw with
    | some i => .ok (.int i, p)
    | none => .error .valueError

/-- The rest of a string that began at `start`, and its width. -/
def scanString (quote : Char) (start : ℕ) : ℕ → Text → Except Error (Text × ℕ)
  | _, [] => .error (.perlData start .unterminatedString)
  | pos, c :: rest =>
    if c = quote then .ok ([], 1)
    else if c = '\\' then
      match rest with
      | [] =>
        if quote = '"' then .error (.perlData pos (.unsupportedEscape none))
        else .error (.perlData start .unterminatedString)
      | d :: after =>
        match escapes quote d with
        | some e => do
          let (chars, width) ← scanString quote start (pos + 2) after
          .ok (e :: chars, width + 2)
        | none =>
          if quote = '"' then .error (.perlData pos (.unsupportedEscape (some d)))
          else do
            let (chars, width) ← scanString quote start (pos + 1) (d :: after)
            .ok (c :: chars, width + 1)
    else if quote = '"' ∧ (c = '$' ∨ c = '@') then .error (.perlData pos (.interpolation c))
    else do
      let (chars, width) ← scanString quote start (pos + 1) rest
      .ok (c :: chars, width + 1)

def string (quote : Char) (p : Parser) : Except Error (Text × Parser) := do
  let (chars, width) ← scanString quote p.pos (p.pos + 1) (p.rest.drop 1)
  .ok (chars, p.advance (width + 1))

def hashKey (p : Parser) : Except Error (Text × Parser) :=
  let p := skipSpace p
  match p.rest.head? with
  | none => fail p .unterminatedHash
  | some c =>
    if c = '\'' ∨ c = '"' then string c p
    else if c = '-' ∨ c.isDigit = true then numberText p
    else if isBarewordStart c then .ok (bareword p)
    else fail p (.unexpectedKey c)

def fatComma (p : Parser) : Except Error (Unit × Parser) :=
  let p := skipSpace p
  if ['=', '>'] <+: p.rest then .ok ((), p.advance 2)
  else fail p (if p.rest = [] then .unterminatedHash else .expectedFatComma)

/-- What follows an item: a comma, or the bracket that the loop sees next. -/
def separator (close : Char) (expected unterminated : Message) (p : Parser) :
    Except Error (Unit × Parser) :=
  let p := skipSpace p
  match p.rest.head? with
  | none => fail p unterminated
  | some c =>
    if c = ',' then .ok ((), p.advance 1)
    else if c = close then .ok ((), p)
    else fail p expected

structure Limits where
  maxDepth : ℕ
  maxNodes : ℕ

/-- The opening bracket. -/
def enter (limits : Limits) (depth : ℕ) (p : Parser) : Except Error (Unit × Parser) := do
  if limits.maxDepth < depth then fail p (.tooDeep limits.maxDepth)
  else do
    let (_, p) ← countNode limits.maxNodes p
    .ok ((), p.advance 1)

section Values

variable (limits : Limits) (float : Text → F)

mutual

def value : ℕ → ℕ → Parser → Except Error (Value F × Parser)
  | 0, _, _ => .error .exhausted
  | fuel + 1, depth, p =>
    let p := skipSpace p
    match p.rest.head? with
    | none => fail p .endOfInput
    | some c =>
      if c = '[' then do
        let (_, p) ← enter limits (depth + 1) p
        let (items, p) ← array fuel (depth + 1) p
        .ok (.array items, p)
      else if c = '\x7b' then do
        let (_, p) ← enter limits (depth + 1) p
        let (out, p) ← hash fuel (depth + 1) [] p
        .ok (.hash out, p)
      else if c = '\'' ∨ c = '"' then do
        let (_, p) ← countNode limits.maxNodes p
        let (text, p) ← string c p
        .ok (.string text, p)
      else if c = '-' ∨ c.isDigit = true then do
        let (_, p) ← countNode limits.maxNodes p
        number float p
      else if isBarewordStart c then
        let (word, after) := bareword p
        if word = ['u', 'n', 'd', 'e', 'f'] then do
          let (_, p) ← countNode limits.maxNodes after
          .ok (.undef, p)
        else fail p (.barewordValue word)
      else fail p (.unexpectedCharacter c)

/-- The items from here to the closing bracket. -/
def array : ℕ → ℕ → Parser → Except Error (List (Value F) × Parser)
  | 0, _, _ => .error .exhausted
  | fuel + 1, depth, p =>
    let p := skipSpace p
    if p.rest.head? = some ']' then .ok ([], p.advance 1)
    else do
      let (item, p) ← value fuel depth p
      let (_, p) ← separator ']' .expectedInArray .unterminatedArray p
      let (items, p) ← array fuel depth p
      .ok (item :: items, p)

/-- The pairs from here to the closing brace are put into `out`. -/
def hash : ℕ → ℕ → List (Text × Value F) → Parser →
    Except Error (List (Text × Value F) × Parser)
  | 0, _, _, _ => .error .exhausted
  | fuel + 1, depth, out, p =>
    let p := skipSpace p
    if p.rest.head? = some '\x7d' then .ok (out, p.advance 1)
    else do
      let (key, p) ← hashKey p
      let (_, p) ← fatComma p
      let (item, p) ← value fuel depth p
      let (_, p) ← separator '\x7d' .expectedInHash .unterminatedHash p
      hash fuel depth (put out (key, item)) p

end

def parsePerlData (text : Text) : Except Error (Value F) :=
  if maxTextChars < text.length then .error (.perlData 0 (.inputLarger maxTextChars))
  else do
    let p := skipSpace ⟨0, text, 0⟩
    require (p.rest ≠ []) (.perlData p.pos .emptyInput)
    let (result, p) ← value limits float (2 * text.length + 1) 0 p
    let p := skipSpace p
    require (p.rest = []) (.perlData p.pos .textAfterValue)
    .ok result

end Values

end Tiqora.Znuny.PerlData
