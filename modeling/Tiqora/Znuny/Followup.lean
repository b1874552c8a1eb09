import Tiqora.Foundation.Scan
import Tiqora.Foundation.Text

namespace Tiqora.Znuny

open Foundation

/-- The last part of the name in `Ticket::NumberGenerator`. -/
inductive Generator
  | autoIncrement
  | date
  | dateChecksum
  | random
  | other
  deriving DecidableEq

/-- The local day of the clock. -/
structure CalendarDay where
  year : ℕ
  month : ℕ
  day : ℕ
  year_lt : year < 10000
  month_le : month ≤ 12
  day_le : day ≤ 31

/-- `yyyymmdd`. -/
def CalendarDay.datePart (today : CalendarDay) : List Char :=
  zfill 4 today.year ++ zfill 2 today.month ++ zfill 2 today.day

/-- A size of the SysConfig, as a number or as its text. -/
inductive SizeSetting
  | unset
  | number (n : ℕ)
  | text (n : ℕ)

/-- The size, unless the setting is false for Python. -/
def SizeSetting.value : SizeSetting → Option ℕ
  | .unset => none
  | .number 0 => none
  | .number n => some n
  | .text n => some n

/-- The SysConfig of ticket numbers. -/
structure NumberConfig where
  generator : Generator
  systemId : List Char
  autoIncrementMinCounterSize : SizeSetting
  minCounterSize : SizeSetting
  useFormattedCounter : Bool
  checkSystemId : Bool

namespace NumberConfig

/-- `_min_counter_size`, with the generator's key or without. -/
def resolvedMinCounterSize (config : NumberConfig) (specific : Option SizeSetting) : ℕ :=
  ((specific.bind SizeSetting.value).or config.minCounterSize.value).getD 5

end NumberConfig

def formatAutoIncrement (counter : ℕ) (systemId : List Char) (minCounterSize : ℕ) : List Char :=
  systemId ++ zfill minCounterSize counter

def formatDate (counter : ℕ) (systemId : List Char) (today : CalendarDay)
    (useFormattedCounter : Bool) (minCounterSize : ℕ) : List Char :=
  today.datePart ++ systemId ++
    if useFormattedCounter then zfill minCounterSize counter else Nat.toDigits 10 counter

/-- The weighted sum of the digits; None is the error of a character that is no digit. -/
def checksumLoop : List Char → ℕ → ℕ → Option ℕ
  | [], checksum, _ => some checksum
  | ch :: base, checksum, multiply =>
    (digitValue ch).bind fun digit ↦
      checksumLoop base (checksum + multiply * digit) (if multiply + 1 = 3 then 1 else multiply + 1)

def checkDigit (checksum : ℕ) : ℕ := if 10 - checksum % 10 = 10 then 1 else 10 - checksum % 10

def formatDateChecksum (counter : ℕ) (systemId : List Char) (today : CalendarDay) :
    Option (List Char) :=
  (checksumLoop (today.datePart ++ systemId ++ zfill 5 counter) 0 1).map fun checksum ↦
    today.datePart ++ systemId ++ zfill 5 counter ++ Nat.toDigits 10 (checkDigit checksum)

def formatRandom (count : ℕ) (systemId : List Char) : List Char := systemId ++ zfill 10 count

/-- `ticket_number_build` without a plugin generator, from the counter it adds, the day of the clock
and the random number it draws. -/
def ticketNumberBuild (config : NumberConfig) (counter count : ℕ) (today : CalendarDay) :
    Option (List Char) :=
  match config.generator with
  | .random => some (formatRandom count config.systemId)
  | .autoIncrement => some (formatAutoIncrement counter config.systemId
      (config.resolvedMinCounterSize (some config.autoIncrementMinCounterSize)))
  | .date => some (formatDate counter config.systemId today config.useFormattedCounter
      (config.resolvedMinCounterSize none))
  | .dateChecksum => formatDateChecksum counter config.systemId today
  | .other => none

def sampleDay : CalendarDay where
  year := 2026
  month := 7
  day := 19
  year_lt := by decide
  month_le := by decide
  day_le := by decide

example : formatDateChecksum 9 ['1', '0'] sampleDay = some
    ['2', '0', '2', '6', '0', '7', '1', '9', '1', '0', '0', '0', '0', '0', '9', '1'] := by
  decide

/-- `digit_pattern`: so many digits, the system id, and a run of digits between two sizes. -/
structure DigitPattern where
  lead : ℕ
  systemId : List Char
  minSize : ℕ
  maxSize : ℕ

/-- The number that the pattern matches at the head of a text. -/
def DigitPattern.read (folding : CaseFolding) (pattern : DigitPattern) (s : List Char) :
    Option (List Char) :=
  if (s.take pattern.lead).length = pattern.lead ∧ (s.take pattern.lead).all isDigit = true then
    (stripPrefix folding.same pattern.systemId (s.drop pattern.lead)).bind fun rest ↦
      let run := (rest.takeWhile isDigit).take pattern.maxSize
      if pattern.minSize ≤ run.length then
        some (s.take (pattern.lead + pattern.systemId.length + run.length))
      else none
  else none

def digitPattern (generator : Generator) (systemId : List Char) (checkSystemId : Bool)
    (minCounterSize : ℕ) : DigitPattern :=
  let sid := if checkSystemId then systemId else []
  if generator = .dateChecksum || generator = .date then
    { lead := 8, systemId := sid, minSize := 4, maxSize := 40 }
  else
    { lead := 0, systemId := sid, minSize := minCounterSize, maxSize := minCounterSize + 5 }

/-- A number right after the hook and the divider. -/
def hookedMatch (folding : CaseFolding) (hook divider : List Char)
    (read : List Char → Option (List Char)) (s : List Char) : Option (List Char) :=
  (stripPrefix folding.same (hook ++ divider) s).bind read

/-- At most so many white spaces, as many as possible. -/
def upToSpaces (read : List Char → Option (List Char)) : ℕ → List Char → Option (List Char)
  | 0, s => read s
  | _ + 1, [] => read []
  | n + 1, c :: s =>
    if isSpace c then (upToSpaces read n s).or (read (c :: s)) else read (c :: s)

/-- A number after the hook, a colon and at most two white spaces. -/
def colonMatch (folding : CaseFolding) (hook : List Char)
    (read : List Char → Option (List Char)) (s : List Char) : Option (List Char) :=
  (stripPrefix folding.same (hook ++ [':']) s).bind (upToSpaces read 2)

def collect (subject : List Char) (candidates : List (List Char))
    (m : List Char → Option (List Char)) : List (List Char) :=
  match firstMatch m subject with
  | some tn => if tn ∈ candidates then candidates else candidates ++ [tn]
  | none => candidates

/-- The patterns of a plugin are given by what they match at the head of a text. -/
def getTnCandidates (folding : CaseFolding) (subject hook divider : List Char)
    (generator : Generator) (systemId : List Char) (checkSystemId : Bool) (minCounterSize : ℕ)
    (extraPatterns : List (List Char → Option (List Char))) : List (List Char) :=
  if subject = [] then []
  else
    let read := (digitPattern generator systemId checkSystemId minCounterSize).read folding
    ((extraPatterns ++ [read]).flatMap fun pattern ↦
      [hookedMatch folding hook divider pattern, colonMatch folding hook pattern]).foldl
        (collect subject) []

/-- `detect_followup` reads the size of the AutoIncrement generator only. -/
def NumberConfig.followupMinCounterSize (config : NumberConfig) : ℕ :=
  config.autoIncrementMinCounterSize.value.getD 5

/-- The candidates of `detect_followup` when no plugin generates the numbers. -/
def detectCandidates (folding : CaseFolding) (config : NumberConfig) (hook divider : List Char)
    (subject : List Char) : List (List Char) :=
  getTnCandidates folding subject hook divider config.generator config.systemId
    config.checkSystemId config.followupMinCounterSize []

end Tiqora.Znuny
