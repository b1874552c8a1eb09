import Mathlib.Algebra.Order.Ring.Int
import Mathlib.Order.Bounds.Basic
import Tiqora.Calendar.Recurrence
import Tiqora.Foundation.Text

namespace Tiqora.Reporting.Schedule

open Foundation Foundation.Civil Calendar

def maxSearchDays : ℕ := 800

inductive Kind
  | daily
  | weekly
  | monthly
  | yearly
  deriving DecidableEq

/-- The fields of the model before its validators. -/
structure Fields where
  kind : Kind
  time : List Char
  workdaysOnly : Bool
  weekdays : List ℤ
  dayOfMonth : Option ℤ
  month : Option ℤ
  deriving DecidableEq

inductive Invalid
  | workdaysOnly
  | noWeekday
  | weekdayOutOfRange
  | weekdayTwice
  | weekdaysNotWeekly
  | noDay
  | dayNotMonthly
  | noMonth
  | monthNotYearly
  deriving DecidableEq

/-- The pattern of a time of day; `$` also matches before a last line feed. -/
def isTime : List Char → Bool
  | a :: b :: ':' :: c :: d :: rest =>
    ((a = '0' || a = '1') && b.isDigit || a = '2' && '0' ≤ b && b ≤ '3') &&
      '0' ≤ c && c ≤ '5' && d.isDigit && (rest = [] || rest = ['\n'])
  | _ => false

namespace Fields

variable (fields : Fields)

def onMonthDays : Bool := fields.kind = .monthly || fields.kind = .yearly

/-- The checks of `_check_kind` in their order. -/
def checks : List (Bool × Invalid) :=
  [(fields.workdaysOnly && fields.kind ≠ .daily, .workdaysOnly),
    (fields.kind = .weekly && fields.weekdays = [], .noWeekday),
    (fields.kind = .weekly && fields.weekdays.any (fun d ↦ d < 1 || 7 < d), .weekdayOutOfRange),
    (fields.kind = .weekly && ¬fields.weekdays.Nodup, .weekdayTwice),
    (fields.kind ≠ .weekly && fields.weekdays ≠ [], .weekdaysNotWeekly),
    (fields.onMonthDays && fields.dayOfMonth = none, .noDay),
    (!fields.onMonthDays && fields.dayOfMonth ≠ none, .dayNotMonthly),
    (fields.kind = .yearly && fields.month = none, .noMonth),
    (fields.kind ≠ .yearly && fields.month ≠ none, .monthNotYearly)]

/-- `_check_kind`. -/
def checkKind : Option Invalid := (fields.checks.find? (·.1)).map (·.2)

/-- The bounds of the single fields. -/
def inBounds : Bool :=
  fields.weekdays.length ≤ 7 && (fields.dayOfMonth.all fun d ↦ 1 ≤ d && d ≤ 31) &&
    fields.month.all fun m ↦ 1 ≤ m && m ≤ 12

end Fields

structure Recurrence extends Fields where
  inRange : toFields.inBounds = true
  hasTime : isTime time = true
  checked : toFields.checkKind = none

def hourMicros : ℤ := 3600000000

/-- A time zone: its offset from UTC at an instant, and the one that a wall time gets. An ambiguous
wall time gets that of its first instant, one in a gap that before the gap. -/
structure Zone where
  offset : ℤ → ℤ
  wallOffset : ℤ → ℤ
  bounded : ∀ t, -(14 * hourMicros) ≤ offset t ∧ offset t ≤ 14 * hourMicros
  ambiguous : ∀ t, (∀ t' < t, t' + offset t' ≠ t + offset t) → wallOffset (t + offset t) = offset t
  gap : ∀ x, (∀ t, t + offset t ≠ x) →
    ∃ t, t + offset t < x ∧ x < t + 1 + offset (t + 1) ∧ wallOffset x = offset t

namespace Recurrence

variable (rec : Recurrence)

/-- The microseconds of the day. -/
def wall : ℤ :=
  ((Nat.ofDigitChars 10 (rec.time.take 2) 0 : ℤ) * 60 +
    Nat.ofDigitChars 10 (strip (rec.time.drop 3)) 0) * 60000000

/-- `_matches`; the first of all days is a Monday. -/
def occursOn (day : ℕ) : Bool :=
  match rec.kind with
  | .daily => !rec.workdaysOnly || day % 7 + 1 ≤ 5
  | .weekly => ((day % 7 + 1 : ℕ) : ℤ) ∈ rec.weekdays
  | .monthly => some (dayOf day : ℤ) = rec.dayOfMonth.map fun d : ℤ ↦ min d (monthLength (monthOf day))
  | .yearly =>
    some ((monthOf day % 12 + 1 : ℕ) : ℤ) = rec.month &&
      some (dayOf day : ℤ) = rec.dayOfMonth.map fun d : ℤ ↦ min d (monthLength (monthOf day))

/-- The local wall time of a day as an instant. -/
def instant (zone : Zone) (day : ℕ) : ℤ :=
  let x := day * dayMicros + rec.wall
  x - zone.wallOffset x

end Recurrence

/-- What a search raises. -/
inductive Failure
  | overflow
  | notFound
  deriving DecidableEq

/-- The `datetime` of a count of microseconds. -/
def toDatetime (micros : ℤ) : Except Failure Datetime :=
  if 0 ≤ micros then (Datetime.of? micros.toNat).elim (.error .overflow) .ok
  else .error .overflow

/-- The date of a count of days. -/
def toDate (day : ℤ) : Except Failure ℕ :=
  if 0 ≤ day ∧ day < maxDays then .ok day.toNat else .error .overflow

variable (rec : Recurrence) (zone : Zone)

/-- The days that are left of the search. -/
def search (start : ℕ) (afterUtc : Datetime) : ℕ → ℕ → Except Failure Datetime
  | 0, _ => .error .notFound
  | left + 1, offset => do
    let day ← toDate (start + offset : ℕ)
    if rec.occursOn day then
      let candidate ← toDatetime (rec.instant zone day)
      if afterUtc < candidate then .ok candidate
      else search start afterUtc left (offset + 1)
    else search start afterUtc left (offset + 1)

def nextOccurrence (afterUtc : Datetime) : Except Failure Datetime := do
  let here ← toDatetime (afterUtc.1 + zone.offset afterUtc.1)
  let start ← toDate ((here.1 / dayMicros : ℕ) - 1)
  search rec zone start afterUtc (maxSearchDays + 2) 0

/-- The turns of the loop of `upcoming`. -/
def upcomingFrom : ℕ → Datetime → Except Failure (List Datetime)
  | 0, _ => .ok []
  | n + 1, cursor => do
    let next ← nextOccurrence rec zone cursor
    let rest ← upcomingFrom n next
    .ok (next :: rest)

def upcoming (afterUtc : Datetime) (count : ℤ) : Except Failure (List Datetime) :=
  upcomingFrom rec zone count.toNat afterUtc

end Tiqora.Reporting.Schedule
