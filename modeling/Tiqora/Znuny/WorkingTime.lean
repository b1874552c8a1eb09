import Mathlib.Data.Int.Basic
import Mathlib.Data.List.Dedup

namespace Tiqora.Znuny

/-- The UTC offsets of a time zone in seconds: they change only where the local clock shows a full
hour. -/
structure TimeZone where
  utcOffset : ℤ → ℤ
  full_hour : ∀ t, utcOffset t ≠ utcOffset (t - 1) → (t + utcOffset (t - 1)) % 3600 = 0

def TimeZone.localSeconds (zone : TimeZone) (epoch : ℤ) : ℤ := epoch + zone.utcOffset epoch

/-- A civil date of the proleptic Gregorian calendar. -/
structure CivilDate where
  year : ℤ
  month : ℤ
  day : ℤ
  deriving DecidableEq

/-- The date from the year of its March, and the days since that first of March. -/
def CivilDate.ofMarch (year dayOfYear : ℤ) : CivilDate :=
  if (5 * dayOfYear + 2) / 153 < 10 then
    { year := year
      month := (5 * dayOfYear + 2) / 153 + 3
      day := dayOfYear - (153 * ((5 * dayOfYear + 2) / 153) + 2) / 5 + 1 }
  else
    { year := year + 1
      month := (5 * dayOfYear + 2) / 153 - 9
      day := dayOfYear - (153 * ((5 * dayOfYear + 2) / 153) + 2) / 5 + 1 }

/-- The year, from its March, of a day of a 400 year cycle. -/
def yearOfCycle (day : ℤ) : ℤ := (day - day / 1460 + day / 36524 - day / 146096) / 365

def dayOfYearOfCycle (day : ℤ) : ℤ :=
  day - (365 * yearOfCycle day + yearOfCycle day / 4 - yearOfCycle day / 100)

/-- The date of a day, counted from 1970-01-01. -/
def civilDate (dayNumber : ℤ) : CivilDate :=
  .ofMarch
    (yearOfCycle ((dayNumber + 719468) % 146097) + (dayNumber + 719468) / 146097 * 400)
    (dayOfYearOfCycle ((dayNumber + 719468) % 146097))

example : [-719528, -25508, 0, 11016, 19782, 20088].map civilDate =
    [⟨0, 1, 1⟩, ⟨1900, 3, 1⟩, ⟨1970, 1, 1⟩, ⟨2000, 2, 29⟩, ⟨2024, 2, 29⟩, ⟨2024, 12, 31⟩] := by
  decide

/-- `datetime.fromtimestamp(epoch, tz)`: the day, counted from 1970-01-01, and the time of day. -/
structure LocalTime where
  dayNumber : ℤ
  hour : ℤ
  minute : ℤ
  second : ℤ

def fromTimestamp (zone : TimeZone) (epoch : ℤ) : LocalTime where
  dayNumber := zone.localSeconds epoch / 86400
  hour := zone.localSeconds epoch % 86400 / 3600
  minute := zone.localSeconds epoch % 3600 / 60
  second := zone.localSeconds epoch % 60

def LocalTime.date (dt : LocalTime) : CivilDate := civilDate dt.dayNumber

/-- Monday is 0. -/
def LocalTime.weekday (dt : LocalTime) : ℕ := ((dt.dayNumber + 3) % 7).toNat

def dayAbbr : List String := ["Mon", "Tue", "Wed", "Thu", "Fri", "Sat", "Sun"]

def LocalTime.dayAbbr (dt : LocalTime) : String := Znuny.dayAbbr.getD dt.weekday ""

def LocalTime.isMidnight (dt : LocalTime) : Bool := dt.hour = 0 && dt.minute = 0 && dt.second = 0

/-- `TimeWorkingHours`, `TimeVacationDays` and `TimeVacationDaysOneTime` of a calendar. -/
structure WorkCalendar where
  workingHours : List (String × List ℤ)
  vacationDays : ℤ → ℤ → Option String
  vacationDaysOnce : ℤ → ℤ → ℤ → Option String

def vacationSet : Option String → Bool
  | none => false
  | some name => name ≠ "" && name ≠ "0"

namespace WorkCalendar

def dayHours (calendar : WorkCalendar) (dt : LocalTime) : List ℤ :=
  ((calendar.workingHours.lookup dt.dayAbbr).getD []).dedup

def isVacation (calendar : WorkCalendar) (dt : LocalTime) : Bool :=
  vacationSet (calendar.vacationDays dt.date.month dt.date.day) ||
    vacationSet (calendar.vacationDaysOnce dt.date.year dt.date.month dt.date.day)

def isWorkingDay (calendar : WorkCalendar) (dt : LocalTime) : Bool :=
  !calendar.isVacation dt && !(calendar.dayHours dt).isEmpty

def isWorkingHour (calendar : WorkCalendar) (dt : LocalTime) : Bool :=
  calendar.isWorkingDay dt && (calendar.dayHours dt).contains dt.hour

/-- The working seconds of a whole day. -/
def daySeconds (calendar : WorkCalendar) (dt : LocalTime) : ℤ := (calendar.dayHours dt).length * 3600

def anyHours (calendar : WorkCalendar) : Bool := calendar.workingHours.any fun day ↦ !day.2.isEmpty

end WorkCalendar

def LocalTime.toNextHour (dt : LocalTime) : ℤ := 3600 - (dt.minute * 60 + dt.second)

/-- Local midnight, and 24 hours later local midnight of another day. -/
def wholeDay (zone : TimeZone) (current : ℤ) : Bool :=
  (fromTimestamp zone current).isMidnight && (fromTimestamp zone (current + 24 * 3600)).isMidnight &&
    (fromTimestamp zone (current + 24 * 3600)).date.day ≠ (fromTimestamp zone current).date.day

/-- The body of the loop of `destination_time_epoch`, on the remaining seconds and the current
epoch. -/
def destinationStep (calendar : WorkCalendar) (zone : TimeZone) (remaining current : ℤ)
    (dt : LocalTime) : ℤ × ℤ :=
  if wholeDay zone current && !calendar.isWorkingDay dt then (remaining, current + 24 * 3600)
  else if wholeDay zone current && calendar.daySeconds dt < remaining then
    (remaining - calendar.daySeconds dt, current + 24 * 3600)
  else if calendar.isWorkingHour dt then
    (remaining - min dt.toNextHour remaining, current + min dt.toNextHour remaining)
  else (remaining, current + dt.toNextHour)

/-- The loop protection of both functions. -/
def loopGuard : ℕ := 5000000

/-- None is the loop protection's error. -/
def destinationLoop (calendar : WorkCalendar) (zone : TimeZone) : ℕ → ℤ × ℤ → Option ℤ
  | 0, (remaining, current) => if 0 < remaining then none else some current
  | rounds + 1, (remaining, current) =>
    if 0 < remaining then
      destinationLoop calendar zone rounds
        (destinationStep calendar zone remaining current (fromTimestamp zone current))
    else some current

def destinationTimeEpoch (calendar : WorkCalendar) (zone : TimeZone) (start minutes : ℤ) :
    Option ℤ :=
  if minutes * 60 ≤ 0 then some start
  else if calendar.anyHours then destinationLoop calendar zone loopGuard (minutes * 60, start)
  else some start

/-- The body of the loop of `working_seconds_between`, on the working seconds so far and the
current epoch. -/
def workingStep (calendar : WorkCalendar) (zone : TimeZone) (stop working current : ℤ)
    (dt : LocalTime) : ℤ × ℤ :=
  if wholeDay zone current && 24 * 3600 < stop - current && !calendar.isWorkingDay dt then
    (working, current + 24 * 3600)
  else if wholeDay zone current && 24 * 3600 < stop - current &&
      calendar.daySeconds dt < stop - current then
    (working + calendar.daySeconds dt, current + 24 * 3600)
  else if calendar.isWorkingHour dt then
    (working + min dt.toNextHour (stop - current), current + min dt.toNextHour (stop - current))
  else (working, current + dt.toNextHour)

def workingLoop (calendar : WorkCalendar) (zone : TimeZone) (stop : ℤ) : ℕ → ℤ × ℤ → Option ℤ
  | 0, (working, current) => if current < stop then none else some working
  | rounds + 1, (working, current) =>
    if current < stop then
      workingLoop calendar zone stop rounds
        (workingStep calendar zone stop working current (fromTimestamp zone current))
    else some working

def workingSecondsBetween (calendar : WorkCalendar) (zone : TimeZone) (start stop : ℤ) :
    Option ℤ :=
  if stop ≤ start then some 0
  else if calendar.anyHours then workingLoop calendar zone stop loopGuard (0, start)
  else some 0

end Tiqora.Znuny
