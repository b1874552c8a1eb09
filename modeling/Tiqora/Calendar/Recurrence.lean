import Mathlib.Data.List.Pairwise
import Mathlib.Order.Fin.Basic
import Mathlib.Data.Int.Notation
import Tiqora.Foundation.Civil

namespace Tiqora.Calendar

open Foundation.Civil

def dayMicros : ℕ := 86400000000

/-- The days of the years 1 to 9999. -/
def maxDays : ℕ := 3652059

/-- A naive `datetime`, as microseconds since the year 1. -/
abbrev Datetime := Fin (maxDays * dayMicros)

/-- The `datetime` of a count of microseconds. Python raises when there is none. -/
def Datetime.of? (micros : ℕ) : Option Datetime :=
  if h : micros < maxDays * dayMicros then some ⟨micros, h⟩ else none

def Datetime.month (dt : Datetime) : ℕ := monthOf (dt.1 / dayMicros)

def Datetime.day (dt : Datetime) : ℕ := dayOf (dt.1 / dayMicros)

def Datetime.time (dt : Datetime) : ℕ := dt.1 % dayMicros

inductive RecurType
  | daily | weekly | monthly | yearly
  deriving DecidableEq

structure Occurrence where
  start : Datetime
  stop : Datetime
  isRecurring : Bool
  deriving DecidableEq

/-- An appointment as it is stored. A type of recurrence that is not known is none. -/
structure Appointment where
  startTime : Datetime
  endTime : Datetime
  recurType : Option RecurType
  recurInterval : Option ℤ
  recurCount : Option ℤ
  recurUntil : Option Datetime
  exclude : List Datetime
  ends : startTime ≤ endTime

structure Window where
  rangeStart : Datetime
  rangeEnd : Datetime

def maxOccurrences : ℕ := 2000

/-- The same time of day some months later, on the same day or the last of the month. -/
def addMonths (dt : Datetime) (months : ℕ) : Option Datetime :=
  let month := dt.month + months
  let day := min dt.day (monthLength month)
  Datetime.of? (ofMonthDay month day * dayMicros + dt.time)

def step (type : RecurType) (interval : ℕ) (dt : Datetime) : Option Datetime :=
  match type with
  | .daily => Datetime.of? (dt.1 + interval * dayMicros)
  | .weekly => Datetime.of? (dt.1 + interval * 7 * dayMicros)
  | .monthly => addMonths dt interval
  | .yearly => addMonths dt (interval * 12)

namespace Appointment

variable (a : Appointment) (w : Window)

def duration : ℕ := a.endTime.1 - a.startTime.1

/-- `recur_interval or 1`, at least 1. -/
def interval : ℕ := max (a.recurInterval.getD 1).toNat 1

def pastUntil (occStart : Datetime) : Bool := a.recurUntil.any fun t ↦ t < occStart

def pastCount (n : ℕ) : Bool := a.recurCount.any fun count ↦ count ≤ (n : ℤ)

/-- The loop, with the steps that are left. `none` when a `datetime` overflows. -/
def expandFrom (type : RecurType) : ℕ → ℕ → Datetime → Option (List Occurrence)
  | 0, _, _ => some []
  | fuel + 1, n, occStart =>
    if a.pastUntil occStart || a.pastCount n || w.rangeEnd ≤ occStart then some []
    else do
      let occEnd ← Datetime.of? (occStart.1 + a.duration)
      let next ← step type a.interval occStart
      let rest ← expandFrom type fuel (n + 1) next
      pure (if w.rangeStart < occEnd ∧ occStart ∉ a.exclude then ⟨occStart, occEnd, true⟩ :: rest
        else rest)

def expandOccurrences : Option (List Occurrence) :=
  match a.recurType with
  | none => some (if a.startTime < w.rangeEnd ∧ w.rangeStart < a.endTime then
      [⟨a.startTime, a.endTime, false⟩] else [])
  | some type => a.expandFrom w type maxOccurrences 0 a.startTime

/-- The start advanced some number of times. -/
def occurrence (type : RecurType) : ℕ → Option Datetime
  | 0 => some a.startTime
  | k + 1 => (occurrence type k).bind (step type a.interval)

end Appointment

section Steps

variable {type : RecurType} {interval : ℕ} {dt dt' : Datetime}

theorem of?_eq_some {micros : ℕ} : Datetime.of? micros = some dt ↔ dt.1 = micros := by
  rw [Datetime.of?]
  constructor
  · intro h
    split at h
    · cases h
      rfl
    · cases h
  · rintro rfl
    exact dif_pos dt.2

theorem of?_of_lt {micros : ℕ} (h : micros < maxDays * dayMicros) :
    Datetime.of? micros = some ⟨micros, h⟩ := dif_pos h

theorem day_pos : 0 < dt.day := Nat.succ_pos _

theorem day_le : dt.day ≤ monthLength dt.month := dayOf_le _

/-- What the addition of months makes of a `datetime`. -/
theorem addMonths_spec {months : ℕ} (h : addMonths dt months = some dt') :
    dt'.month = dt.month + months ∧ dt'.day = min dt.day (monthLength dt'.month) ∧
      dt'.time = dt.time := by
  have hmicros := of?_eq_some.1 h
  have htime : dt.time < dayMicros := Nat.mod_lt _ (by decide)
  have hlength := monthLength_ge (dt.month + months)
  have hpos : 0 < min dt.day (monthLength (dt.month + months)) :=
    lt_min day_pos (by omega)
  have hdays : dt'.1 / dayMicros =
      ofMonthDay (dt.month + months) (min dt.day (monthLength (dt.month + months))) := by
    rw [hmicros, Nat.mul_comm, Nat.mul_add_div (by decide), Nat.div_eq_of_lt htime, Nat.add_zero]
  have hmonth : dt'.month = dt.month + months := by
    rw [Datetime.month, hdays, monthOf_ofMonthDay hpos (min_le_right _ _)]
  refine ⟨hmonth, ?_, ?_⟩
  · rw [hmonth, Datetime.day, hdays, dayOf_ofMonthDay hpos (min_le_right _ _)]
  · rw [Datetime.time, hmicros, Nat.mul_comm, Nat.mul_add_mod, Nat.mod_eq_of_lt htime]

theorem lt_of_month_lt (h : dt.month < dt'.month) : dt < dt' := by
  have hend := lt_monthStart_succ (dt.1 / dayMicros)
  have hstart := monthStart_monthOf (dt'.1 / dayMicros)
  have hle : monthStart (dt.month + 1) ≤ monthStart dt'.month := monthStart_strictMono.monotone h
  have hdays : dt.1 / dayMicros < dt'.1 / dayMicros := hend.trans_le (hle.trans hstart)
  exact Fin.lt_def.2 (lt_of_not_ge fun hge ↦ absurd (Nat.div_le_div_right hge) (not_le.2 hdays))

/-- A step goes forward. -/
theorem lt_of_step (hinterval : 0 < interval) (h : step type interval dt = some dt') : dt < dt' := by
  have hday : 0 < dayMicros := by decide
  cases type with
  | daily =>
    have hpos := Nat.mul_pos hinterval hday
    have hmicros := of?_eq_some.1 h
    exact Fin.lt_def.2 (by omega)
  | weekly =>
    have hpos := Nat.mul_pos (Nat.mul_pos hinterval (show 0 < 7 by decide)) hday
    have hmicros := of?_eq_some.1 h
    exact Fin.lt_def.2 (by omega)
  | monthly =>
    refine lt_of_month_lt ?_
    rw [(addMonths_spec h).1]
    omega
  | yearly =>
    refine lt_of_month_lt ?_
    rw [(addMonths_spec h).1]
    omega

end Steps

end Tiqora.Calendar
