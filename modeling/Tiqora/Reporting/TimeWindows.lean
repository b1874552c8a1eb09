import Tiqora.Foundation.Periods
import Tiqora.Reporting.Recurrence
import Tiqora.Reporting.RecurrenceExact

namespace Tiqora.Reporting.Definition

open Foundation Civil Calendar
open Schedule (Zone hourMicros)

def maxRangeDays : ℕ := 3660

/-- The units of time ranges and the grains of dates. -/
inductive TimeUnit
  | day | week | month | quarter | year
  deriving DecidableEq

structure RelativeTimeRange where
  unit : TimeUnit
  count : ℕ
  includeCurrent : Bool
  count_pos : 1 ≤ count
  count_le : count ≤ maxRangeDays

/-- Local dates, counted in days, both inclusive. -/
structure AbsoluteTimeRange where
  start : ℕ
  stop : ℕ
  ordered : start ≤ stop
  span : stop - start + 1 ≤ maxRangeDays
  stop_lt : stop < maxDays

inductive TimeRange
  | relative (range : RelativeTimeRange)
  | absolute (range : AbsoluteTimeRange)

inductive Raised
  | overflow
  | value
  | definition (message path : String)
  deriving DecidableEq

def outOfRange : Raised :=
  .definition "Der Zeitraum liegt außerhalb des darstellbaren Bereichs." "time_range"

def tooLong : Raised :=
  .definition "Der Zeitraum darf höchstens 3660 Tage umfassen." "time_range"

structure TimeWindow where
  startUtc : Datetime
  endUtc : Datetime
  startDate : ℕ
  endDate : ℕ

/-- The date of a count of days. -/
def toDate (day : ℤ) : Except Raised ℕ :=
  if 0 ≤ day ∧ day < maxDays then .ok day.toNat else .error .overflow

def toDatetime (micros : ℤ) : Except Raised Datetime :=
  if 0 ≤ micros then (Datetime.of? micros.toNat).elim (.error .overflow) .ok
  else .error .overflow

/-- `date(year, month, 1)`. -/
def firstOf (year month : ℤ) : Except Raised ℕ :=
  if 1 ≤ year ∧ year ≤ 9999 ∧ 1 ≤ month ∧ month ≤ 12 then
    .ok (monthStart (12 * (year - 1) + (month - 1)).toNat)
  else .error .value

def yearOfDay (d : ℕ) : ℕ := yearOf (monthOf d)

def monthOfDay (d : ℕ) : ℕ := monthOf d % 12 + 1

def addMonths (d : ℕ) (months : ℤ) : Except Raised ℕ :=
  let idx := yearOfDay d * 12 + (monthOfDay d - 1) + months
  firstOf (idx / 12) (idx % 12 + 1)

/-- `_unit_start`; the first of all days is a Monday. -/
def unitStart (unit : TimeUnit) (today : ℕ) : ℕ :=
  match unit with
  | .day => today
  | .week => today - today % 7
  | .month => today - (dayOf today - 1)
  | .quarter => monthStart (12 * (yearOfDay today - 1) + 3 * ((monthOfDay today - 1) / 3))
  | .year => monthStart (12 * (yearOfDay today - 1))

def shiftUnit (unit : TimeUnit) (start : ℕ) (count : ℤ) : Except Raised ℕ :=
  match unit with
  | .day => toDate (start + count)
  | .week => toDate (start + 7 * count)
  | .month => addMonths start count
  | .quarter => addMonths start (3 * count)
  | .year => firstOf (yearOfDay start + count) 1

def localMidnightUtc (zone : Zone) (d : ℕ) : Except Raised Datetime :=
  toDatetime (d * dayMicros - zone.wallOffset (d * dayMicros))

/-- The `except` around the shifts. -/
def caught {α : Type} : Except Raised α → Except Raised α
  | .error .overflow | .error .value => .error outOfRange
  | result => result

/-- The first and the last date of a relative range. -/
def relativeDates (range : RelativeTimeRange) (today : ℕ) : Except Raised (ℕ × ℕ) := do
  let current := unitStart range.unit today
  let (first, last) ← caught <|
    if range.includeCurrent then do
      let first ← shiftUnit range.unit current (-(range.count - 1))
      let next ← shiftUnit range.unit current 1
      let last ← toDate (next - 1)
      .ok (first, last)
    else do
      let first ← shiftUnit range.unit current (-range.count)
      let last ← toDate (current - 1)
      .ok (first, last)
  if (last - first : ℤ) + 1 > maxRangeDays then .error tooLong else .ok (first, last)

def rangeDates (zone : Zone) (range : TimeRange) (nowUtc : Datetime) : Except Raised (ℕ × ℕ) :=
  match range with
  | .absolute range => .ok (range.start, range.stop)
  | .relative range => do
    let here ← toDatetime (nowUtc.1 + zone.offset nowUtc.1)
    relativeDates range (here.1 / dayMicros)

def resolveTimeWindow (zone : Zone) (range : TimeRange) (nowUtc : Datetime) :
    Except Raised TimeWindow := do
  let (first, last) ← rangeDates zone range nowUtc
  let startUtc ← localMidnightUtc zone first
  let next ← toDate (last + 1)
  let endUtc ← localMidnightUtc zone next
  .ok ⟨startUtc, endUtc, first, last⟩

section Stock

structure Dimension where
  key : String
  stock : Bool

structure Measure where
  key : String
  stock : Bool

structure ReportSource where
  dimensions : List Dimension
  measures : List Measure

structure DimensionRef where
  key : String
  grain : Option TimeUnit

/-- What `_stock_dates` reads of a definition. -/
structure ReportDefinition where
  dimensions : List DimensionRef
  measures : List String

/-- The turns of the loop over the buckets of a window. -/
def stockLoop (grain : TimeUnit) (window : TimeWindow) (stop : ℕ) : ℕ → ℕ → Except Raised (List ℕ)
  | 0, _ => .ok []
  | turns + 1, bucket =>
    if bucket ≤ window.endDate then do
      let nxt ← shiftUnit grain bucket 1
      let last := min (nxt - 1) stop
      let dates ← stockLoop grain window stop turns nxt
      .ok (if max bucket window.startDate ≤ last then last :: dates else dates)
    else .ok []

/-- The reference to the stock dimension that a run keeps. -/
def stockRef (defn : ReportDefinition) (dim : Dimension) (keep : List ℕ) : Option DimensionRef :=
  (keep.filterMap (defn.dimensions[·]?)).find? fun ref ↦ ref.key = dim.key

/-- The grain of that dimension; a day is the default. -/
def stockGrain (defn : ReportDefinition) (dim : Dimension) (keep : List ℕ) : Option TimeUnit :=
  (stockRef defn dim keep).map fun ref ↦ ref.grain.getD .day

def hasStockMeasure (defn : ReportDefinition) (src : ReportSource) : Bool :=
  defn.measures.any fun key ↦ (src.measures.find? fun m ↦ m.key = key).any (·.stock)

def stockDates (defn : ReportDefinition) (src : ReportSource) (keep : List ℕ)
    (window : Option TimeWindow) (lastSnapshot : Option ℕ) : Except Raised (Option (List ℕ)) :=
  match src.dimensions.find? (·.stock), window with
  | some dim, some window =>
    if hasStockMeasure defn src then
      let stop := lastSnapshot.elim window.endDate (min window.endDate)
      match stockGrain defn dim keep with
      | some .day => .ok none
      | none => .ok (some (if window.startDate ≤ stop then [stop] else []))
      | some grain =>
        let bucket := unitStart grain window.startDate
        (stockLoop grain window stop (window.endDate + 1 - bucket) bucket).map some
    else .ok none
  | _, _ => .ok none

end Stock

def months : Periods where
  start := monthStart
  index := monthOf
  mono := monthStart_strictMono
  start_index := monthStart_monthOf
  lt_next := lt_monthStart_succ

theorem seven_pos : 0 < 7 := by decide

theorem three_pos : 0 < 3 := by decide

theorem twelve_pos : 0 < 12 := by decide

/-- The days of the calendar in units. -/
def TimeUnit.periods : TimeUnit → Periods
  | .day => Periods.days
  | .week => Periods.days.group 7 seven_pos
  | .month => months
  | .quarter => months.group 3 three_pos
  | .year => months.group 12 twelve_pos

section Units

variable {unit : TimeUnit} {d k : ℕ}

theorem monthOf_monthStart (m : ℕ) : monthOf (monthStart m) = m := months.index_start m

theorem unitStart_eq (unit : TimeUnit) (d : ℕ) :
    unitStart unit d = unit.periods.start (unit.periods.index d) := by
  have hmonth := monthStart_monthOf d
  cases unit with
  | day => rfl
  | week =>
    change d - d % 7 = 7 * (d / 7)
    omega
  | month =>
    change d - (dayOf d - 1) = monthStart (monthOf d)
    rw [dayOf]
    omega
  | quarter =>
    simp only [unitStart, yearOfDay, monthOfDay, yearOf]
    refine congrArg monthStart ?_
    change _ = 3 * (monthOf d / 3)
    omega
  | year =>
    simp only [unitStart, yearOfDay, yearOf]
    refine congrArg monthStart ?_
    change _ = 12 * (monthOf d / 12)
    omega

theorem monthStart_lt_iff (m : ℕ) : monthStart m < maxDays ↔ m < 119988 := by
  have hend : monthStart 119988 = maxDays := by decide +kernel
  rw [← hend, monthStart_strictMono.lt_iff_lt]

/-- What a shift of the calendar answers: the day if there is one. -/
structure Shifts (answer : Except Raised ℕ) (valid : Prop) (d : ℕ) : Prop where
  ok : valid → answer = .ok d
  error : ¬valid → answer = .error .overflow ∨ answer = .error .value

theorem Shifts.congr {answer : Except Raised ℕ} {valid valid' : Prop} {d d' : ℕ}
    (h : Shifts answer valid d) (hvalid : valid' ↔ valid) (hd : valid → d = d') :
    Shifts answer valid' d' where
  ok hv := by rw [h.ok (hvalid.1 hv), hd (hvalid.1 hv)]
  error hv := h.error fun hv' ↦ hv (hvalid.2 hv')

theorem toDate_shifts (day : ℤ) : Shifts (toDate day) (0 ≤ day ∧ day < maxDays) day.toNat where
  ok h := if_pos h
  error h := .inl (if_neg h)

theorem firstOf_shifts (m : ℤ) : Shifts (firstOf ((m + 12) / 12) ((m + 12) % 12 + 1))
    (0 ≤ m ∧ m < 119988) (monthStart m.toNat) where
  ok h := by
    rw [firstOf, if_pos (by omega)]
    refine congrArg Except.ok (congrArg monthStart (congrArg Int.toNat ?_))
    omega
  error h := by
    rw [firstOf, if_neg (by omega)]
    exact .inr rfl

theorem addMonths_shifts (k : ℕ) (n : ℤ) : Shifts (addMonths (monthStart k) n)
    (0 ≤ k + n ∧ k + n < 119988) (monthStart (k + n).toNat) := by
  have heq : ((yearOfDay (monthStart k) : ℤ) * 12 + (monthOfDay (monthStart k) - 1) + n) =
      k + n + 12 := by
    simp only [yearOfDay, monthOfDay, yearOf, monthOf_monthStart]
    omega
  rw [addMonths, heq]
  exact firstOf_shifts _

theorem shiftUnit_shifts (unit : TimeUnit) (k : ℕ) (n : ℤ) :
    Shifts (shiftUnit unit (unit.periods.start k) n)
      (0 ≤ k + n ∧ unit.periods.start (k + n).toNat < maxDays)
      (unit.periods.start (k + n).toNat) := by
  cases unit with
  | day =>
    refine (toDate_shifts _).congr ?_ fun h ↦ rfl
    change (0 ≤ (k : ℤ) + n ∧ (k + n).toNat < maxDays) ↔ 0 ≤ (k : ℤ) + n ∧ (k : ℤ) + n < maxDays
    omega
  | week =>
    refine (toDate_shifts _).congr ?_ fun h ↦ ?_
    · change (0 ≤ (k : ℤ) + n ∧ 7 * (k + n).toNat < maxDays) ↔
        0 ≤ ((7 * k : ℕ) : ℤ) + 7 * n ∧ ((7 * k : ℕ) : ℤ) + 7 * n < maxDays
      omega
    · change (((7 * k : ℕ) : ℤ) + 7 * n).toNat = 7 * (k + n).toNat
      omega
  | month =>
    refine (addMonths_shifts k n).congr ?_ fun h ↦ rfl
    change (0 ≤ (k : ℤ) + n ∧ monthStart (k + n).toNat < maxDays) ↔ _
    rw [monthStart_lt_iff]
    omega
  | quarter =>
    refine (addMonths_shifts (3 * k) (3 * n)).congr ?_ fun h ↦ ?_
    · change (0 ≤ (k : ℤ) + n ∧ monthStart (3 * (k + n).toNat) < maxDays) ↔ _
      rw [monthStart_lt_iff]
      omega
    · change _ = monthStart (3 * (k + n).toNat)
      refine congrArg monthStart ?_
      omega
  | year =>
    have heq : shiftUnit .year (TimeUnit.year.periods.start k) n =
        firstOf ((12 * (k + n) + 12) / 12) ((12 * (k + n) + 12) % 12 + 1) := by
      change firstOf (yearOfDay (monthStart (12 * k)) + n) 1 = _
      simp only [yearOfDay, yearOf, monthOf_monthStart]
      congr 1 <;> omega
    rw [heq]
    refine (firstOf_shifts (12 * (k + n))).congr ?_ fun h ↦ ?_
    · change (0 ≤ (k : ℤ) + n ∧ monthStart (12 * (k + n).toNat) < maxDays) ↔ _
      rw [monthStart_lt_iff]
      omega
    · change _ = monthStart (12 * (k + n).toNat)
      refine congrArg monthStart ?_
      omega

end Units

section Relative

variable {range : RelativeTimeRange} {today : ℕ}

namespace RelativeTimeRange

variable (range today)

/-- The unit that a range begins with, of those counted from the first of the calendar. -/
def fromUnit : ℤ :=
  range.unit.periods.index today - range.count + if range.includeCurrent then 1 else 0

/-- The unit after a range. -/
def untilUnit : ℕ := range.unit.periods.index today + if range.includeCurrent then 1 else 0

/-- The calendar has not all the units, or not the one after them. -/
def OffCalendar : Prop :=
  range.fromUnit today < 0 ∨ maxDays ≤ range.unit.periods.start (range.untilUnit today)

def firstDay : ℕ := range.unit.periods.start (range.fromUnit today).toNat

def nextDay : ℕ := range.unit.periods.start (range.untilUnit today)

end RelativeTimeRange

theorem caught_error {α : Type} {x : Except Raised α}
    (h : x = .error .overflow ∨ x = .error .value) : caught x = .error outOfRange := by
  rcases h with rfl | rfl <;> rfl

theorem bind_error {α β : Type} {x : Except Raised α} {f : α → Except Raised β}
    (h : x = .error .overflow ∨ x = .error .value) :
    (x >>= f) = .error .overflow ∨ (x >>= f) = .error .value :=
  h.imp (fun heq ↦ by rw [heq]; rfl) fun heq ↦ by rw [heq]; rfl

theorem nextDay_pos (h : ¬range.OffCalendar today) : 1 ≤ range.nextDay today ∧
    range.firstDay today < range.nextDay today := by
  have hcount := range.count_pos
  rw [RelativeTimeRange.OffCalendar, not_or, not_lt] at h
  have hlt : (range.fromUnit today).toNat < range.untilUnit today := by
    have hfrom := h.1
    simp only [RelativeTimeRange.fromUnit, RelativeTimeRange.untilUnit] at hfrom ⊢
    split at hfrom <;> split <;> omega
  have hstart : range.firstDay today < range.nextDay today := range.unit.periods.mono hlt
  exact ⟨by omega, hstart⟩

theorem dates_of_ends {x : Except Raised (ℕ × ℕ)} {first next : ℕ} (hlt : first < next)
    (h : x = .ok (first, next - 1)) :
    (do
      let (first, last) ← caught x
      if (last - first : ℤ) + 1 > maxRangeDays then .error tooLong else .ok (first, last)) =
      if maxRangeDays < next - first then .error tooLong else .ok (first, next - 1) := by
  rw [h, caught, ok_bind]
  · refine if_congr ?_ rfl rfl
    omega
  · intro heq
    cases heq
  · intro heq
    cases heq

/-- The days of the units that are asked for, or an answer that says why there are none. -/
theorem relativeDates_spec (htoday : today < maxDays) :
    (range.OffCalendar today → relativeDates range today = .error outOfRange) ∧
    (¬range.OffCalendar today → relativeDates range today =
      if maxRangeDays < range.nextDay today - range.firstDay today then .error tooLong
      else .ok (range.firstDay today, range.nextDay today - 1)) := by
  have hcount := range.count_pos
  have hstart := range.unit.periods.start_index today
  obtain ⟨i, hi⟩ : ∃ i, range.unit.periods.index today = i := ⟨_, rfl⟩
  rw [hi] at hstart
  have hcurrent : unitStart range.unit today = range.unit.periods.start i := by
    rw [unitStart_eq, hi]
  have hfirst := shiftUnit_shifts range.unit i
  have hbefore : ∀ n : ℤ, 0 ≤ i + n → n ≤ 0 →
      range.unit.periods.start (i + n).toNat < maxDays := by
    intro n hge hle
    refine (range.unit.periods.mono.monotone ?_).trans_lt (hstart.trans_lt htoday)
    omega
  have hlate : range.untilUnit today = i → range.nextDay today < maxDays := by
    intro heq
    rw [RelativeTimeRange.nextDay, heq]
    exact hstart.trans_lt htoday
  have hcases := @nextDay_pos range today
  simp only [relativeDates, hcurrent]
  cases hcurrentUnit : range.includeCurrent with
  | false =>
    have hfrom : range.fromUnit today = i + -range.count := by
      simp [RelativeTimeRange.fromUnit, hi, hcurrentUnit, sub_eq_add_neg]
    have huntil : range.untilUnit today = i := by
      simp [RelativeTimeRange.untilUnit, hi, hcurrentUnit]
    have hnext : range.nextDay today = range.unit.periods.start i := by
      rw [RelativeTimeRange.nextDay, huntil]
    simp only [Bool.false_eq_true, if_false]
    constructor
    · intro hoff
      have hneg : ¬0 ≤ (i : ℤ) + -range.count := by
        rw [← hfrom]
        exact not_le.2 (hoff.resolve_right (not_le.2 (hlate huntil)))
      rw [caught_error (bind_error ((hfirst _).error fun h ↦ hneg h.1))]
      rfl
    · intro hin
      obtain ⟨hpos, hlt⟩ := hcases hin
      have hge : 0 ≤ (i : ℤ) + -range.count := by
        rw [← hfrom]
        exact not_lt.1 fun hneg ↦ hin (.inl hneg)
      refine dates_of_ends hlt ?_
      rw [(hfirst _).ok ⟨hge, hbefore _ hge (by omega)⟩, ok_bind]
      rw [hnext] at hpos ⊢
      rw [(toDate_shifts _).ok ⟨by omega, by omega⟩, ok_bind, RelativeTimeRange.firstDay, hfrom]
      simp
  | true =>
    have hfrom : range.fromUnit today = i + -(range.count - 1) := by
      simp [RelativeTimeRange.fromUnit, hi, hcurrentUnit]
      omega
    have huntil : range.untilUnit today = i + 1 := by
      simp [RelativeTimeRange.untilUnit, hi, hcurrentUnit]
    have hnext : range.nextDay today = range.unit.periods.start (i + 1) := by
      rw [RelativeTimeRange.nextDay, huntil]
    simp only [if_true]
    constructor
    · intro hoff
      by_cases hge : 0 ≤ (i : ℤ) + -(range.count - 1)
      · rw [(hfirst _).ok ⟨hge, hbefore _ hge (by omega)⟩, ok_bind]
        have hnone : ¬(0 ≤ (i : ℤ) + 1 ∧ range.unit.periods.start (i + 1 : ℤ).toNat < maxDays) := by
          rintro ⟨-, hlt⟩
          rcases hoff with hoff | hoff
          · omega
          · rw [huntil] at hoff
            exact absurd hlt (not_lt.2 hoff)
        rw [caught_error (bind_error ((hfirst 1).error hnone))]
        rfl
      · rw [caught_error (bind_error ((hfirst _).error fun h ↦ hge h.1))]
        rfl
    · intro hin
      obtain ⟨hpos, hlt⟩ := hcases hin
      have hge : 0 ≤ (i : ℤ) + -(range.count - 1) := by
        rw [← hfrom]
        exact not_lt.1 fun hneg ↦ hin (.inl hneg)
      have hend : range.unit.periods.start (i + 1) < maxDays := by
        rw [← hnext]
        exact not_le.1 fun hle ↦ hin (.inr hle)
      refine dates_of_ends hlt ?_
      rw [(hfirst _).ok ⟨hge, hbefore _ hge (by omega)⟩, ok_bind,
        (hfirst 1).ok ⟨by omega, hend⟩, ok_bind]
      rw [hnext] at hpos ⊢
      change (do
        let last ← toDate ((range.unit.periods.start (i + 1) : ℕ) - 1)
        .ok (range.unit.periods.start (i + -(range.count - 1) : ℤ).toNat, last)) = _
      rw [(toDate_shifts _).ok ⟨by omega, by omega⟩, ok_bind, RelativeTimeRange.firstDay, hfrom]
      simp

end Relative

section Window

variable {zone : Zone} {range : TimeRange} {now here : Datetime} {today d first last : ℕ}

namespace TimeRange

variable (range today)

/-- The days that a range asks for: the whole units before the current one, or up to it. -/
def Covers (d : ℕ) : Prop :=
  match range with
  | .absolute r => r.start ≤ d ∧ d ≤ r.stop
  | .relative r =>
    let current := r.unit.periods.index today
    let unit := r.unit.periods.index d
    if r.includeCurrent then current < unit + r.count ∧ unit ≤ current
    else current ≤ unit + r.count ∧ unit < current

def OffCalendar : Prop := ∃ r, range = .relative r ∧ r.OffCalendar today

def TooLong : Prop := ∃ r, range = .relative r ∧ ¬r.OffCalendar today ∧
  maxRangeDays < r.nextDay today - r.firstDay today

end TimeRange

theorem covers_relative {r : RelativeTimeRange} (h : ¬r.OffCalendar today) (d : ℕ) :
    (TimeRange.relative r).Covers today d ↔
      r.firstDay today ≤ d ∧ d ≤ r.nextDay today - 1 := by
  have hpos := (nextDay_pos h).1
  have hfrom : 0 ≤ r.fromUnit today := not_lt.1 fun hneg ↦ h (.inl hneg)
  have hend : d ≤ r.nextDay today - 1 ↔ d < r.nextDay today := by omega
  rw [hend, RelativeTimeRange.firstDay, RelativeTimeRange.nextDay, ← Periods.le_index,
    ← Periods.index_lt]
  simp only [TimeRange.Covers, RelativeTimeRange.fromUnit, RelativeTimeRange.untilUnit] at hfrom ⊢
  split
  · simp_all
    omega
  · simp_all

/-- The dates of a range. -/
structure Dated (range : TimeRange) (today first last : ℕ) : Prop where
  ordered : first ≤ last
  span : last - first + 1 ≤ maxRangeDays
  last_lt : last < maxDays
  covers : ∀ d, first ≤ d ∧ d ≤ last ↔ range.Covers today d

theorem rangeDates_spec (hhere : toDatetime (now.1 + zone.offset now.1) = .ok here)
    (htoday : here.1 / dayMicros = today) :
    (range.OffCalendar today → rangeDates zone range now = .error outOfRange) ∧
    (range.TooLong today → rangeDates zone range now = .error tooLong) ∧
    (¬range.OffCalendar today → ¬range.TooLong today →
      ∃ first last, rangeDates zone range now = .ok (first, last) ∧
        Dated range today first last) := by
  have hlt : today < maxDays := by
    rw [← htoday]
    exact Nat.div_lt_of_lt_mul ((Nat.mul_comm _ _).trans_gt here.2)
  cases range with
  | absolute r =>
    refine ⟨fun h ↦ ?_, fun h ↦ ?_, fun _ _ ↦ ⟨r.start, r.stop, rfl, ?_⟩⟩
    · obtain ⟨r', heq, -⟩ := h
      cases heq
    · obtain ⟨r', heq, -⟩ := h
      cases heq
    · exact ⟨r.ordered, r.span, r.stop_lt, fun d ↦ Iff.rfl⟩
  | relative r =>
    have hspec := @relativeDates_spec r today hlt
    obtain ⟨hoff, hin⟩ := hspec
    have hdates : rangeDates zone (.relative r) now = relativeDates r today := by
      rw [rangeDates, hhere, ok_bind, htoday]
    rw [hdates]
    refine ⟨?_, ?_, fun hcalendar hshort ↦ ?_⟩
    · rintro ⟨r', heq, h⟩
      cases heq
      exact hoff h
    · rintro ⟨r', heq, h, hlong⟩
      cases heq
      rw [hin h, if_pos hlong]
    · have hin' : ¬r.OffCalendar today := fun h ↦ hcalendar ⟨r, rfl, h⟩
      have hshort' : ¬maxRangeDays < r.nextDay today - r.firstDay today :=
        fun h ↦ hshort ⟨r, rfl, hin', h⟩
      obtain ⟨hpos, hstart⟩ := nextDay_pos hin'
      have hend : r.nextDay today < maxDays := not_le.1 fun hle ↦ hin' (.inr hle)
      refine ⟨_, _, (hin hin').trans (if_neg hshort'), by omega, by omega, by omega, fun d ↦ ?_⟩
      exact (covers_relative hin' d).symm

/-- The instant of a local midnight. -/
def midnight (zone : Zone) (d : ℕ) : ℤ := d * dayMicros - zone.wallOffset (d * dayMicros)

theorem toDatetime_cases (x : ℤ) :
    (∃ t : Datetime, toDatetime x = .ok t ∧ (t.1 : ℤ) = x) ∨
      toDatetime x = .error .overflow ∧ (x < 0 ∨ (maxDays * dayMicros : ℕ) ≤ x) := by
  by_cases hlow : 0 ≤ x
  · by_cases hhigh : x.toNat < maxDays * dayMicros
    · refine .inl ⟨⟨x.toNat, hhigh⟩, ?_, ?_⟩
      · simp [toDatetime, hlow, Datetime.of?, hhigh]
      · exact Int.toNat_of_nonneg hlow
    · refine .inr ⟨?_, .inr (by omega)⟩
      simp [toDatetime, hlow, Datetime.of?, hhigh]
  · exact .inr ⟨if_neg hlow, .inl (by omega)⟩

theorem localMidnight_cases (zone : Zone) (hd : d < maxDays) :
    (∃ t, localMidnightUtc zone d = .ok t ∧ (t.1 : ℤ) = midnight zone d) ∨
      localMidnightUtc zone d = .error .overflow ∧ d = 0 := by
  obtain ⟨t, heq, -⟩ := zone.wallOffset_eq (d * dayMicros)
  have hbounded := zone.bounded t
  refine (toDatetime_cases (midnight zone d)).imp id fun ⟨hover, hout⟩ ↦ ⟨hover, ?_⟩
  have hhour : hourMicros = 3600000000 := rfl
  rw [midnight, heq] at hout
  simp only [dayMicros, maxDays] at hout hd
  omega

theorem midnight_strictMono (h : ∀ t t' : ℤ, t ≤ t' + 5 * dayMicros → t' ≤ t + 5 * dayMicros →
    zone.offset t' < zone.offset t + dayMicros) ⦃d d' : ℕ⦄ (hlt : d < d') :
    midnight zone d < midnight zone d' := by
  have hwall : Schedule.midnightDaily.wall = 0 := by decide
  have hnext : Schedule.midnightDaily.instant zone d < Schedule.midnightDaily.instant zone d' :=
    Schedule.instant_strictMono h d d' hlt
  simpa [Schedule.Recurrence.instant, hwall, midnight] using hnext

/-- The window of a range: all the days that it asks for and no other, from the first local midnight
to the one after them. -/
structure Resolved (zone : Zone) (range : TimeRange) (today : ℕ) (w : TimeWindow) : Prop where
  covers : ∀ d, w.startDate ≤ d ∧ d ≤ w.endDate ↔ range.Covers today d
  span : w.endDate - w.startDate + 1 ≤ maxRangeDays
  start_eq : (w.startUtc.1 : ℤ) = midnight zone w.startDate
  end_eq : (w.endUtc.1 : ℤ) = midnight zone (w.endDate + 1)
  start_lt : w.startUtc < w.endUtc

theorem resolve_of_dates (hmono : ∀ ⦃d d'⦄, d < d' → midnight zone d < midnight zone d')
    (hdates : rangeDates zone range now = .ok (first, last)) (h : Dated range today first last) :
    (∃ w, resolveTimeWindow zone range now = .ok w ∧ Resolved zone range today w) ∨
      resolveTimeWindow zone range now = .error .overflow ∧
        (range.Covers today 0 ∨ range.Covers today (maxDays - 1)) := by
  obtain ⟨hordered, hspan, hlast, hcovers⟩ := h
  rw [resolveTimeWindow, hdates, ok_bind]
  dsimp only
  rcases localMidnight_cases zone (hordered.trans_lt hlast) with ⟨startUtc, hstart, heq⟩ | hzero
  · rw [hstart, ok_bind]
    by_cases hend : last + 1 < maxDays
    · have hnext : toDate (last + 1 : ℤ) = .ok (last + 1) := (toDate_shifts _).ok (by omega)
      rw [hnext, ok_bind]
      rcases localMidnight_cases zone hend with ⟨endUtc, hstop, heq'⟩ | hzero
      · rw [hstop, ok_bind]
        refine .inl ⟨_, rfl, hcovers, hspan, heq, heq', ?_⟩
        have hlt := hmono (Nat.lt_succ_of_le hordered)
        rw [← heq, ← heq'] at hlt
        exact_mod_cast hlt
      · exact absurd hzero.2 (Nat.succ_ne_zero last)
    · have hnext : toDate (last + 1 : ℤ) = .error .overflow := if_neg (by omega)
      rw [hnext]
      refine .inr ⟨rfl, .inr ((hcovers _).1 ?_)⟩
      omega
  · rw [hzero.1]
    refine .inr ⟨rfl, .inl ((hcovers _).1 ?_)⟩
    omega

/-- The three months before the current one. -/
def threeMonths : TimeRange := .relative ⟨.month, 3, false, by decide, by decide⟩

end Window

end Tiqora.Reporting.Definition
