import Mathlib.Data.List.SplitOn
import Mathlib.Data.Prod.Lex
import Mathlib.Order.Bounds.Basic
import Tiqora.Calendar.Recurrence
import Tiqora.Foundation.Guarded
import Tiqora.Foundation.Sorting
import Tiqora.Foundation.Tables
import Tiqora.Foundation.Text

namespace Tiqora.Util.Cron

open Foundation Foundation.Civil Calendar

structure Field where
  name : String
  low : ℕ
  high : ℕ
  deriving DecidableEq

def minuteField : Field := ⟨"Minute", 0, 59⟩

def hourField : Field := ⟨"Stunde", 0, 23⟩

def dayField : Field := ⟨"Tag des Monats", 1, 31⟩

def monthField : Field := ⟨"Monat", 1, 12⟩

/-- 7 is an alias of 0 (Sunday). -/
def weekdayField : Field := ⟨"Wochentag", 0, 7⟩

def maxDays : ℕ := 366 * 8

/-- The most digits that `int` reads. -/
def maxStrDigits : ℕ := 4300

/-- What `_error` is called with. -/
inductive ParseError
  | fieldCount (found : ℕ)
  | emptyEntry (field : String)
  | notANumber (text : List Char) (field : String)
  | outOfRange (field : String) (low high value : ℕ)
  | backwards (start stop : ℕ) (field : String)
  | tooManyDigits
  deriving DecidableEq

/-- `_number`. -/
def number (field : String) (text : List Char) (low high : ℕ) : Except ParseError ℕ :=
  if text = [] ∨ text.all Char.isDigit = false then .error (.notANumber text field)
  else if maxStrDigits < text.length then .error .tooManyDigits
  else
    let value := Nat.ofDigitChars 10 text 0
    if low ≤ value ∧ value ≤ high then .ok value
    else .error (.outOfRange field low high value)

/-- `str.partition`; without the separator there is no second part. -/
def partition (separator : Char) (text : List Char) : List Char × Option (List Char) :=
  match text.dropWhile fun c ↦ c ≠ separator with
  | [] => (text, none)
  | _ :: rest => (text.takeWhile fun c ↦ c ≠ separator, some rest)

/-- The ends of the range of an entry. -/
def bounds (field : Field) (base : List Char) (slash : Bool) : Except ParseError (ℕ × ℕ) :=
  if base = ['*'] then .ok (field.low, field.high)
  else
    match partition '-' base with
    | (a, some b) => do
      let start ← number field.name a field.low field.high
      let stop ← number field.name b field.low field.high
      if stop < start then .error (.backwards start stop field.name) else .ok (start, stop)
    | (_, none) => do
      let start ← number field.name base field.low field.high
      .ok (start, if slash then field.high else start)

/-- `set(range(start, end + 1, step))`; sets of numbers are lists here. -/
def stepped (start stop step : ℕ) : List ℕ := List.range' start ((stop - start) / step + 1) step

def stepOf (field : Field) : Option (List Char) → Except ParseError ℕ
  | some text => number field.name text 1 field.high
  | none => .ok 1

/-- `_parse_part`. -/
def parsePart (field : Field) (part : List Char) : Except ParseError (List ℕ) := do
  let (base, stepText) := partition '/' part
  let step ← stepOf field stepText
  let (start, stop) ← bounds field base stepText.isSome
  .ok (stepped start stop step)

/-- The values of one field. -/
def parseField (field : Field) (text : List Char) : Except ParseError (List ℕ) := do
  let parts ← (text.splitOn ',').mapM fun part ↦
    if part = [] then .error (.emptyEntry field.name) else parsePart field part
  .ok (if field = weekdayField then parts.flatten.map (· % 7) else parts.flatten)

structure CronExpr where
  minutes : List ℕ
  hours : List ℕ
  days : List ℕ
  months : List ℕ
  weekdays : List ℕ
  domRestricted : Bool
  dowRestricted : Bool
  deriving DecidableEq

/-- `str.split`. -/
def words (text : List Char) : List (List Char) := (text.splitOnP isSpace).filter fun w ↦ w ≠ []

def parse (expr : List Char) : Except ParseError CronExpr :=
  match words expr with
  | [minute, hour, day, month, weekday] => do
    let minutes ← parseField minuteField minute
    let hours ← parseField hourField hour
    let days ← parseField dayField day
    let months ← parseField monthField month
    let weekdays ← parseField weekdayField weekday
    .ok ⟨minutes, hours, days, months, weekdays, day ≠ ['*'], weekday ≠ ['*']⟩
  | fields => .error (.fieldCount fields.length)

def minuteMicros : ℕ := 60000000

/-- Why there is no next run: the search ended, or a `datetime` overflowed. -/
inductive NoRun
  | ended
  | overflow
  deriving DecidableEq

/-- The `datetime` of a minute, counted from the first day on. -/
def ofMinute (minute : ℕ) : Except NoRun Datetime :=
  (Datetime.of? (minute * minuteMicros)).elim (.error .overflow) .ok

/-- The time of day of a minute. -/
def clock (minute : ℕ) : ℕ ×ₗ ℕ := toLex (minute / 60 % 24, minute % 60)

/-- A time of day on a day. -/
def runAt (day : ℕ) (time : ℕ ×ₗ ℕ) : Except NoRun Datetime :=
  ofMinute (day * 1440 + ((ofLex time).1 * 60 + (ofLex time).2))

namespace CronExpr

variable (e : CronExpr)

/-- `_day_matches`; the first of all days is a Monday. -/
def dayMatches (day : ℕ) : Bool :=
  if monthOf day % 12 + 1 ∉ e.months then false
  else
    let domOk : Bool := dayOf day ∈ e.days
    let dowOk : Bool := (day % 7 + 1) % 7 ∈ e.weekdays
    if e.domRestricted && e.dowRestricted then domOk || dowOk else domOk && dowOk

/-- `sorted((h, m) for h in self.hours for m in self.minutes)`. -/
def times : List (ℕ ×ₗ ℕ) :=
  sortedSet (e.hours.flatMap fun hour ↦ e.minutes.map fun minute ↦ toLex (hour, minute))

/-- The days that are left of the search. -/
def search (midnight : ℕ) (start : ℕ ×ₗ ℕ) : ℕ → ℕ → Except NoRun Datetime
  | 0, _ => .error .ended
  | left + 1, offset => do
    let _ ← runAt (midnight + offset) (toLex (0, 0))
    if e.dayMatches (midnight + offset) then
      match e.times.find? fun time ↦ ¬(offset = 0 ∧ time < start) with
      | some time => runAt (midnight + offset) time
      | none => search midnight start left (offset + 1)
    else search midnight start left (offset + 1)

/-- The search from a minute on. -/
def searchFrom (minute : ℕ) : Except NoRun Datetime :=
  e.search (minute / 1440) (clock minute) maxDays 0

def nextAfter (dt : Datetime) : Except NoRun Datetime := do
  let start ← ofMinute (dt.1 / minuteMicros + 1)
  e.searchFrom (start.1 / minuteMicros)

end CronExpr

section Parse

variable {field : Field} {name : String} {text base part expr : List Char}
variable {low high start stop step v : ℕ} {values : List ℕ} {e : CronExpr}

theorem number_spec (h : number name text low high = .ok v) : low ≤ v ∧ v ≤ high := by
  unfold number at h
  split at h
  · cases h
  · split at h
    · cases h
    · dsimp only at h
      split at h
      · cases h
        assumption
      · cases h

theorem bounds_spec {slash : Bool} (hfield : field.low ≤ field.high)
    (h : bounds field base slash = .ok (start, stop)) :
    field.low ≤ start ∧ start ≤ stop ∧ stop ≤ field.high := by
  unfold bounds at h
  split at h
  · cases h
    exact ⟨le_rfl, hfield, le_rfl⟩
  · split at h
    · obtain ⟨a, ha, h⟩ := bind_eq_ok.1 h
      obtain ⟨b, hb, h⟩ := bind_eq_ok.1 h
      have hlow := number_spec ha
      have hhigh := number_spec hb
      split at h
      · cases h
      · cases h
        exact ⟨hlow.1, by omega, hhigh.2⟩
    · obtain ⟨a, ha, h⟩ := bind_eq_ok.1 h
      have hbounds := number_spec ha
      cases h
      refine ⟨hbounds.1, ?_⟩
      cases slash
      · exact ⟨le_rfl, hbounds.2⟩
      · exact ⟨hbounds.2, le_rfl⟩

theorem mem_stepped (hle : start ≤ stop) (hstep : 0 < step) :
    v ∈ stepped start stop step ↔ start ≤ v ∧ v ≤ stop ∧ step ∣ v - start := by
  rw [stepped, List.mem_range']
  constructor
  · rintro ⟨i, hi, rfl⟩
    have hmul : step * i ≤ stop - start :=
      (Nat.mul_le_mul_left step (Nat.le_of_lt_succ hi)).trans (Nat.mul_div_le _ _)
    exact ⟨by omega, by omega, i, by omega⟩
  · rintro ⟨hstart, hstop, i, hi⟩
    refine ⟨i, Nat.lt_succ_of_le ((Nat.le_div_iff_mul_le hstep).2 ?_), by omega⟩
    rw [Nat.mul_comm]
    omega

/-- An entry stands for every `step`-th value of a range within the bounds of its field. -/
theorem parsePart_spec (hfield : field.low ≤ field.high) (h : parsePart field part = .ok values) :
    ∃ start stop step, field.low ≤ start ∧ stop ≤ field.high ∧
      ∀ v, v ∈ values ↔ start ≤ v ∧ v ≤ stop ∧ step ∣ v - start := by
  unfold parsePart at h
  obtain ⟨step, hstep, h⟩ := bind_eq_ok.1 h
  obtain ⟨⟨start, stop⟩, hbounds, h⟩ := bind_eq_ok.1 h
  have hpos : 0 < step := by
    unfold stepOf at hstep
    split at hstep
    · exact (number_spec hstep).1
    · cases hstep
      exact Nat.one_pos
  obtain ⟨hlow, hle, hhigh⟩ := bounds_spec hfield hbounds
  cases h
  exact ⟨start, stop, step, hlow, hhigh, fun v ↦ mem_stepped hle hpos⟩

theorem parseField_bounds (hfield : field.low ≤ field.high) (hother : field ≠ weekdayField)
    (h : parseField field text = .ok values) (hv : v ∈ values) :
    field.low ≤ v ∧ v ≤ field.high := by
  unfold parseField at h
  obtain ⟨parts, hparts, h⟩ := bind_eq_ok.1 h
  cases h
  rw [if_neg hother, List.mem_flatten] at hv
  obtain ⟨part, hpart, hv⟩ := hv
  obtain ⟨text', -, hparse⟩ := mem_of_mapM_eq_ok hparts hpart
  split at hparse
  · cases hparse
  · obtain ⟨start, stop, step, hlow, hhigh, hmem⟩ := parsePart_spec hfield hparse
    obtain ⟨hstart, hstop, -⟩ := (hmem v).1 hv
    exact ⟨hlow.trans hstart, hstop.trans hhigh⟩

/-- What holds of every expression that is accepted. -/
structure CronExpr.Sound (e : CronExpr) : Prop where
  minutes : ∀ minute ∈ e.minutes, minute < 60
  hours : ∀ hour ∈ e.hours, hour < 24
  days : e.domRestricted = false → ∀ day, 1 ≤ day → day ≤ 31 → day ∈ e.days
  weekdays : e.dowRestricted = false → ∀ day < 7, day ∈ e.weekdays

theorem parse_sound (h : parse expr = .ok e) : e.Sound := by
  unfold parse at h
  split at h
  · obtain ⟨minutes, hminutes, h⟩ := bind_eq_ok.1 h
    obtain ⟨hours, hhours, h⟩ := bind_eq_ok.1 h
    obtain ⟨days, hdays, h⟩ := bind_eq_ok.1 h
    obtain ⟨months, hmonths, h⟩ := bind_eq_ok.1 h
    obtain ⟨weekdays, hweekdays, h⟩ := bind_eq_ok.1 h
    cases h
    refine ⟨fun minute hminute ↦ ?_, fun hour hhour ↦ ?_, fun hstar day hlow hhigh ↦ ?_,
      fun hstar day hday ↦ ?_⟩
    · have hbounds := parseField_bounds (by decide) (by decide) hminutes hminute
      exact Nat.lt_succ_of_le hbounds.2
    · have hbounds := parseField_bounds (by decide) (by decide) hhours hhour
      exact Nat.lt_succ_of_le hbounds.2
    · simp only [decide_eq_false_iff_not, ne_eq, not_not] at hstar
      rw [hstar] at hdays
      have hall : parseField dayField ['*'] = .ok (List.range' 1 31) := rfl
      rw [hall] at hdays
      cases hdays
      exact List.mem_range'_1.2 ⟨hlow, by omega⟩
    · simp only [decide_eq_false_iff_not, ne_eq, not_not] at hstar
      rw [hstar] at hweekdays
      have hall : parseField weekdayField ['*'] = .ok [0, 1, 2, 3, 4, 5, 6, 0] := rfl
      rw [hall] at hweekdays
      cases hweekdays
      exact (by decide : ∀ day < 7, day ∈ [0, 1, 2, 3, 4, 5, 6, 0]) day hday
  · cases h

end Parse

namespace CronExpr

/-- What an expression says of a day: either of its two fields if both are restricted, else both. -/
def MatchesDay (e : CronExpr) (day : ℕ) : Prop :=
  monthOf day % 12 + 1 ∈ e.months ∧
    if e.domRestricted ∧ e.dowRestricted then
      dayOf day ∈ e.days ∨ (day % 7 + 1) % 7 ∈ e.weekdays
    else dayOf day ∈ e.days ∧ (day % 7 + 1) % 7 ∈ e.weekdays

/-- What it says of a minute, counted from the first day on. -/
def Matches (e : CronExpr) (minute : ℕ) : Prop :=
  minute % 60 ∈ e.minutes ∧ minute / 60 % 24 ∈ e.hours ∧ e.MatchesDay (minute / 1440)

/-- The whole minutes after a `datetime` that match, in microseconds, at any time to come. -/
def runs (e : CronExpr) (dt : Datetime) : Set ℕ :=
  {t | ∃ minute, t = minute * minuteMicros ∧ dt.1 < t ∧ e.Matches minute}

end CronExpr

section Search

variable {e : CronExpr} {day day' minute minute' first left offset : ℕ}

theorem dayMatches_iff : e.dayMatches day = true ↔ e.MatchesDay day := by
  unfold CronExpr.dayMatches CronExpr.MatchesDay
  by_cases hmonth : monthOf day % 12 + 1 ∈ e.months
  · cases e.domRestricted <;> cases e.dowRestricted <;> simp [hmonth]
  · simp [hmonth]

theorem clock_le (h : minute / 1440 = minute' / 1440) :
    clock minute ≤ clock minute' ↔ minute ≤ minute' := by
  rw [clock, clock, Prod.Lex.toLex_le_toLex]
  dsimp only
  omega

theorem mem_times {time : ℕ ×ₗ ℕ} :
    time ∈ e.times ↔ (ofLex time).1 ∈ e.hours ∧ (ofLex time).2 ∈ e.minutes := by
  simp only [CronExpr.times, mem_sortedSet, List.mem_flatMap, List.mem_map]
  constructor
  · rintro ⟨hour, hhour, minute, hminute, rfl⟩
    exact ⟨hhour, hminute⟩
  · rintro ⟨hhour, hminute⟩
    exact ⟨_, hhour, _, hminute, rfl⟩

theorem clock_mem_times (h : e.Matches minute) : clock minute ∈ e.times := mem_times.2 ⟨h.2.1, h.1⟩

theorem sorted_times (e : CronExpr) : e.times.Pairwise fun time time' ↦ time ≤ time' :=
  List.pairwise_insertionSort _ _

/-- A time of the day on a day. -/
theorem minute_spec (hsound : e.Sound) {time : ℕ ×ₗ ℕ} (htime : time ∈ e.times) (day : ℕ) :
    clock (day * 1440 + ((ofLex time).1 * 60 + (ofLex time).2)) = time ∧
      (day * 1440 + ((ofLex time).1 * 60 + (ofLex time).2)) / 1440 = day := by
  obtain ⟨hhour, hminute⟩ := mem_times.1 htime
  have hhour := hsound.hours _ hhour
  have hminute := hsound.minutes _ hminute
  refine ⟨?_, by omega⟩
  refine ofLex_inj.1 (Prod.ext ?_ ?_)
  · change (day * 1440 + ((ofLex time).1 * 60 + (ofLex time).2)) / 60 % 24 = _
    omega
  · change (day * 1440 + ((ofLex time).1 * 60 + (ofLex time).2)) % 60 = _
    omega

theorem matches_of_clock {time : ℕ ×ₗ ℕ} (htime : time ∈ e.times) (hclock : clock minute = time)
    (hday : e.MatchesDay (minute / 1440)) : e.Matches minute := by
  obtain ⟨hhour, hminute⟩ := mem_times.1 (hclock ▸ htime)
  exact ⟨hminute, hhour, hday⟩

theorem ofMinute_eq_ok (h : minute < Calendar.maxDays * 1440) :
    ∃ t, ofMinute minute = .ok t ∧ t.1 = minute * minuteMicros := by
  have hlt : minute * minuteMicros < Calendar.maxDays * dayMicros :=
    (Nat.mul_lt_mul_of_pos_right h (by decide)).trans_eq rfl
  rw [ofMinute, of?_of_lt hlt]
  exact ⟨_, rfl, rfl⟩

theorem runAt_eq_ok {time : ℕ ×ₗ ℕ} (hday : day < Calendar.maxDays) (hhour : (ofLex time).1 < 24)
    (hminute : (ofLex time).2 < 60) : ∃ t, runAt day time = .ok t ∧
      t.1 = (day * 1440 + ((ofLex time).1 * 60 + (ofLex time).2)) * minuteMicros :=
  ofMinute_eq_ok (by omega)

/-- The first match not before a minute. -/
def IsFirst (e : CronExpr) (first minute : ℕ) : Prop :=
  first ≤ minute ∧ e.Matches minute ∧ ∀ minute', first ≤ minute' → e.Matches minute' →
    minute ≤ minute'

/-- A time of a day that the search does not skip. -/
def Open (first offset : ℕ) (time : ℕ ×ₗ ℕ) : Prop := offset = 0 → clock first ≤ time

theorem search_succ {midnight : Datetime}
    (hmidnight : runAt (first / 1440 + offset) (toLex (0, 0)) = .ok midnight) :
    e.search (first / 1440) (clock first) (left + 1) offset =
      if e.dayMatches (first / 1440 + offset) then
        match e.times.find? fun time ↦ ¬(offset = 0 ∧ time < clock first) with
        | some time => runAt (first / 1440 + offset) time
        | none => e.search (first / 1440) (clock first) left (offset + 1)
      else e.search (first / 1440) (clock first) left (offset + 1) := by
  rw [CronExpr.search, hmidnight]
  rfl

/-- The search goes on, or it ends with the first open time of a day that matches. -/
theorem search_cases (hday : first / 1440 + offset < Calendar.maxDays) :
    (e.search (first / 1440) (clock first) (left + 1) offset =
        e.search (first / 1440) (clock first) left (offset + 1) ∧
      (e.MatchesDay (first / 1440 + offset) → ∀ time ∈ e.times, ¬Open first offset time)) ∨
    ∃ time ∈ e.times, Open first offset time ∧ e.MatchesDay (first / 1440 + offset) ∧
      (∀ time' ∈ e.times, Open first offset time' → time ≤ time') ∧
      e.search (first / 1440) (clock first) (left + 1) offset =
        runAt (first / 1440 + offset) time := by
  have hopen : ∀ time, (decide ¬(offset = 0 ∧ time < clock first)) = true ↔
      Open first offset time := by
    intro time
    rw [decide_eq_true_eq, not_and, not_lt, Open]
  obtain ⟨midnight, hmidnight, -⟩ : ∃ t, runAt (first / 1440 + offset) (toLex (0, 0)) = .ok t ∧ _ :=
    runAt_eq_ok hday (by decide) (by decide)
  rw [search_succ hmidnight]
  by_cases hmatches : e.dayMatches (first / 1440 + offset) = true
  · rw [if_pos hmatches]
    cases hfind : e.times.find? fun time ↦ ¬(offset = 0 ∧ time < clock first) with
    | none =>
      refine .inl ⟨rfl, fun _ time htime ↦ ?_⟩
      rw [← hopen]
      exact List.find?_eq_none.1 hfind time htime
    | some time =>
      have hfound := List.find?_some hfind
      refine .inr ⟨time, List.mem_of_find?_eq_some hfind, (hopen time).1 hfound,
        dayMatches_iff.1 hmatches, fun time' htime' hopen' ↦ ?_, rfl⟩
      exact find?_le (sorted_times e) hfind htime' ((hopen time').2 hopen')
  · rw [if_neg hmatches]
    exact .inl ⟨rfl, fun h ↦ absurd (dayMatches_iff.2 h) hmatches⟩

theorem open_clock (h : minute / 1440 = first / 1440 + offset) :
    Open first offset (clock minute) ↔ first ≤ minute := by
  unfold Open
  constructor
  · intro hopen
    by_cases hzero : offset = 0
    · exact (clock_le (by omega)).1 (hopen hzero)
    · omega
  · rintro hle rfl
    exact (clock_le (by omega)).2 hle

/-- The search of the days from an offset on, after no day before it has had a match. -/
theorem search_spec (hsound : e.Sound) {left offset : ℕ}
    (hspace : first / 1440 + offset + left ≤ Calendar.maxDays)
    (hnone : ∀ minute, first ≤ minute → minute / 1440 < first / 1440 + offset →
      ¬e.Matches minute) :
    (∃ t minute, e.search (first / 1440) (clock first) left offset = .ok t ∧
        t.1 = minute * minuteMicros ∧ IsFirst e first minute) ∨
      e.search (first / 1440) (clock first) left offset = .error .ended ∧
        ∀ minute, first ≤ minute → minute / 1440 < first / 1440 + offset + left →
          ¬e.Matches minute := by
  induction left generalizing offset with
  | zero => exact .inr ⟨rfl, hnone⟩
  | succ left ih =>
    have hday : first / 1440 + offset < Calendar.maxDays := by omega
    have hcases := @search_cases e first left offset hday
    rcases hcases with ⟨heq, hno⟩ | ⟨time, htime, hopen, hmatches, hleast, heq⟩
    · have hspace' : first / 1440 + offset + (left + 1) = first / 1440 + (offset + 1) + left := by
        omega
      rw [heq, hspace']
      refine ih (by omega) fun minute hfirst hlt hmatches ↦ ?_
      rcases Nat.lt_or_ge (minute / 1440) (first / 1440 + offset) with hbefore | hge
      · exact hnone minute hfirst hbefore hmatches
      · have hon : minute / 1440 = first / 1440 + offset := by omega
        exact hno (hon ▸ hmatches.2.2) _ (clock_mem_times hmatches) ((open_clock hon).2 hfirst)
    · obtain ⟨hhour, hminute⟩ := mem_times.1 htime
      obtain ⟨t, hrun, ht⟩ := runAt_eq_ok hday (hsound.hours _ hhour) (hsound.minutes _ hminute)
      obtain ⟨hclock, hdiv⟩ := minute_spec hsound htime (first / 1440 + offset)
      refine .inl ⟨t, _, heq.trans hrun, ht, (open_clock hdiv).1 (hclock.symm ▸ hopen),
        matches_of_clock htime hclock (hdiv.symm ▸ hmatches), fun minute hfirst hmatches' ↦ ?_⟩
      rcases Nat.lt_trichotomy (minute / 1440) (first / 1440 + offset) with hlt | hon | hgt
      · exact absurd hmatches' (hnone minute hfirst hlt)
      · have hle := hleast _ (clock_mem_times hmatches') ((open_clock hon).2 hfirst)
        rw [← hclock] at hle
        exact (clock_le (hdiv.trans hon.symm)).1 hle
      · omega

end Search

section Exact

variable {e : CronExpr} {expr : List Char} {day minute first : ℕ} {dt : Datetime}

theorem weekday_congr {day day' : ℕ} (h : day % 7 = day' % 7) :
    (day % 7 + 1) % 7 = (day' % 7 + 1) % 7 := by rw [h]

theorem mem_days (hsound : e.Sound) (hdom : e.domRestricted = false) (day : ℕ) :
    dayOf day ∈ e.days :=
  hsound.days hdom _ (Nat.succ_pos _) ((dayOf_le day).trans (monthLength_le _))

theorem mem_weekdays (hsound : e.Sound) (hdow : e.dowRestricted = false) (day : ℕ) :
    (day % 7 + 1) % 7 ∈ e.weekdays :=
  hsound.weekdays hdow _ (Nat.mod_lt _ (by decide))

/-- An expression that matches some day matches one within every eight years. -/
theorem exists_match_after (hsound : e.Sound) (h : e.MatchesDay day) (d : ℕ) :
    ∃ d', d < d' ∧ d' ≤ d + 2921 ∧ e.MatchesDay d' := by
  obtain ⟨hmonth, hfields⟩ := h
  obtain ⟨d₁, hlt₁, hle₁, hmonth₁, hday₁⟩ :=
    exists_day_after d (Nat.succ_pos _) (dayOf_le day)
  obtain ⟨d₂, hlt₂, hle₂, hmonth₂, hday₂⟩ := exists_weekday_after d (monthOf day) day
  rw [← hmonth₁] at hmonth
  have hmonth' := hmonth
  rw [hmonth₁, ← hmonth₂] at hmonth'
  have hweekday := weekday_congr hday₂
  cases hdom : e.domRestricted with
  | false =>
    refine ⟨d₂, hlt₂, hle₂, hmonth', ?_⟩
    simp only [hdom, Bool.false_eq_true, false_and, if_false] at hfields ⊢
    exact ⟨mem_days hsound hdom d₂, hweekday ▸ hfields.2⟩
  | true =>
    cases hdow : e.dowRestricted with
    | false =>
      refine ⟨d₁, hlt₁, hle₁, hmonth, ?_⟩
      simp only [hdom, hdow, Bool.false_eq_true, and_false, if_false] at hfields ⊢
      exact ⟨hday₁ ▸ hfields.1, mem_weekdays hsound hdow d₁⟩
    | true =>
      simp only [CronExpr.MatchesDay, hdom, hdow, and_self, if_true] at hfields ⊢
      rcases hfields with hfield | hfield
      · exact ⟨d₁, hlt₁, hle₁, hmonth, .inl (hday₁ ▸ hfield)⟩
      · exact ⟨d₂, hlt₂, hle₂, hmonth', .inr (hweekday ▸ hfield)⟩

/-- So the search of 2928 days misses no match. -/
theorem match_within (hsound : e.Sound) (h : e.Matches minute) (first : ℕ) :
    ∃ minute', first ≤ minute' ∧ minute' / 1440 < first / 1440 + maxDays ∧ e.Matches minute' := by
  obtain ⟨d, hlt, hle, hday⟩ := exists_match_after hsound h.2.2 (first / 1440)
  obtain ⟨hclock, hdiv⟩ := minute_spec hsound (clock_mem_times h) d
  have hspace : maxDays = 2928 := rfl
  exact ⟨_, by omega, by omega, matches_of_clock (clock_mem_times h) hclock (hdiv.symm ▸ hday)⟩

theorem day_lt_of_year (h : yearOf dt.month < 9000) : dt.1 / dayMicros < 3286817 := by
  have hmonth : monthOf (dt.1 / dayMicros) + 1 ≤ 12 * 8999 := by
    change monthOf (dt.1 / dayMicros) / 12 + 1 < 9000 at h
    omega
  have hlt := (lt_monthStart_succ (dt.1 / dayMicros)).trans_le
    (monthStart_strictMono.monotone hmonth)
  rwa [monthStart_january] at hlt

theorem mem_runs {t : ℕ} : t ∈ e.runs dt ↔
    ∃ minute, t = minute * minuteMicros ∧ dt.1 / minuteMicros + 1 ≤ minute ∧ e.Matches minute := by
  refine exists_congr fun minute ↦ and_congr_right ?_
  rintro rfl
  refine and_congr_left fun _ ↦ ?_
  exact (Nat.div_lt_iff_lt_mul (by decide)).symm

/-- The next run is the least match after a `datetime`, and there is none if and only if there is
no match at any later time. -/
theorem next_run_exact (hparse : parse expr = .ok e) (hyear : yearOf dt.month < 9000) :
    (∃ t, e.nextAfter dt = .ok t ∧ IsLeast (e.runs dt) t.1) ∨
      e.nextAfter dt = .error .ended ∧ e.runs dt = ∅ := by
  have hsound := parse_sound hparse
  have hday := day_lt_of_year hyear
  have hminutes : dt.1 / minuteMicros / 1440 = dt.1 / dayMicros := Nat.div_div_eq_div_mul _ _ _
  obtain ⟨first, hfirst⟩ : ∃ first, first = dt.1 / minuteMicros + 1 := ⟨_, rfl⟩
  have hspace : first / 1440 + 0 + maxDays ≤ Calendar.maxDays := by
    have hdays : maxDays = 2928 := rfl
    have hall : Calendar.maxDays = 3652059 := rfl
    omega
  have hlt : first < Calendar.maxDays * 1440 := by
    have hdays : maxDays = 2928 := rfl
    omega
  obtain ⟨start, hstart, hmicros⟩ := ofMinute_eq_ok hlt
  have hback : start.1 / minuteMicros = first := by
    rw [hmicros]
    exact Nat.mul_div_cancel _ (by decide)
  have hnext : e.nextAfter dt = e.search (first / 1440) (clock first) maxDays 0 := by
    rw [CronExpr.nextAfter, ← hfirst, hstart, ok_bind, hback, CronExpr.searchFrom]
  rw [hnext]
  have hruns : ∀ t, t ∈ e.runs dt ↔
      ∃ minute, t = minute * minuteMicros ∧ first ≤ minute ∧ e.Matches minute := by
    rw [hfirst]
    exact fun _ ↦ mem_runs
  rcases search_spec hsound hspace fun minute _ hbefore ↦ by omega with
    ⟨t, minute, hsearch, ht, hle, hmatches, hleast⟩ | ⟨hsearch, hnone⟩
  · refine .inl ⟨t, hsearch, (hruns _).2 ⟨minute, ht, hle, hmatches⟩, fun t' ht' ↦ ?_⟩
    obtain ⟨minute', rfl, hle', hmatches'⟩ := (hruns _).1 ht'
    rw [ht]
    exact Nat.mul_le_mul_right _ (hleast minute' hle' hmatches')
  · refine .inr ⟨hsearch, Set.eq_empty_of_forall_notMem fun t ht ↦ ?_⟩
    obtain ⟨minute, -, -, hmatches⟩ := (hruns _).1 ht
    obtain ⟨minute', hle, hbound, hmatches'⟩ := match_within hsound hmatches first
    exact hnone minute' hle hbound hmatches'

section Sample

/-- 29 February at noon. -/
def leapNoon : CronExpr := ⟨[0], [12], [29], [2], [0, 1, 2, 3, 4, 5, 6, 0], true, false⟩

/-- The first midnight of the calendar. -/
def firstMidnight : Datetime := ⟨0, by decide⟩

/-- The first 29 February is in the year 4. -/
theorem next_run_exact_sample :
    IsLeast (leapNoon.runs firstMidnight) (1154 * dayMicros + 720 * minuteMicros) := by
  have hparse : parse "0 12 29 2 *".toList = .ok leapNoon := by decide +kernel
  have hnext : (leapNoon.nextAfter firstMidnight).toOption.map (·.1) =
      some (1154 * dayMicros + 720 * minuteMicros) := by
    decide +kernel
  have hyear : yearOf firstMidnight.month < 9000 := by decide +kernel
  rcases next_run_exact hparse hyear with ⟨t, ht, hleast⟩ | ⟨hnone, -⟩
  · rw [ht] at hnext
    exact Option.some.inj hnext ▸ hleast
  · rw [hnone] at hnext
    cases hnext

end Sample

end Exact

end Tiqora.Util.Cron
