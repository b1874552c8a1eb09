import Tiqora.Calendar.Coverage

namespace Tiqora.Calendar

open Foundation.Civil

/-- The months between two occurrences of a monthly or yearly series with interval 1. -/
def RecurType.months : RecurType → Option ℕ
  | .monthly => some 1
  | .yearly => some 12
  | _ => none

/-- The day of the `k`-th occurrence: the least of the start's day and the lengths of the months
of all occurrences since. -/
def keptDay (month day interval k : ℕ) : ℕ :=
  ((List.range k).map fun j ↦ monthLength (month + (j + 1) * interval)).foldl min day

theorem keptDay_succ (month day interval k : ℕ) : keptDay month day interval (k + 1) =
    min (keptDay month day interval k) (monthLength (month + (k + 1) * interval)) := by
  rw [keptDay, List.range_succ, List.map_append, List.foldl_append]
  rfl

variable {a : Appointment} {type : RecurType} {k months : ℕ} {t t' : Datetime}

theorem step_months (hmonths : type.months = some months) (h : step type a.interval t = some t') :
    t'.month = t.month + months * a.interval ∧ t'.day = min t.day (monthLength t'.month) ∧
      t'.time = t.time := by
  cases type with
  | monthly =>
    cases hmonths
    rw [Nat.one_mul]
    exact addMonths_spec h
  | yearly =>
    cases hmonths
    rw [Nat.mul_comm]
    exact addMonths_spec h
  | _ => cases hmonths

/-- Each occurrence of a monthly or yearly series is in the month that its number asks for. -/
theorem occurrence_months (hmonths : type.months = some months)
    (h : a.occurrence type k = some t) :
    t.month = a.startTime.month + k * (months * a.interval) ∧
      t.day = keptDay a.startTime.month a.startTime.day (months * a.interval) k ∧
        t.time = a.startTime.time := by
  induction k generalizing t with
  | zero =>
    cases h
    refine ⟨?_, rfl, rfl⟩
    rw [Nat.zero_mul, Nat.add_zero]
  | succ k ih =>
    obtain ⟨s, hs, hstep⟩ := occurrence_succ.1 h
    obtain ⟨hmonth, hday, htime⟩ := ih hs
    obtain ⟨hmonth', hday', htime'⟩ := step_months hmonths hstep
    have hnext : t.month = a.startTime.month + (k + 1) * (months * a.interval) := by
      rw [hmonth', hmonth, Nat.succ_mul, Nat.add_assoc]
    refine ⟨hnext, ?_, htime'.trans htime⟩
    rw [hday', hday, hnext, keptDay_succ]

/-- A day is only kept up to the shortest month on the way. The occurrences fall in the months of
their numbers, each on the day of the one before or on the last of its month, and a window lists
occurrences of the series in order. -/
theorem days_carried (hmonths : type.months = some months) (htype : a.recurType = some type) :
    (∀ k t, a.occurrence type k = some t →
      t.month = a.startTime.month + k * (months * a.interval) ∧
        t.day = keptDay a.startTime.month a.startTime.day (months * a.interval) k ∧
          t.time = a.startTime.time) ∧
    ∀ w os, a.expandOccurrences w = some os →
      (os.Pairwise fun o o' ↦ o.start < o'.start) ∧
        ∀ o ∈ os, ∃ k, a.occurrence type k = some o.start := by
  refine ⟨fun k t h ↦ occurrence_months hmonths h, fun w os h ↦ ?_⟩
  have hlists := expand_spec htype h
  refine ⟨hlists.ordered, fun o ho ↦ ?_⟩
  obtain ⟨k, -, -, hoccurs⟩ := (hlists.mem o).1 ho
  exact ⟨k, hoccurs.reaches.occurrence⟩

section Sample

/-- Monthly from 9 to 10 from January 31, 2026 on. -/
def monthEnd : Appointment where
  startTime := clock 739646 9 (by decide)
  endTime := clock 739646 10 (by decide)
  recurType := some .monthly
  recurInterval := some 1
  recurCount := none
  recurUntil := none
  exclude := []
  ends := by decide

/-- March 2026. -/
def march : Window :=
  ⟨⟨739675 * dayMicros, by decide⟩, ⟨739706 * dayMicros, by decide⟩⟩

/-- The first occurrence after January 31 is February 28. -/
theorem days_carried_sample :
    (clock 739674 9 (by decide)).month = monthEnd.startTime.month + 1 * (1 * monthEnd.interval) ∧
      (clock 739674 9 (by decide)).day =
          keptDay monthEnd.startTime.month monthEnd.startTime.day (1 * monthEnd.interval) 1 ∧
        (clock 739674 9 (by decide)).time = monthEnd.startTime.time := by
  have htype : monthEnd.recurType = some .monthly := rfl
  exact (days_carried rfl htype).1 1 _ (by decide +kernel)

/-- The second occurrence after January 31 is March 28. -/
theorem day_not_kept : ∃ o ∈ (monthEnd.expandOccurrences march).getD [],
    monthEnd.occurrence .monthly 2 = some o.start ∧
      o.start.month = monthEnd.startTime.month + 2 ∧ o.start.day = 28 ∧
        min monthEnd.startTime.day (monthLength o.start.month) = 31 := by
  refine ⟨⟨clock 739702 9 (by decide), clock 739702 10 (by decide), true⟩, ?_⟩
  decide +kernel

end Sample

end Tiqora.Calendar
