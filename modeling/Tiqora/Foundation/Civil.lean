import Mathlib.Data.Nat.Find
import Mathlib.Order.Monotone.Basic

namespace Tiqora.Foundation.Civil

def IsLeap (year : ℕ) : Prop := year % 4 = 0 ∧ (year % 100 ≠ 0 ∨ year % 400 = 0)

instance (year : ℕ) : Decidable (IsLeap year) := inferInstanceAs (Decidable (_ ∧ _))

/-- The year of a month. Months are counted from January of the year 1. -/
def yearOf (m : ℕ) : ℕ := m / 12 + 1

def monthLength (m : ℕ) : ℕ :=
  match m % 12 with
  | 1 => if IsLeap (yearOf m) then 29 else 28
  | 3 | 5 | 8 | 10 => 30
  | _ => 31

/-- The days of a year before one of its months, without a leap day. -/
def daysBeforeMonth : ℕ → ℕ
  | 0 => 0 | 1 => 31 | 2 => 59 | 3 => 90 | 4 => 120 | 5 => 151 | 6 => 181 | 7 => 212 | 8 => 243
  | 9 => 273 | 10 => 304 | _ => 334

def daysBeforeYear (year : ℕ) : ℕ :=
  365 * (year - 1) + (year - 1) / 4 - (year - 1) / 100 + (year - 1) / 400

/-- The first day of a month. Days are counted from January 1 of the year 1. -/
def monthStart (m : ℕ) : ℕ :=
  daysBeforeYear (yearOf m) + daysBeforeMonth (m % 12) +
    if 2 ≤ m % 12 ∧ IsLeap (yearOf m) then 1 else 0

theorem daysBeforeYear_succ (year : ℕ) : daysBeforeYear (year + 2) =
    daysBeforeYear (year + 1) + if IsLeap (year + 1) then 366 else 365 := by
  have hquotient : ∀ b, (year + 1) / b = year / b + if (year + 1) % b = 0 then 1 else 0 := by
    intro b
    rw [Nat.succ_div]
    simp only [Nat.dvd_iff_mod_eq_zero]
  have hcentury : year / 100 ≤ year / 4 := by omega
  have hfour : (year + 1) % 100 = 0 → (year + 1) % 4 = 0 := by omega
  have hfours : (year + 1) % 400 = 0 → (year + 1) % 100 = 0 := by omega
  have hstart : daysBeforeYear (year + 1) =
      365 * year + year / 4 - year / 100 + year / 400 := rfl
  have hnext : daysBeforeYear (year + 2) =
      365 * (year + 1) + (year + 1) / 4 - (year + 1) / 100 + (year + 1) / 400 := rfl
  rw [hnext, hstart, hquotient 4, hquotient 100, hquotient 400]
  simp only [IsLeap]
  by_cases h4 : (year + 1) % 4 = 0 <;> by_cases h100 : (year + 1) % 100 = 0 <;>
    by_cases h400 : (year + 1) % 400 = 0 <;> simp_all <;> omega

theorem monthStart_succ (m : ℕ) : monthStart (m + 1) = monthStart m + monthLength m := by
  obtain ⟨year, k, hk, rfl⟩ : ∃ year k, k < 12 ∧ m = 12 * year + k :=
    ⟨m / 12, m % 12, Nat.mod_lt _ (by decide), by omega⟩
  have hyear := daysBeforeYear_succ year
  have hdiv : (12 * year + k) / 12 = year := by omega
  have hmod : (12 * year + k) % 12 = k := by omega
  by_cases hlast : k = 11
  · subst hlast
    have hdiv' : (12 * year + 11 + 1) / 12 = year + 1 := by omega
    have hmod' : (12 * year + 11 + 1) % 12 = 0 := by omega
    simp only [monthStart, monthLength, yearOf, hdiv, hmod, hdiv', hmod', hyear, daysBeforeMonth]
    by_cases hleap : IsLeap (year + 1) <;> simp [hleap]
  · have hdiv' : (12 * year + k + 1) / 12 = year := by omega
    have hmod' : (12 * year + k + 1) % 12 = k + 1 := by omega
    simp only [monthStart, monthLength, yearOf, hdiv, hmod, hdiv', hmod']
    have hcases : k = 0 ∨ k = 1 ∨ k = 2 ∨ k = 3 ∨ k = 4 ∨ k = 5 ∨ k = 6 ∨ k = 7 ∨ k = 8 ∨ k = 9 ∨
        k = 10 := by omega
    rcases hcases with rfl | rfl | rfl | rfl | rfl | rfl | rfl | rfl | rfl | rfl | rfl <;>
      by_cases hleap : IsLeap (year + 1) <;> simp [hleap, daysBeforeMonth]

theorem monthLength_ge (m : ℕ) : 28 ≤ monthLength m := by
  rw [monthLength.eq_def]
  split
  · split <;> decide
  all_goals decide

theorem monthStart_strictMono : StrictMono monthStart := by
  refine strictMono_nat_of_lt_succ fun m ↦ ?_
  have hlength := monthLength_ge m
  rw [monthStart_succ]
  omega

theorem monthStart_ge (m : ℕ) : 28 * m ≤ monthStart m := by
  induction m with
  | zero => exact Nat.zero_le _
  | succ m ih =>
    have hlength := monthLength_ge m
    rw [monthStart_succ]
    omega

/-- The month of a day. -/
def monthOf (d : ℕ) : ℕ := Nat.findGreatest (fun m ↦ monthStart m ≤ d) (d / 28)

/-- The day of the month. -/
def dayOf (d : ℕ) : ℕ := d - monthStart (monthOf d) + 1

theorem monthStart_monthOf (d : ℕ) : monthStart (monthOf d) ≤ d :=
  Nat.findGreatest_spec (P := fun m ↦ monthStart m ≤ d) (Nat.zero_le _) (Nat.zero_le d)

theorem lt_monthStart_succ (d : ℕ) : d < monthStart (monthOf d + 1) := by
  by_contra hle
  rw [not_lt] at hle
  have hbound := monthStart_ge (monthOf d + 1)
  have hgreatest : monthOf d + 1 ≤ monthOf d :=
    Nat.le_findGreatest (P := fun m ↦ monthStart m ≤ d) (by omega) hle
  omega

theorem monthOf_eq {m d : ℕ} (hstart : monthStart m ≤ d) (hend : d < monthStart (m + 1)) :
    monthOf d = m := by
  have hle := monthStart_strictMono.lt_iff_lt.1 ((monthStart_monthOf d).trans_lt hend)
  have hge := monthStart_strictMono.lt_iff_lt.1 (hstart.trans_lt (lt_monthStart_succ d))
  omega

theorem dayOf_le (d : ℕ) : dayOf d ≤ monthLength (monthOf d) := by
  have hlt := lt_monthStart_succ d
  have hle := monthStart_monthOf d
  rw [monthStart_succ] at hlt
  rw [dayOf]
  omega

/-- The day with a number in a month. -/
def ofMonthDay (m day : ℕ) : ℕ := monthStart m + (day - 1)

variable {m day : ℕ}

theorem monthOf_ofMonthDay (hpos : 0 < day) (hle : day ≤ monthLength m) :
    monthOf (ofMonthDay m day) = m := by
  refine monthOf_eq (Nat.le_add_right _ _) ?_
  rw [monthStart_succ, ofMonthDay]
  omega

theorem dayOf_ofMonthDay (hpos : 0 < day) (hle : day ≤ monthLength m) :
    dayOf (ofMonthDay m day) = day := by
  rw [dayOf, monthOf_ofMonthDay hpos hle, ofMonthDay]
  omega

section Gaps

theorem monthLength_le (m : ℕ) : monthLength m ≤ 31 := by
  rw [monthLength.eq_def]
  split
  · split <;> decide
  all_goals decide

theorem monthStart_add_le (m k : ℕ) : monthStart (m + k) ≤ monthStart m + 31 * k := by
  induction k with
  | zero => simp
  | succ k ih =>
    have hlength := monthLength_le (m + k)
    rw [← Nat.add_assoc, monthStart_succ]
    omega

/-- Only February has different lengths. -/
theorem monthLength_congr {m m' : ℕ} (h : m % 12 = m' % 12) (hother : m' % 12 ≠ 1) :
    monthLength m = monthLength m' := by
  rw [monthLength.eq_def, monthLength.eq_def m', h]
  split <;> first | rfl | contradiction

theorem le_monthLength {m m' day : ℕ} (h : m % 12 = m' % 12) (hday : day ≤ monthLength m')
    (hother : m' % 12 = 1 → day ≤ 28) : day ≤ monthLength m := by
  by_cases hfeb : m' % 12 = 1
  · exact (hother hfeb).trans (monthLength_ge m)
  · rwa [monthLength_congr h hfeb]

/-- Within a year after a day comes each month with all its days. -/
theorem exists_month_after (d k : ℕ) : ∃ m, m % 12 = k % 12 ∧ d < monthStart m ∧
    monthStart m + 31 ≤ d + 403 := by
  have hlow := lt_monthStart_succ d
  have hle := monthStart_monthOf d
  refine ⟨monthOf d + 1 + (k + 11 * (monthOf d + 1)) % 12, by omega, ?_, ?_⟩
  · exact hlow.trans_le (monthStart_strictMono.monotone (Nat.le_add_right _ _))
  · have hadd := monthStart_add_le (monthOf d) (1 + (k + 11 * (monthOf d + 1)) % 12)
    rw [← Nat.add_assoc] at hadd
    omega

theorem monthStart_january (year : ℕ) : monthStart (12 * year) = daysBeforeYear (year + 1) := by
  have hdiv : 12 * year / 12 = year := by omega
  have hmod : 12 * year % 12 = 0 := by omega
  simp [monthStart, yearOf, daysBeforeMonth, hdiv, hmod]

theorem monthStart_february (year : ℕ) :
    monthStart (12 * year + 1) = daysBeforeYear (year + 1) + 31 := by
  have hdiv : (12 * year + 1) / 12 = year := by omega
  have hmod : (12 * year + 1) % 12 = 1 := by omega
  simp [monthStart, yearOf, daysBeforeMonth, hdiv, hmod]

theorem monthLength_february {year : ℕ} (h : IsLeap (year + 1)) :
    monthLength (12 * year + 1) = 29 := by
  have hdiv : (12 * year + 1) / 12 = year := by omega
  have hmod : (12 * year + 1) % 12 = 1 := by omega
  simp [monthLength, yearOf, hdiv, hmod, h]

/-- Of eight years in a row one is a leap year. -/
theorem exists_leap (year : ℕ) : ∃ k ≤ 7, IsLeap (year + k) ∧ ∀ j < k, ¬IsLeap (year + j) := by
  have hexists : ∃ k, IsLeap (year + k) ∧ k ≤ 7 := by
    by_cases hleap : IsLeap (year + (4 - year % 4) % 4)
    · exact ⟨_, hleap, by omega⟩
    · refine ⟨(4 - year % 4) % 4 + 4, ?_, by omega⟩
      unfold IsLeap at hleap ⊢
      omega
  have hexists' : ∃ k, IsLeap (year + k) := hexists.imp fun _ h ↦ h.1
  obtain ⟨k, hk, hle⟩ := hexists
  exact ⟨Nat.find hexists', (Nat.find_min' hexists' hk).trans hle, Nat.find_spec hexists',
    fun j hj ↦ Nat.find_min hexists' hj⟩

theorem daysBeforeYear_add {year k : ℕ} (h : ∀ j < k, ¬IsLeap (year + 1 + j)) :
    daysBeforeYear (year + 1 + k) = daysBeforeYear (year + 1) + 365 * k := by
  induction k with
  | zero => rfl
  | succ k ih =>
    have hnext := daysBeforeYear_succ (year + k)
    have hyear : year + k + 1 = year + 1 + k := by omega
    rw [hyear, if_neg (h k (Nat.lt_succ_self k)), ih fun j hj ↦ h j (Nat.lt_succ_of_lt hj)] at hnext
    have hsucc : year + 1 + (k + 1) = year + k + 2 := by omega
    rw [hsucc, hnext]
    omega

/-- The longest time without a 29 February is that around a century. -/
theorem exists_leapDay_after (d : ℕ) : ∃ year, IsLeap (year + 1) ∧
    d < monthStart (12 * year + 1) + 28 ∧ monthStart (12 * year + 1) + 28 ≤ d + 2921 := by
  obtain ⟨year, hyear⟩ : ∃ year, year = monthOf d / 12 := ⟨_, rfl⟩
  have hstart : daysBeforeYear (year + 1) ≤ d := by
    rw [← monthStart_january]
    refine le_trans (monthStart_strictMono.monotone ?_) (monthStart_monthOf d)
    omega
  have hend : d < daysBeforeYear (year + 2) := by
    rw [← monthStart_january]
    refine (lt_monthStart_succ d).trans_le (monthStart_strictMono.monotone ?_)
    omega
  have hlength := daysBeforeYear_succ year
  by_cases hleap : IsLeap (year + 1)
  · rw [if_pos hleap] at hlength
    by_cases hbefore : d < daysBeforeYear (year + 1) + 59
    · refine ⟨year, hleap, ?_⟩
      rw [monthStart_february]
      omega
    · obtain ⟨k, hk, hnext, hnone⟩ := exists_leap (year + 2)
      have hdays : daysBeforeYear (year + 2 + k) = daysBeforeYear (year + 2) + 365 * k :=
        daysBeforeYear_add hnone
      have hyear' : year + 1 + k + 1 = year + 2 + k := by omega
      refine ⟨year + 1 + k, ?_, ?_⟩
      · rwa [hyear']
      · rw [monthStart_february, hyear']
        omega
  · rw [if_neg hleap] at hlength
    obtain ⟨k, hk, hnext, hnone⟩ := exists_leap (year + 1)
    have hpos : k ≠ 0 := by
      rintro rfl
      exact hleap hnext
    have hdays := daysBeforeYear_add hnone
    have hyear' : year + k + 1 = year + 1 + k := by omega
    refine ⟨year + k, ?_, ?_⟩
    · rwa [hyear']
    · rw [monthStart_february, hyear']
      omega

/-- A day that some month has comes again within eight years. -/
theorem exists_day_after (d : ℕ) {m day : ℕ} (hpos : 0 < day) (hday : day ≤ monthLength m) :
    ∃ d', d < d' ∧ d' ≤ d + 2921 ∧ monthOf d' % 12 = m % 12 ∧ dayOf d' = day := by
  by_cases hother : m % 12 = 1 → day ≤ 28
  · obtain ⟨m', hm', hlt, hle⟩ := exists_month_after d m
    have hday' := le_monthLength hm' hday hother
    have hlength := monthLength_le m'
    refine ⟨ofMonthDay m' day, ?_, ?_, ?_, dayOf_ofMonthDay hpos hday'⟩
    · rw [ofMonthDay]
      omega
    · rw [ofMonthDay]
      omega
    · rw [monthOf_ofMonthDay hpos hday', hm']
  · obtain ⟨hfeb, hlast⟩ := Classical.not_imp.1 hother
    have hlength : monthLength m ≤ 29 := by
      simp only [monthLength.eq_def, hfeb]
      split <;> decide
    obtain rfl : day = 29 := by omega
    obtain ⟨year, hleap, hlt, hle⟩ := exists_leapDay_after d
    have hday' : 29 ≤ monthLength (12 * year + 1) := (monthLength_february hleap).ge
    refine ⟨ofMonthDay (12 * year + 1) 29, hlt, hle, ?_, dayOf_ofMonthDay hpos hday'⟩
    rw [monthOf_ofMonthDay hpos hday', hfeb]
    omega

/-- Each month has each day of the week. -/
theorem exists_weekday_after (d m day : ℕ) :
    ∃ d', d < d' ∧ d' ≤ d + 2921 ∧ monthOf d' % 12 = m % 12 ∧ d' % 7 = day % 7 := by
  obtain ⟨m', hm', hlt, hle⟩ := exists_month_after d m
  have hlength := monthLength_ge m'
  refine ⟨monthStart m' + (day + 6 * monthStart m') % 7, by omega, by omega, ?_, by omega⟩
  rw [monthOf_eq (m := m'), hm']
  · exact Nat.le_add_right _ _
  · rw [monthStart_succ]
    omega

end Gaps

end Tiqora.Foundation.Civil
