import Tiqora.Calendar.Recurrence
import Tiqora.Foundation.Decimal

namespace Tiqora.Calendar

open Foundation Civil

variable {dt : Datetime} {year month day hour minute second : ℕ}

theorem year_lt (dt : Datetime) : yearOf dt.month < 10000 := by
  have hday : dt.1 / dayMicros < maxDays :=
    Nat.div_lt_of_lt_mul ((Nat.mul_comm _ _).trans_gt dt.2)
  have hmonth : dt.month < 12 * 9999 := by
    by_contra hge
    have hle := (monthStart_strictMono.monotone (not_lt.1 hge)).trans
      (monthStart_monthOf (dt.1 / dayMicros))
    rw [monthStart_january] at hle
    exact absurd (hle.trans_lt hday) (by decide)
  rw [yearOf]
  omega

/-- The `datetime` of its fields. Python raises when there is none. -/
def Datetime.ofFields (year month day hour minute second : ℕ) : Option Datetime :=
  if 1 ≤ year ∧ 1 ≤ month ∧ month ≤ 12 ∧ 1 ≤ day ∧
      day ≤ monthLength (12 * (year - 1) + (month - 1)) ∧ hour < 24 ∧ minute < 60 ∧ second < 60 then
    Datetime.of? (ofMonthDay (12 * (year - 1) + (month - 1)) day * dayMicros +
      (hour * 3600 + minute * 60 + second) * 1000000)
  else none

/-- The seconds of the day. -/
def Datetime.clock (dt : Datetime) : ℕ := dt.time / 1000000

theorem clock_lt (dt : Datetime) : dt.clock < 86400 := by
  have htime : dt.time < 86400000000 := Nat.mod_lt _ (by decide)
  rw [Datetime.clock]
  omega

theorem of?_fields (h : dt.1 % 1000000 = 0) :
    Datetime.of? (ofMonthDay (12 * (yearOf dt.month - 1) + (dt.month % 12 + 1 - 1)) dt.day *
      dayMicros + (dt.clock / 3600 * 3600 + dt.clock / 60 % 60 * 60 + dt.clock % 60) * 1000000) =
        some dt := by
  have hmonth : 12 * (yearOf dt.month - 1) + (dt.month % 12 + 1 - 1) = dt.month := by
    rw [yearOf]
    omega
  have hdate : ofMonthDay dt.month dt.day = dt.1 / dayMicros := by
    have hstart := monthStart_monthOf (dt.1 / dayMicros)
    rw [ofMonthDay, Datetime.day, dayOf, Datetime.month]
    omega
  have hwhole : dt.time % 1000000 = 0 := by
    rw [Datetime.time, Nat.mod_mod_of_dvd _ (by decide : 1000000 ∣ dayMicros)]
    exact h
  have htime : (dt.clock / 3600 * 3600 + dt.clock / 60 % 60 * 60 + dt.clock % 60) * 1000000 =
      dt.time := by
    rw [Datetime.clock]
    omega
  rw [hmonth, hdate, htime, of?_eq_some]
  exact (Nat.div_add_mod' _ _).symm

theorem ofFields_self (h : dt.1 % 1000000 = 0) :
    Datetime.ofFields (yearOf dt.month) (dt.month % 12 + 1) dt.day (dt.clock / 3600)
      (dt.clock / 60 % 60) (dt.clock % 60) = some dt := by
  have hclock := clock_lt dt
  have hmonth : 12 * (yearOf dt.month - 1) + (dt.month % 12 + 1 - 1) = dt.month := by
    rw [yearOf]
    omega
  have hday : dt.day ≤ monthLength (12 * (yearOf dt.month - 1) + (dt.month % 12 + 1 - 1)) := by
    rw [hmonth]
    exact day_le
  rw [Datetime.ofFields, if_pos, of?_fields h]
  exact ⟨Nat.succ_pos _, Nat.succ_pos _, by omega, day_pos, hday, by omega, by omega, by omega⟩

theorem ofFields_whole (h : Datetime.ofFields year month day hour minute second = some dt) :
    dt.1 % 1000000 = 0 := by
  rw [Datetime.ofFields] at h
  split at h
  · rw [of?_eq_some.1 h, dayMicros]
    omega
  · cases h

theorem zfill_two {n : ℕ} (h : n < 100) : ∃ c d, zfill 2 n = [c, d] ∧ c.isDigit = true ∧
    d.isDigit = true := by
  have hlength : (zfill 2 n).length = 2 := by
    rw [length_zfill]
    exact max_eq_left ((digitCount_le_iff (by decide)).2 h)
  obtain ⟨c, d, heq⟩ := List.length_eq_two.1 hlength
  have hdigit := ascii_zfill 2 n
  rw [heq] at hdigit
  exact ⟨c, d, heq, hdigit c (by simp), hdigit d (by simp)⟩

theorem zfill_four {n : ℕ} (h : n < 10000) : ∃ a b c d, zfill 4 n = [a, b, c, d] ∧
    a.isDigit = true ∧ b.isDigit = true ∧ c.isDigit = true ∧ d.isDigit = true := by
  have hlength : (zfill 4 n).length = 4 := by
    rw [length_zfill]
    exact max_eq_left ((digitCount_le_iff (by decide)).2 h)
  obtain ⟨a, b, c, d, heq⟩ := List.length_eq_four.1 hlength
  have hdigit := ascii_zfill 4 n
  rw [heq] at hdigit
  exact ⟨a, b, c, d, heq, hdigit a (by simp), hdigit b (by simp), hdigit c (by simp),
    hdigit d (by simp)⟩

/-- The characters that the fields are printed with. -/
structure Digits (dt : Datetime) (y e a r m o d t h i n u s c : Char) : Prop where
  year : zfill 4 (yearOf dt.month) = [y, e, a, r]
  month : zfill 2 (dt.month % 12 + 1) = [m, o]
  day : zfill 2 dt.day = [d, t]
  hour : zfill 2 (dt.clock / 3600) = [h, i]
  minute : zfill 2 (dt.clock / 60 % 60) = [n, u]
  second : zfill 2 (dt.clock % 60) = [s, c]
  digits : [y, e, a, r, m, o, d, t, h, i, n, u, s, c].all Char.isDigit = true

theorem exists_digits (dt : Datetime) :
    ∃ y e a r m o d t h i n u s c, Digits dt y e a r m o d t h i n u s c := by
  have hclock := clock_lt dt
  have hday : dt.day < 100 := day_le.trans_lt ((monthLength_le _).trans_lt (by decide))
  obtain ⟨y, e, a, r, hyear, hy, he, ha, hr⟩ := zfill_four (year_lt dt)
  obtain ⟨m, o, hmonth, hm, ho⟩ := zfill_two (show dt.month % 12 + 1 < 100 by omega)
  obtain ⟨d, t, hdays, hd, ht⟩ := zfill_two hday
  obtain ⟨h, i, hhour, hh, hi⟩ := zfill_two (show dt.clock / 3600 < 100 by omega)
  obtain ⟨n, u, hminute, hn, hu⟩ := zfill_two (show dt.clock / 60 % 60 < 100 by omega)
  obtain ⟨s, c, hsecond, hs, hc⟩ := zfill_two (show dt.clock % 60 < 100 by omega)
  refine ⟨y, e, a, r, m, o, d, t, h, i, n, u, s, c, hyear, hmonth, hdays, hhour, hminute,
    hsecond, ?_⟩
  simp only [List.all_cons, List.all_nil, hy, he, ha, hr, hm, ho, hd, ht, hh, hi, hn, hu, hs, hc,
    Bool.and_self]

end Tiqora.Calendar
