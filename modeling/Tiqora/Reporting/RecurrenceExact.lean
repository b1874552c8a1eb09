import Mathlib.Data.Int.LeastGreatest
import Tiqora.Foundation.Guarded
import Tiqora.Reporting.Recurrence

namespace Tiqora.Reporting.Schedule

open Foundation Foundation.Civil Calendar

section Days

variable {rec : Recurrence} {d k m : ℕ}

theorem month_day_occurs (hkind : rec.kind = .monthly ∨ rec.kind = .yearly)
    {k : ℤ} (hday : rec.dayOfMonth = some k) (hpos : 1 ≤ k)
    (hmonth : rec.kind = .yearly → some ((m % 12 + 1 : ℕ) : ℤ) = rec.month) :
    rec.occursOn (ofMonthDay m (min k.toNat (monthLength m))) = true := by
  have hlength := monthLength_ge m
  have hpos' : 0 < min k.toNat (monthLength m) := by omega
  have hm := monthOf_ofMonthDay hpos' (min_le_right _ _)
  have hd := dayOf_ofMonthDay hpos' (min_le_right _ _)
  have heq : ((min k.toNat (monthLength m) : ℕ) : ℤ) = min k (monthLength m) := by omega
  unfold Recurrence.occursOn
  rcases hkind with hkind | hkind
  · simp [hkind, hm, hd, hday, heq]
  · have hmonth := hmonth hkind
    simp [hkind, hm, hd, hday, heq, ← hmonth]

theorem exists_workday_after (d : ℕ) : ∃ d', d < d' ∧ d' ≤ d + 3 ∧ d' % 7 + 1 ≤ 5 := by
  by_cases h : (d + 1) % 7 + 1 ≤ 5
  · exact ⟨d + 1, by omega, by omega, h⟩
  · by_cases h' : (d + 2) % 7 + 1 ≤ 5
    · exact ⟨d + 2, by omega, by omega, h'⟩
    · exact ⟨d + 3, by omega, by omega, by omega⟩

theorem passes (rec : Recurrence) : ∀ c ∈ rec.checks, c.1 = false := by
  have hchecked := rec.checked
  simpa only [Fields.checkKind, Option.map_eq_none_iff, List.find?_eq_none, Bool.not_eq_true]
    using hchecked

theorem exists_weekday (hkind : rec.kind = .weekly) : ∃ w ∈ rec.weekdays, 1 ≤ w ∧ w ≤ 7 := by
  have hpasses := passes rec
  simp only [Fields.checks, hkind, List.forall_mem_cons, decide_true, Bool.true_and,
    decide_eq_false_iff_not, List.any_eq_false, Bool.or_eq_true, decide_eq_true_eq, not_or,
    not_lt] at hpasses
  obtain ⟨-, hsome, hrange, -⟩ := hpasses
  obtain ⟨w, hw⟩ := List.exists_mem_of_ne_nil _ hsome
  exact ⟨w, hw, hrange w hw⟩

theorem exists_dayOfMonth (hkind : rec.onMonthDays = true) :
    ∃ k, rec.dayOfMonth = some k ∧ 1 ≤ k := by
  have hrange := rec.inRange
  have hpasses := passes rec
  simp only [Fields.inBounds, Bool.and_eq_true, Option.all_eq_true, decide_eq_true_eq] at hrange
  simp only [Fields.checks, hkind, List.forall_mem_cons, Bool.true_and,
    decide_eq_false_iff_not] at hpasses
  obtain ⟨k, hday⟩ := Option.ne_none_iff_exists'.1 hpasses.2.2.2.2.2.1
  exact ⟨k, hday, (hrange.1.2 k hday).1⟩

theorem exists_month (hkind : rec.kind = .yearly) : ∃ m, rec.month = some m ∧ 1 ≤ m ∧ m ≤ 12 := by
  have hrange := rec.inRange
  have hpasses := passes rec
  simp only [Fields.inBounds, Bool.and_eq_true, Option.all_eq_true, decide_eq_true_eq] at hrange
  simp only [Fields.checks, hkind, List.forall_mem_cons, decide_true, Bool.true_and,
    decide_eq_false_iff_not] at hpasses
  obtain ⟨m, hmonth⟩ := Option.ne_none_iff_exists'.1 hpasses.2.2.2.2.2.2.2.1
  exact ⟨m, hmonth, hrange.2 m hmonth⟩

/-- Every recurrence has a day within a year and a month. -/
theorem exists_day_occurs (rec : Recurrence) (d : ℕ) :
    ∃ d', d < d' ∧ d' ≤ d + 403 ∧ rec.occursOn d' = true := by
  have hnear : ∀ m, d < monthStart m → monthStart m + 31 ≤ d + 403 → ∀ k : ℤ, 1 ≤ k →
      d < ofMonthDay m (min k.toNat (monthLength m)) ∧
        ofMonthDay m (min k.toNat (monthLength m)) ≤ d + 403 := by
    intro m hlt hle k hk
    have hlength := monthLength_le m
    rw [ofMonthDay]
    omega
  cases hkind : rec.kind with
  | daily =>
    obtain ⟨d', hlt, hle, hworkday⟩ := exists_workday_after d
    refine ⟨d', hlt, by omega, ?_⟩
    simp [Recurrence.occursOn, hkind, hworkday]
  | weekly =>
    obtain ⟨w, hw, hlow, hhigh⟩ := exists_weekday hkind
    refine ⟨d + 1 + (w.toNat + 6 + 6 * (d + 1)) % 7, by omega, by omega, ?_⟩
    have heq : (((d + 1 + (w.toNat + 6 + 6 * (d + 1)) % 7) % 7 + 1 : ℕ) : ℤ) = w := by omega
    simp only [Recurrence.occursOn, hkind, heq, hw, decide_true]
  | monthly =>
    have honDays : rec.onMonthDays = true := by simp [Fields.onMonthDays, hkind]
    obtain ⟨k, hday, hpos⟩ := exists_dayOfMonth honDays
    obtain ⟨m, -, hlt, hle⟩ := exists_month_after d 0
    obtain ⟨hlt', hle'⟩ := hnear m hlt hle k hpos
    refine ⟨_, hlt', hle', month_day_occurs (.inl hkind) hday hpos fun h ↦ ?_⟩
    rw [hkind] at h
    cases h
  | yearly =>
    have honDays : rec.onMonthDays = true := by simp [Fields.onMonthDays, hkind]
    obtain ⟨k, hday, hpos⟩ := exists_dayOfMonth honDays
    obtain ⟨month, hmonth, hlow, hhigh⟩ := exists_month hkind
    obtain ⟨m, hm, hlt, hle⟩ := exists_month_after d (month.toNat - 1)
    obtain ⟨hlt', hle'⟩ := hnear m hlt hle k hpos
    refine ⟨_, hlt', hle', month_day_occurs (.inr hkind) hday hpos fun _ ↦ ?_⟩
    rw [hmonth, Option.some.injEq]
    omega

end Days

section Wall

variable {rec : Recurrence} {c d : Char} {rest : List Char}

theorem isSpace_digit (h : 48 ≤ c.toNat ∧ c.toNat ≤ 57) : isSpace c = false := by
  unfold isSpace
  simp
  omega

theorem isDigit_bounds (h : c.isDigit = true) : 48 ≤ c.toNat ∧ c.toNat ≤ 57 := by
  rw [Char.isDigit, Bool.and_eq_true, decide_eq_true_eq, decide_eq_true_eq] at h
  exact h

theorem strip_minute (hc : 48 ≤ c.toNat ∧ c.toNat ≤ 57) (hd : 48 ≤ d.toNat ∧ d.toNat ≤ 57)
    (hrest : rest = [] ∨ rest = ['\n']) : strip (c :: d :: rest) = [c, d] := by
  have hspace : isSpace '\n' = true := by decide
  rcases hrest with rfl | rfl <;>
    simp [strip, List.rdropWhile, isSpace_digit hc, isSpace_digit hd, hspace]

theorem digits_two (c d : Char) :
    Nat.ofDigitChars 10 [c, d] 0 = 10 * (c.toNat - 48) + (d.toNat - 48) := by
  simp [Nat.ofDigitChars_eq_foldl]

theorem wall_bounds (rec : Recurrence) : 0 ≤ rec.wall ∧ rec.wall < dayMicros := by
  have htime := rec.hasTime
  unfold isTime at htime
  split at htime
  · rename_i a b c d rest heq
    simp only [Bool.and_eq_true, Bool.or_eq_true, decide_eq_true_eq] at htime
    obtain ⟨⟨⟨⟨hhour, hclow⟩, hchigh⟩, hd⟩, hrest⟩ := htime
    have hclow : 48 ≤ c.toNat := hclow
    have hchigh : c.toNat ≤ 53 := hchigh
    have hd := isDigit_bounds hd
    have hhour : 10 * (a.toNat - 48) + (b.toNat - 48) ≤ 23 := by
      rcases hhour with ⟨ha, hb⟩ | ⟨⟨rfl, hlow⟩, hhigh⟩
      · have hb := isDigit_bounds hb
        rcases ha with rfl | rfl
        · change 10 * (48 - 48) + _ ≤ 23
          omega
        · change 10 * (49 - 48) + _ ≤ 23
          omega
      · have hhigh : b.toNat ≤ 51 := hhigh
        change 10 * (50 - 48) + _ ≤ 23
        omega
    rw [Recurrence.wall, heq]
    have hminute : strip (List.drop 3 (a :: b :: ':' :: c :: d :: rest)) = [c, d] :=
      strip_minute ⟨hclow, by omega⟩ hd hrest
    rw [hminute]
    change 0 ≤ ((Nat.ofDigitChars 10 [a, b] 0 : ℤ) * 60 + _) * _ ∧
      ((Nat.ofDigitChars 10 [a, b] 0 : ℤ) * 60 + _) * _ < _
    rw [digits_two, digits_two, dayMicros]
    omega
  · cases htime

end Wall

section Zones

variable {zone : Zone} {rec : Recurrence} {after : Datetime} {d d' : ℕ} {x : ℤ}

/-- Within five days the offset grows by no more than a day. -/
def Zone.Steady (zone : Zone) : Prop :=
  ∀ t t' : ℤ, t ≤ t' + 5 * dayMicros → t' ≤ t + 5 * dayMicros → zone.offset t' ≤ zone.offset t + dayMicros

/-- The offset that a wall time gets is one that holds around it. -/
theorem Zone.wallOffset_eq (zone : Zone) (x : ℤ) : ∃ t, zone.wallOffset x = zone.offset t ∧
    x - 14 * hourMicros - 1 ≤ t ∧ t ≤ x + 14 * hourMicros := by
  by_cases h : ∃ t, t + zone.offset t = x
  · have hbelow : ∃ b, ∀ t, t + zone.offset t = x → b ≤ t :=
      ⟨x - 14 * hourMicros, fun t ht ↦ by have hbounds := zone.bounded t; omega⟩
    obtain ⟨t, ht, hleast⟩ := Int.exists_least_of_bdd hbelow h
    have hbounds := zone.bounded t
    refine ⟨t, ?_, by omega, by omega⟩
    rw [← ht]
    refine zone.ambiguous t fun t' hlt heq ↦ ?_
    exact absurd (hleast t' (heq.trans ht)) (not_le.2 hlt)
  · obtain ⟨t, hlt, hgt, heq⟩ := zone.gap x (not_exists.1 h)
    have hbounds := zone.bounded t
    have hbounds' := zone.bounded (t + 1)
    exact ⟨t, heq, by omega, by omega⟩

theorem instant_bounds (rec : Recurrence) (zone : Zone) (d : ℕ) :
    d * dayMicros - 14 * hourMicros ≤ rec.instant zone d ∧
      rec.instant zone d < (d + 1) * dayMicros + 14 * hourMicros := by
  obtain ⟨t, heq, -⟩ := zone.wallOffset_eq (d * dayMicros + rec.wall)
  have hbounds := zone.bounded t
  have hwall := wall_bounds rec
  rw [Recurrence.instant, heq, Int.add_mul]
  omega

/-- The run of the next day comes a day later, less what the offset has grown by. -/
theorem instant_succ (rec : Recurrence) (zone : Zone) (d : ℕ) : ∃ t t' : ℤ,
    t ≤ t' + 5 * dayMicros ∧ t' ≤ t + 5 * dayMicros ∧
      rec.instant zone (d + 1) = rec.instant zone d + dayMicros + zone.offset t - zone.offset t' := by
  obtain ⟨t, heq, hlow, hhigh⟩ := zone.wallOffset_eq (d * dayMicros + rec.wall)
  obtain ⟨t', heq', hlow', hhigh'⟩ := zone.wallOffset_eq ((d + 1 : ℕ) * dayMicros + rec.wall)
  have hday : ((d + 1 : ℕ) : ℤ) * dayMicros = d * dayMicros + dayMicros := by
    push_cast
    rw [Int.add_mul, Int.one_mul]
  have hmicros : (dayMicros : ℤ) = 24 * hourMicros := rfl
  have hhour : hourMicros = 3600000000 := rfl
  refine ⟨t, t', by omega, by omega, ?_⟩
  simp only [Recurrence.instant]
  omega

/-- Runs are in the order of their days. -/
theorem instant_mono (h : zone.Steady) (d d' : ℕ) (hle : d ≤ d') :
    rec.instant zone d ≤ rec.instant zone d' := by
  induction hle with
  | refl => exact le_rfl
  | @step d' _ ih =>
    obtain ⟨t, t', hnear, hnear', heq⟩ := instant_succ rec zone d'
    have hgrow := h t t' hnear hnear'
    change _ ≤ rec.instant zone (d' + 1)
    omega

theorem instant_strictMono (h : ∀ t t' : ℤ, t ≤ t' + 5 * dayMicros → t' ≤ t + 5 * dayMicros →
    zone.offset t' < zone.offset t + dayMicros) (d d' : ℕ) (hlt : d < d') :
    rec.instant zone d < rec.instant zone d' := by
  have hsteady : zone.Steady := fun t t' hnear hnear' ↦ (h t t' hnear hnear').le
  obtain ⟨t, t', hnear, hnear', heq⟩ := instant_succ rec zone d
  have hgrow := h t t' hnear hnear'
  have hmono : rec.instant zone (d + 1) ≤ rec.instant zone d' :=
    instant_mono hsteady (d + 1) d' hlt
  omega

/-- The search begins early enough: the run of the second day before is over. -/
theorem instant_le_of_before (h : zone.Steady) {t : ℤ}
    (hday : (d + 2) * dayMicros ≤ t + zone.offset t) (hnear : t + zone.offset t < (d + 3) * dayMicros) :
    rec.instant zone d ≤ t := by
  obtain ⟨t', heq, hlow, hhigh⟩ := zone.wallOffset_eq (d * dayMicros + rec.wall)
  have hbounds := zone.bounded t
  have hwall := wall_bounds rec
  have hmicros : (dayMicros : ℤ) = 24 * hourMicros := rfl
  have hhour : hourMicros = 3600000000 := rfl
  rw [Int.add_mul] at hday hnear
  have hgrow := h t' t (by omega) (by omega)
  simp only [Recurrence.instant]
  omega

end Zones

section Search

variable {zone : Zone} {rec : Recurrence} {after : Datetime} {start last left offset d : ℕ}

/-- The instants after a `datetime` at which a recurrence has its local time on one of its days. -/
def instants (rec : Recurrence) (zone : Zone) (after : Datetime) : Set ℤ :=
  {t | ∃ day, rec.occursOn day = true ∧ t = rec.instant zone day ∧ (after.1 : ℤ) < t}

theorem toDate_eq_ok (h : d < maxDays) : toDate d = .ok d := by
  rw [toDate, if_pos ⟨by omega, by omega⟩, Int.toNat_natCast]

theorem toDatetime_eq_ok {x : ℤ} (hlow : 0 ≤ x) (hhigh : x < maxDays * dayMicros) :
    ∃ t : Datetime, toDatetime x = .ok t ∧ (t.1 : ℤ) = x := by
  have hlt : x.toNat < maxDays * dayMicros := by omega
  rw [toDatetime, if_pos hlow, of?_of_lt hlt]
  exact ⟨_, rfl, Int.toNat_of_nonneg hlow⟩

/-- What the search needs of the days up to one that has a run. -/
structure Reaches (rec : Recurrence) (zone : Zone) (after : Datetime) (start last : ℕ) : Prop where
  occurs : rec.occursOn last = true
  later : after.1 < rec.instant zone last
  inside : ∀ d, start ≤ d → d ≤ last → d < maxDays ∧ 0 ≤ rec.instant zone d ∧
    rec.instant zone d < maxDays * dayMicros

theorem search_spec
    (hmono : ∀ d d' : ℕ, d ≤ d' → rec.instant zone d ≤ rec.instant zone d')
    (h : Reaches rec zone after start last)
    {offset : ℕ} (hle : start + offset ≤ last) (hlt : last < start + offset + left)
    (hbefore : ∀ d < start + offset, rec.occursOn d = true → rec.instant zone d ≤ after.1) :
    ∃ t, search rec zone start after left offset = .ok t ∧ IsLeast (instants rec zone after) t.1 ∧
      (t.1 : ℤ) ≤ rec.instant zone last := by
  induction left generalizing offset with
  | zero => omega
  | succ left ih =>
    obtain ⟨hday, hlow, hhigh⟩ := h.inside (start + offset) (Nat.le_add_right _ _) hle
    -- the day has no run to come, so the search goes on
    have hon : (rec.occursOn (start + offset) = true →
        rec.instant zone (start + offset) ≤ after.1) →
        ∃ t, search rec zone start after left (offset + 1) = .ok t ∧
          IsLeast (instants rec zone after) t.1 ∧ (t.1 : ℤ) ≤ rec.instant zone last := by
      intro hpast
      have hne : start + offset ≠ last := by
        intro heq
        rw [heq] at hpast
        exact absurd h.later (not_lt.2 (hpast h.occurs))
      refine ih (by omega) (by omega) fun d hd hoccurs ↦ ?_
      rcases Nat.lt_or_ge d (start + offset) with hbefore' | hge
      · exact hbefore d hbefore' hoccurs
      · obtain rfl : d = start + offset := by omega
        exact hpast hoccurs
    rw [search, toDate_eq_ok hday, ok_bind]
    by_cases hoccurs : rec.occursOn (start + offset) = true
    · obtain ⟨t, ht, heq⟩ := toDatetime_eq_ok hlow hhigh
      rw [if_pos hoccurs, ht, ok_bind]
      by_cases hlater : after < t
      · have hlater' : (after.1 : ℤ) < t.1 := by exact_mod_cast hlater
        rw [if_pos hlater]
        refine ⟨t, rfl, ⟨⟨start + offset, hoccurs, heq, hlater'⟩, ?_⟩, heq.trans_le (hmono _ _ hle)⟩
        rintro u ⟨d, hoccurs', rfl, hafter⟩
        rw [heq]
        refine hmono _ _ (le_of_not_gt fun hd ↦ ?_)
        exact absurd hafter (not_lt.2 (hbefore d hd hoccurs'))
      · rw [if_neg hlater]
        refine hon fun _ ↦ ?_
        rw [← heq]
        exact_mod_cast le_of_not_gt hlater
    · rw [if_neg hoccurs]
      exact hon fun h ↦ absurd h hoccurs

/-- The day of a count of microseconds. -/
theorem day_bounds (n : ℕ) : n / dayMicros * 86400000000 ≤ n ∧
    n < n / dayMicros * 86400000000 + 86400000000 :=
  ⟨Nat.div_mul_le_self n dayMicros, Nat.lt_div_mul_add (by decide)⟩

/-- In the middle of the calendar the search finds the next run. -/
theorem next_spec (hsteady : zone.Steady) (rec : Recurrence) (hlow : 3 ≤ after.1 / dayMicros)
    (hhigh : after.1 / dayMicros + 408 ≤ maxDays) :
    ∃ t, nextOccurrence rec zone after = .ok t ∧ IsLeast (instants rec zone after) t.1 ∧
      t.1 / dayMicros ≤ after.1 / dayMicros + 407 := by
  have hoffset := zone.bounded after.1
  have hhour : hourMicros = 3600000000 := rfl
  have hdays : maxDays = 3652059 := rfl
  have hall : (maxDays : ℤ) * (dayMicros : ℤ) = 315537897600000000 := rfl
  have hafter := day_bounds after.1
  have hinstant : ∀ d, d * 86400000000 - 50400000000 ≤ rec.instant zone d ∧
      rec.instant zone d < (d + 1) * 86400000000 + 50400000000 := instant_bounds rec zone
  obtain ⟨here, hhere, heq⟩ : ∃ t : Datetime, toDatetime (after.1 + zone.offset after.1) = .ok t ∧ _ :=
    toDatetime_eq_ok (by omega) (by omega)
  have hlocal := day_bounds here.1
  obtain ⟨day, hday⟩ : ∃ day, day = here.1 / dayMicros := ⟨_, rfl⟩
  rw [← hday] at hlocal
  obtain ⟨last, hgt, hle, hoccurs⟩ := exists_day_occurs rec (day + 2)
  have hreaches : Reaches rec zone after (day - 1) last := by
    refine ⟨hoccurs, ?_, fun d hd hd' ↦ ?_⟩
    · have hlast := hinstant last
      omega
    · have hinside := hinstant d
      rw [hall]
      omega
  have hbefore : ∀ d < day - 1 + 0, rec.occursOn d = true → rec.instant zone d ≤ after.1 := by
    intro d hd _
    obtain ⟨d', hd'⟩ : ∃ d', day = d' + 2 := ⟨day - 2, by omega⟩
    refine (instant_mono hsteady d d' (by omega)).trans (instant_le_of_before hsteady ?_ ?_)
    · change ((d' : ℤ) + 2) * 86400000000 ≤ _
      omega
    · change _ < ((d' : ℤ) + 3) * 86400000000
      omega
  have hstart : toDate ((here.1 / dayMicros : ℕ) - 1) = .ok (day - 1) := by
    rw [← hday]
    have hcast : ((day : ℕ) : ℤ) - 1 = ((day - 1 : ℕ) : ℤ) := by omega
    rw [hcast]
    exact toDate_eq_ok (by omega)
  have hwindow : maxSearchDays + 2 = 802 := rfl
  obtain ⟨t, ht, hleast, hlate⟩ := search_spec (instant_mono hsteady) hreaches
    (show day - 1 + 0 ≤ last by omega) (show last < day - 1 + 0 + (maxSearchDays + 2) by omega)
    hbefore
  refine ⟨t, ?_, hleast, ?_⟩
  · rw [nextOccurrence, hhere, ok_bind, hstart, ok_bind, ht]
  · have hlast := (hinstant last).2
    have hfound := day_bounds t.1
    omega

end Search

section Upcoming

variable {zone : Zone} {rec : Recurrence} {after next : Datetime} {ts : List Datetime} {n : ℕ}

/-- All the runs up to the last of a list, each of them once. -/
structure Lists (rec : Recurrence) (zone : Zone) (after : Datetime) (ts : List Datetime) : Prop where
  ordered : ts.Pairwise fun t t' ↦ t < t'
  sound : ∀ t ∈ ts, (t.1 : ℤ) ∈ instants rec zone after
  complete : ∀ u ∈ instants rec zone after, (∃ t ∈ ts, u ≤ (t.1 : ℤ)) → ∃ t ∈ ts, u = (t.1 : ℤ)

theorem Lists.cons (hnext : IsLeast (instants rec zone after) next.1)
    (h : Lists rec zone next ts) : Lists rec zone after (next :: ts) := by
  obtain ⟨hmem, hleast⟩ := hnext
  have hlater : ∀ t ∈ ts, next < t := by
    intro t ht
    obtain ⟨-, -, -, hlt⟩ := h.sound t ht
    exact_mod_cast hlt
  refine ⟨List.pairwise_cons.2 ⟨hlater, h.ordered⟩, ?_, ?_⟩
  · rw [List.forall_mem_cons]
    refine ⟨hmem, fun t ht ↦ ?_⟩
    obtain ⟨day, hoccurs, heq, hlt⟩ := h.sound t ht
    obtain ⟨-, -, -, hafter⟩ := hmem
    exact ⟨day, hoccurs, heq, hafter.trans hlt⟩
  · rintro u hu ⟨t, ht, hle⟩
    rcases (hleast hu).eq_or_lt with heq | hlt
    · exact ⟨next, List.mem_cons_self, heq.symm⟩
    · obtain ⟨day, hoccurs, hday, -⟩ := hu
      have ht' : t ∈ ts := by
        rcases List.mem_cons.1 ht with rfl | ht
        · exact absurd hlt (not_lt.2 hle)
        · exact ht
      obtain ⟨t', ht', heq⟩ := h.complete u ⟨day, hoccurs, hday, hlt⟩ ⟨t, ht', hle⟩
      exact ⟨t', List.mem_cons_of_mem _ ht', heq⟩

theorem upcoming_spec (hsteady : zone.Steady) (rec : Recurrence) (hlow : 3 ≤ after.1 / dayMicros)
    (hhigh : after.1 / dayMicros + 408 * n ≤ maxDays) :
    ∃ ts, upcomingFrom rec zone n after = .ok ts ∧ ts.length = n ∧ Lists rec zone after ts := by
  induction n generalizing after with
  | zero =>
    refine ⟨[], rfl, rfl, .nil, fun t ht ↦ absurd ht List.not_mem_nil, fun u _ hlast ↦ ?_⟩
    obtain ⟨t, ht, -⟩ := hlast
    exact absurd ht List.not_mem_nil
  | succ n ih =>
    rw [Nat.mul_succ, ← Nat.add_assoc] at hhigh
    have hroom : after.1 / dayMicros + 408 ≤ maxDays :=
      (Nat.add_le_add_right (Nat.le_add_right _ _) 408).trans hhigh
    obtain ⟨next, hnext, hleast, hday⟩ := next_spec hsteady rec hlow hroom
    have hgrow : after.1 / dayMicros ≤ next.1 / dayMicros := by
      obtain ⟨-, -, -, hlt⟩ := hleast.1
      exact Nat.div_le_div_right (by omega)
    obtain ⟨ts, hts, hlength, hlists⟩ := ih (hlow.trans hgrow) (by omega)
    refine ⟨next :: ts, ?_, by simp [hlength], hlists.cons hleast⟩
    rw [upcomingFrom, hnext, ok_bind, hts, ok_bind]

/-- In a zone whose offset grows by at most a day within five days, and away from the ends of the
calendar, a search finds the least run after an instant, and the list of the runs to come is
complete and in order. Runs are in the order of their days, and two days share one only where the
offset grows by a whole day. -/
theorem schedule_runs_exact (hsteady : zone.Steady) (rec : Recurrence)
    (hlow : 3 ≤ after.1 / dayMicros) :
    (after.1 / dayMicros + 408 ≤ maxDays →
      ∃ t, nextOccurrence rec zone after = .ok t ∧ IsLeast (instants rec zone after) t.1) ∧
    (∀ count : ℤ, after.1 / dayMicros + 408 * count.toNat ≤ maxDays →
      ∃ ts, upcoming rec zone after count = .ok ts ∧ ts.length = count.toNat ∧
        Lists rec zone after ts) ∧
    (∀ d d' : ℕ, d ≤ d' → rec.instant zone d ≤ rec.instant zone d') ∧
    ((∀ t t' : ℤ, t ≤ t' + 5 * dayMicros → t' ≤ t + 5 * dayMicros →
      zone.offset t' < zone.offset t + dayMicros) →
        ∀ d d' : ℕ, d < d' → rec.instant zone d < rec.instant zone d') := by
  refine ⟨fun hhigh ↦ ?_, fun count hhigh ↦ upcoming_spec hsteady rec hlow hhigh,
    instant_mono hsteady, instant_strictMono⟩
  obtain ⟨t, ht, hleast, -⟩ := next_spec hsteady rec hlow hhigh
  exact ⟨t, ht, hleast⟩

section Sample

def midnightDaily : Recurrence where
  kind := .daily
  time := "00:00".toList
  workdaysOnly := false
  weekdays := []
  dayOfMonth := none
  month := none
  inRange := rfl
  hasTime := rfl
  checked := rfl

def utc : Zone where
  offset _ := 0
  wallOffset _ := 0
  bounded _ := by decide
  ambiguous _ _ := rfl
  gap x h := absurd (Int.add_zero x) (h x)

/-- A zone that moves from 14 hours behind UTC to 14 hours before it. -/
def farJump : Zone where
  offset t := if t < 1000 * dayMicros then -(14 * hourMicros) else 14 * hourMicros
  wallOffset x := if x < 1000 * dayMicros + 14 * hourMicros then -(14 * hourMicros)
    else 14 * hourMicros
  bounded t := by
    have hhour : hourMicros = 3600000000 := rfl
    split <;> omega
  ambiguous t _ := by
    have hhour : hourMicros = 3600000000 := rfl
    split <;> split <;> omega
  gap x h := by
    have hhour : hourMicros = 3600000000 := rfl
    have hbehind := h (x + 14 * hourMicros)
    have hahead := h (x - 14 * hourMicros)
    refine ⟨1000 * dayMicros - 1, ?_⟩
    split at hbehind <;> split at hahead <;> split <;> split <;> omega

/-- The beginning of a day. -/
def midnight (day : ℕ) (h : day < maxDays) : Datetime :=
  ⟨day * dayMicros, Nat.mul_lt_mul_of_pos_right h (by decide)⟩

theorem schedule_runs_exact_sample : ∃ t,
    nextOccurrence midnightDaily utc (midnight 1000 (by decide)) = .ok t ∧
      IsLeast (instants midnightDaily utc (midnight 1000 (by decide))) t.1 := by
  have hsteady : utc.Steady := by
    intro t t' _ _
    change (0 : ℤ) ≤ 0 + dayMicros
    decide
  have hlow : 3 ≤ (midnight 1000 (by decide)).1 / dayMicros := by decide
  exact (schedule_runs_exact hsteady midnightDaily hlow).1 (by decide)

/-- With a jump of more than a day the run of the next day is the earlier one, and on the last day
of the calendar the search overflows. -/
theorem run_missed :
    (∃ t, nextOccurrence midnightDaily farJump (midnight 1000 (by decide)) = .ok t ∧
      ¬IsLeast (instants midnightDaily farJump (midnight 1000 (by decide))) t.1) ∧
    nextOccurrence midnightDaily utc (midnight 3652058 (by decide)) = .error .overflow := by
  have hfound : nextOccurrence midnightDaily farJump (midnight 1000 (by decide)) =
      .ok ⟨1000 * dayMicros + 14 * 3600000000, by decide⟩ := by decide +kernel
  have hearlier : (1000 * dayMicros + 10 * 3600000000 : ℤ) ∈
      instants midnightDaily farJump (midnight 1000 (by decide)) :=
    ⟨1001, by decide, by decide +kernel, by decide⟩
  refine ⟨⟨_, hfound, fun hleast ↦ ?_⟩, by decide +kernel⟩
  exact absurd (hleast.2 hearlier) (by decide)

end Sample

end Upcoming

end Tiqora.Reporting.Schedule
