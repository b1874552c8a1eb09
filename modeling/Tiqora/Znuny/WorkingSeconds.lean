import Tiqora.Foundation.Counting
import Tiqora.Znuny.WorkingTime

namespace Tiqora.Znuny

open Foundation

variable {calendar : WorkCalendar} {zone : TimeZone}

/-- An instant whose local hour is configured for its weekday and whose local date is no vacation
day. -/
def working (calendar : WorkCalendar) (zone : TimeZone) (t : ℤ) : Bool :=
  calendar.isWorkingHour (fromTimestamp zone t)

def workingSeconds (calendar : WorkCalendar) (zone : TimeZone) (start stop : ℤ) : ℕ :=
  countIn (working calendar zone) start stop

def WorkCalendar.HoursOfDay (calendar : WorkCalendar) : Prop :=
  ∀ day ∈ calendar.workingHours, ∀ hour ∈ day.2, 0 ≤ hour ∧ hour < 24

/-- Between a local midnight and the local midnight of another day 24 hours later the offset does
not change. -/
def TimeZone.SteadyDays (zone : TimeZone) : Prop :=
  ∀ t, wholeDay zone t = true → ∀ u, t < u → u < t + 24 * 3600 →
    zone.utcOffset u = zone.utcOffset (u - 1)

theorem toNextHour_eq (zone : TimeZone) (t : ℤ) :
    (fromTimestamp zone t).toNextHour = 3600 - zone.localSeconds t % 3600 := by
  simp only [LocalTime.toNextHour, fromTimestamp]
  omega

theorem toNextHour_pos (zone : TimeZone) (t : ℤ) : 0 < (fromTimestamp zone t).toNextHour := by
  rw [toNextHour_eq]
  omega

/-- An offset that changes nowhere in a stretch is the same all over it. -/
theorem offset_eq_of_steady {t stop : ℤ}
    (h : ∀ u, t < u → u < stop → zone.utcOffset u = zone.utcOffset (u - 1)) {u : ℤ} (htu : t ≤ u)
    (hu : u < stop) : zone.utcOffset u = zone.utcOffset t := by
  obtain ⟨n, rfl⟩ := Int.le.dest htu
  induction n with
  | zero => rw [Int.natCast_zero, Int.add_zero]
  | succ n ih =>
    have hprev : t + ((n + 1 : ℕ) : ℤ) - 1 = t + n := by omega
    rw [h _ (by omega) hu, hprev]
    exact ih (by omega) (by omega)

theorem offset_in_hour {t u : ℤ} (htu : t ≤ u) (hu : u < t + (fromTimestamp zone t).toNextHour) :
    zone.utcOffset u = zone.utcOffset t := by
  obtain ⟨n, rfl⟩ := Int.le.dest htu
  induction n with
  | zero => rw [Int.natCast_zero, Int.add_zero]
  | succ n ih =>
    have hprev : t + ((n + 1 : ℕ) : ℤ) - 1 = t + n := by omega
    have heq := ih (by omega) (by omega)
    by_contra hne
    have hchange := zone.full_hour (t + ((n + 1 : ℕ) : ℤ)) (by rw [hprev, heq]; exact hne)
    rw [hprev, heq] at hchange
    rw [toNextHour_eq, TimeZone.localSeconds] at hu
    omega

theorem isWorkingHour_congr {dt dt' : LocalTime} (hday : dt.dayNumber = dt'.dayNumber)
    (hhour : dt.hour = dt'.hour) : calendar.isWorkingHour dt = calendar.isWorkingHour dt' := by
  simp only [WorkCalendar.isWorkingHour, WorkCalendar.isWorkingDay, WorkCalendar.isVacation,
    WorkCalendar.dayHours, LocalTime.dayAbbr, LocalTime.weekday, LocalTime.date, hday, hhour]

/-- Up to the next full hour nothing changes. -/
theorem working_in_hour {t u : ℤ} (htu : t ≤ u) (hu : u < t + (fromTimestamp zone t).toNextHour) :
    working calendar zone u = working calendar zone t := by
  have hoffset := offset_in_hour htu hu
  rw [toNextHour_eq] at hu
  apply isWorkingHour_congr
  · simp only [fromTimestamp, TimeZone.localSeconds, hoffset] at *
    omega
  · simp only [fromTimestamp, TimeZone.localSeconds, hoffset] at *
    omega

theorem isMidnight_iff {t : ℤ} :
    (fromTimestamp zone t).isMidnight = true ↔ zone.localSeconds t % 86400 = 0 := by
  simp only [LocalTime.isMidnight, Bool.and_eq_true, decide_eq_true_eq]
  simp only [fromTimestamp]
  omega

/-- Where the offset changes by less than a day, and not twice within 24 hours, a day with a change
is no whole day. -/
theorem steadyDays_of_rare
    (hsmall : ∀ t, -86400 < zone.utcOffset t - zone.utcOffset (t - 1) ∧
      zone.utcOffset t - zone.utcOffset (t - 1) < 86400)
    (hrare : ∀ t u, zone.utcOffset t ≠ zone.utcOffset (t - 1) → t < u → u < t + 86400 →
      zone.utcOffset u = zone.utcOffset (u - 1)) : zone.SteadyDays := by
  intro t hday u htu hut
  by_contra hchange
  have hbefore : zone.utcOffset (u - 1) = zone.utcOffset t := by
    refine offset_eq_of_steady (fun v htv hvu ↦ ?_) (by omega) (Int.sub_one_lt_of_le (Int.le_refl u))
    by_contra hother
    exact hchange (hrare v u hother hvu (by omega))
  have hafter : zone.utcOffset (t + 24 * 3600) = zone.utcOffset u :=
    offset_eq_of_steady (hrare u · hchange) (by omega) (by omega)
  simp only [wholeDay, Bool.and_eq_true, isMidnight_iff, TimeZone.localSeconds] at hday
  have := hsmall u
  omega

/-- On a whole day the local hour after `k` hours is `k`. -/
theorem working_on_day (hdays : zone.SteadyDays) {t : ℤ} (h : wholeDay zone t = true) {k : ℕ}
    (hk : k < 24) {u : ℤ} (hu : t + 3600 * k ≤ u) (hu' : u < t + 3600 * k + 3600) :
    working calendar zone u = (calendar.isWorkingDay (fromTimestamp zone t) &&
      (calendar.dayHours (fromTimestamp zone t)).contains (k : ℤ)) := by
  have hoffset := offset_eq_of_steady (hdays t h) (u := u) (by omega) (by omega)
  simp only [wholeDay, Bool.and_eq_true] at h
  have hmid := isMidnight_iff.1 h.1.1
  have hsame : working calendar zone u =
      calendar.isWorkingHour { fromTimestamp zone t with hour := (k : ℤ) } := by
    apply isWorkingHour_congr
    · simp only [fromTimestamp, TimeZone.localSeconds, hoffset] at *
      omega
    · simp only [fromTimestamp, TimeZone.localSeconds, hoffset] at *
      omega
  exact hsame

theorem dayHours_spec (hhours : calendar.HoursOfDay) (dt : LocalTime) :
    (calendar.dayHours dt).Nodup ∧ ∀ hour ∈ calendar.dayHours dt, 0 ≤ hour ∧ hour < 24 := by
  refine ⟨List.nodup_dedup _, fun hour hmem ↦ ?_⟩
  rw [WorkCalendar.dayHours, List.mem_dedup] at hmem
  cases hl : calendar.workingHours.lookup dt.dayAbbr with
  | none =>
    rw [hl] at hmem
    cases hmem
  | some hours =>
    rw [hl] at hmem
    obtain ⟨before, after, heq, _⟩ := List.lookup_eq_some_iff.1 hl
    refine hhours (dt.dayAbbr, hours) ?_ hour hmem
    rw [heq]
    exact List.mem_append_right _ List.mem_cons_self

theorem length_filter_contains {hours : List ℤ} (hnodup : hours.Nodup)
    (hrange : ∀ hour ∈ hours, 0 ≤ hour ∧ hour < 24) :
    ((List.range 24).filter fun k : ℕ ↦ hours.contains (k : ℤ)).length = hours.length := by
  have hperm : (((List.range 24).filter fun k : ℕ ↦ hours.contains (k : ℤ)).map
      fun k : ℕ ↦ (k : ℤ)).Perm hours := by
    refine (List.perm_ext_iff_of_nodup ?_ hnodup).2 fun hour ↦ ?_
    · exact (List.nodup_range.filter _).map fun _ _ h ↦ Int.ofNat_inj.1 h
    · simp only [List.mem_map, List.mem_filter, List.mem_range, List.contains_iff_mem]
      constructor
      · rintro ⟨k, ⟨_, hk⟩, rfl⟩
        exact hk
      · intro hmem
        have := hrange hour hmem
        exact ⟨hour.toNat, ⟨by omega, by rwa [Int.toNat_of_nonneg this.1]⟩,
          Int.toNat_of_nonneg this.1⟩
  rw [← hperm.length_eq, List.length_map]

theorem workingSeconds_day (hhours : calendar.HoursOfDay) (hdays : zone.SteadyDays) {t : ℤ}
    (h : wholeDay zone t = true) :
    (workingSeconds calendar zone t (t + 24 * 3600) : ℤ) =
      if calendar.isWorkingDay (fromTimestamp zone t) then
        calendar.daySeconds (fromTimestamp zone t) else 0 := by
  have hcount : countIn (working calendar zone) t (t + ((3600 : ℕ) : ℤ) * ((24 : ℕ) : ℤ)) =
      3600 * ((List.range 24).filter fun k : ℕ ↦ calendar.isWorkingDay (fromTimestamp zone t) &&
        (calendar.dayHours (fromTimestamp zone t)).contains (k : ℤ)).length :=
    countIn_stretches fun _ hk _ hu hu' ↦ working_on_day hdays h hk hu hu'
  obtain ⟨hnodup, hrange⟩ := dayHours_spec hhours (fromTimestamp zone t)
  rw [workingSeconds, show t + 24 * 3600 = t + ((3600 : ℕ) : ℤ) * ((24 : ℕ) : ℤ) from rfl, hcount]
  cases calendar.isWorkingDay (fromTimestamp zone t) with
  | true =>
    simp only [Bool.true_and, if_true, length_filter_contains hnodup hrange,
      WorkCalendar.daySeconds]
    omega
  | false =>
    simp only [Bool.false_and, List.filter_false, List.length_nil]
    rfl

theorem workingSeconds_add (calendar : WorkCalendar) (zone : TimeZone) {a b c : ℤ} (h : a ≤ b)
    (h' : b ≤ c) :
    (workingSeconds calendar zone a b : ℤ) + workingSeconds calendar zone b c =
      workingSeconds calendar zone a c := by
  exact_mod_cast countIn_add h h'

theorem workingSeconds_of_ge {a b : ℤ} (h : b ≤ a) :
    (workingSeconds calendar zone a b : ℤ) = 0 := by
  exact_mod_cast countIn_of_ge h

theorem workingSeconds_hour {t u : ℤ} (htu : t ≤ u)
    (hu : u ≤ t + (fromTimestamp zone t).toNextHour) :
    (workingSeconds calendar zone t u : ℤ) = if working calendar zone t then u - t else 0 := by
  cases hw : working calendar zone t with
  | true =>
    have hall : ∀ v, t ≤ v → v < u → working calendar zone v = true := fun v htv hvu ↦
      (working_in_hour htv (by omega)).trans hw
    rw [workingSeconds, countIn_all hall, if_pos rfl]
    omega
  | false =>
    have hnone : ∀ v, t ≤ v → v < u → working calendar zone v = false := fun v htv hvu ↦
      (working_in_hour htv (by omega)).trans hw
    rw [workingSeconds, countIn_none hnone]
    rfl

/-- A step of `working_seconds_between` moves working seconds from what is ahead to what is
counted. -/
theorem workingStep_spec (hhours : calendar.HoursOfDay) (hdays : zone.SteadyDays)
    {stop count current : ℤ} (hlt : current < stop) :
    (workingStep calendar zone stop count current (fromTimestamp zone current)).1 +
      workingSeconds calendar zone
        (workingStep calendar zone stop count current (fromTimestamp zone current)).2 stop =
      count + workingSeconds calendar zone current stop := by
  have hnext := toNextHour_pos zone current
  rw [workingStep]
  split
  · next hday =>
    simp only [Bool.and_eq_true, decide_eq_true_eq, Bool.not_eq_true'] at hday
    have hsum := workingSeconds_add calendar zone
      (show current ≤ current + 24 * 3600 by omega) (show current + 24 * 3600 ≤ stop by omega)
    rw [workingSeconds_day hhours hdays hday.1.1, hday.2, if_neg Bool.false_ne_true] at hsum
    simp only
    omega
  · next hnot =>
    split
    · next hday =>
      simp only [Bool.and_eq_true, decide_eq_true_eq] at hday
      have hwork : calendar.isWorkingDay (fromTimestamp zone current) = true := by
        by_contra hfree
        rw [Bool.not_eq_true] at hfree
        refine hnot ?_
        simp only [hday.1.1, decide_eq_true hday.1.2, hfree, Bool.true_and, Bool.not_false]
      have hsum := workingSeconds_add calendar zone
        (show current ≤ current + 24 * 3600 by omega) (show current + 24 * 3600 ≤ stop by omega)
      rw [workingSeconds_day hhours hdays hday.1.1, hwork, if_pos rfl] at hsum
      simp only
      omega
    · split
      · next hwork =>
        have hsum := workingSeconds_add calendar zone
          (show current ≤ current + min (fromTimestamp zone current).toNextHour (stop - current)
            by omega)
          (show current + min (fromTimestamp zone current).toNextHour (stop - current) ≤ stop
            by omega)
        rw [workingSeconds_hour (by omega) (by omega), working, hwork, if_pos rfl] at hsum
        simp only
        omega
      · next hfree =>
        have hw : working calendar zone current = false := by rwa [Bool.not_eq_true] at hfree
        simp only
        rcases Int.le_total (current + (fromTimestamp zone current).toNextHour) stop with hle | hle
        · have hsum := workingSeconds_add calendar zone
            (show current ≤ current + (fromTimestamp zone current).toNextHour by omega) hle
          rw [workingSeconds_hour (by omega) (by omega), hw, if_neg Bool.false_ne_true] at hsum
          omega
        · have hahead : (workingSeconds calendar zone current stop : ℤ) = 0 := by
            rw [workingSeconds_hour (by omega) hle, hw, if_neg Bool.false_ne_true]
          rw [hahead, workingSeconds_of_ge hle]

theorem workingLoop_eq (hhours : calendar.HoursOfDay) (hdays : zone.SteadyDays) {stop : ℤ}
    {rounds : ℕ} {count current total : ℤ}
    (h : workingLoop calendar zone stop rounds (count, current) = some total) :
    total = count + workingSeconds calendar zone current stop := by
  induction rounds generalizing count current with
  | zero =>
    rw [workingLoop] at h
    split at h
    · cases h
    · next hle =>
      cases h
      rw [workingSeconds_of_ge (by omega), Int.add_zero]
  | succ rounds ih =>
    rw [workingLoop] at h
    split at h
    · next hlt =>
      rw [← workingStep_spec hhours hdays hlt]
      exact ih h
    · next hle =>
      cases h
      rw [workingSeconds_of_ge (by omega), Int.add_zero]

theorem anyHours_of_working {t : ℤ} (h : working calendar zone t = true) :
    calendar.anyHours = true := by
  simp only [working, WorkCalendar.isWorkingHour, WorkCalendar.dayHours, Bool.and_eq_true,
    List.contains_iff_mem, List.mem_dedup] at h
  cases hl : calendar.workingHours.lookup (fromTimestamp zone t).dayAbbr with
  | none =>
    rw [hl] at h
    cases h.2
  | some hours =>
    rw [hl, Option.getD_some] at h
    obtain ⟨before, after, heq, _⟩ := List.lookup_eq_some_iff.1 hl
    refine List.any_eq_true.2 ⟨_, heq ▸ List.mem_append_right _ List.mem_cons_self, ?_⟩
    cases hours with
    | nil => cases h.2
    | cons hour hours => rfl

theorem workingSecondsBetween_eq (hhours : calendar.HoursOfDay) (hdays : zone.SteadyDays)
    {start stop total : ℤ} (h : workingSecondsBetween calendar zone start stop = some total) :
    total = workingSeconds calendar zone start stop := by
  rw [workingSecondsBetween] at h
  split at h
  · next hle =>
    cases h
    exact (workingSeconds_of_ge hle).symm
  · split at h
    · rw [workingLoop_eq hhours hdays h, Int.zero_add]
    · next hnone =>
      cases h
      have hfree : ∀ t, start ≤ t → t < stop → working calendar zone t = false := by
        intro t _ _
        by_contra hwork
        exact hnone (anyHours_of_working (Bool.eq_true_of_not_eq_false hwork))
      rw [workingSeconds, countIn_none hfree]
      rfl

/-- The least instant from which on so many working seconds lie behind. -/
structure Reaches (calendar : WorkCalendar) (zone : TimeZone) (seconds start stop : ℤ) : Prop where
  le : start ≤ stop
  eq : (workingSeconds calendar zone start stop : ℤ) = seconds
  least : ∀ t, start ≤ t → t < stop → (workingSeconds calendar zone start t : ℤ) < seconds

theorem Reaches.here (calendar : WorkCalendar) (zone : TimeZone) (t : ℤ) :
    Reaches calendar zone 0 t t where
  le := Int.le_refl t
  eq := workingSeconds_of_ge (Int.le_refl t)
  least _ ht ht' := absurd ht (Int.not_le.2 ht')

theorem Reaches.before {seconds start middle stop : ℤ} (hle : start ≤ middle)
    (hbefore : ∀ t, start ≤ t → t < middle → (workingSeconds calendar zone start t : ℤ) < seconds)
    (h : Reaches calendar zone (seconds - workingSeconds calendar zone start middle) middle stop) :
    Reaches calendar zone seconds start stop := by
  refine ⟨Int.le_trans hle h.le, ?_, fun t ht ht' ↦ ?_⟩
  · have := workingSeconds_add calendar zone hle h.le
    have := h.eq
    omega
  · rcases Int.lt_or_le t middle with hlt | hge
    · exact hbefore t ht hlt
    · have := workingSeconds_add calendar zone hle hge
      have := h.least t hge ht'
      omega

theorem workingSeconds_mono (calendar : WorkCalendar) (zone : TimeZone) {a b c : ℤ} (h : a ≤ b)
    (h' : b ≤ c) :
    (workingSeconds calendar zone a b : ℤ) ≤ workingSeconds calendar zone a c := by
  exact_mod_cast countIn_mono h h'

theorem workingSeconds_le (calendar : WorkCalendar) (zone : TimeZone) {a b : ℤ} (h : a ≤ b) :
    (workingSeconds calendar zone a b : ℤ) ≤ b - a := by
  have := countIn_le (working calendar zone) a b
  rw [workingSeconds]
  omega

/-- A step of `destination_time_epoch` takes off what it passes, and passes the destination only
by stopping at it. -/
theorem destinationStep_spec (hhours : calendar.HoursOfDay) (hdays : zone.SteadyDays)
    {remaining current : ℤ} (hpos : 0 < remaining) {next : ℤ × ℤ}
    (hnext : destinationStep calendar zone remaining current (fromTimestamp zone current) = next) :
    current ≤ next.2 ∧ 0 ≤ next.1 ∧
      next.1 = remaining - workingSeconds calendar zone current next.2 ∧
      ∀ t, current ≤ t → t < next.2 → (workingSeconds calendar zone current t : ℤ) < remaining := by
  have hhour := toNextHour_pos zone current
  rw [destinationStep] at hnext
  split at hnext
  · next hday =>
    simp only [Bool.and_eq_true, Bool.not_eq_true'] at hday
    have hcount := workingSeconds_day hhours hdays hday.1
    rw [hday.2, if_neg Bool.false_ne_true] at hcount
    subst hnext
    refine ⟨by simp only; omega, by simp only; omega, by simp only; omega, fun t ht ht' ↦ ?_⟩
    have := workingSeconds_mono calendar zone ht (Int.le_of_lt ht')
    simp only at this
    omega
  · next hnot =>
    split at hnext
    · next hday =>
      simp only [Bool.and_eq_true, decide_eq_true_eq] at hday
      have hwork : calendar.isWorkingDay (fromTimestamp zone current) = true := by
        by_contra hfree
        rw [Bool.not_eq_true] at hfree
        refine hnot ?_
        simp only [hday.1, hfree, Bool.true_and, Bool.not_false]
      have hcount := workingSeconds_day hhours hdays hday.1
      rw [hwork, if_pos rfl] at hcount
      subst hnext
      refine ⟨by simp only; omega, by simp only; omega, by simp only; omega, fun t ht ht' ↦ ?_⟩
      have := workingSeconds_mono calendar zone ht (Int.le_of_lt ht')
      simp only at this
      omega
    · split at hnext
      · next hwork =>
        subst hnext
        have hcount : (workingSeconds calendar zone current
            (current + min (fromTimestamp zone current).toNextHour remaining) : ℤ) =
            min (fromTimestamp zone current).toNextHour remaining := by
          rw [workingSeconds_hour (by omega) (by omega), working, hwork, if_pos rfl]
          omega
        refine ⟨by simp only; omega, by simp only; omega, by simp only; omega, fun t ht ht' ↦ ?_⟩
        have := workingSeconds_le calendar zone ht
        simp only at ht'
        omega
      · next hfree =>
        have hw : working calendar zone current = false := by rwa [Bool.not_eq_true] at hfree
        subst hnext
        have hnone : ∀ t, current ≤ t → t ≤ current + (fromTimestamp zone current).toNextHour →
            (workingSeconds calendar zone current t : ℤ) = 0 := by
          intro t ht ht'
          rw [workingSeconds_hour ht ht', hw, if_neg Bool.false_ne_true]
        refine ⟨by simp only; omega, by simp only; omega, ?_, fun t ht ht' ↦ ?_⟩
        · simp only
          rw [hnone _ (by omega) (by omega)]
          omega
        · simp only at ht'
          rw [hnone t ht (by omega)]
          exact hpos

theorem destinationLoop_reaches (hhours : calendar.HoursOfDay) (hdays : zone.SteadyDays)
    {rounds : ℕ} {remaining current stop : ℤ} (hpos : 0 ≤ remaining)
    (h : destinationLoop calendar zone rounds (remaining, current) = some stop) :
    Reaches calendar zone remaining current stop := by
  induction rounds generalizing remaining current with
  | zero =>
    rw [destinationLoop] at h
    split at h
    · cases h
    · next hnot =>
      obtain rfl : remaining = 0 := by omega
      cases h
      exact .here calendar zone _
  | succ rounds ih =>
    rw [destinationLoop] at h
    split at h
    · next hlt =>
      obtain ⟨hle, hrest, heq, hbefore⟩ := destinationStep_spec hhours hdays hlt rfl
      exact .before hle hbefore (heq ▸ ih hrest h)
    · next hnot =>
      obtain rfl : remaining = 0 := by omega
      cases h
      exact .here calendar zone _

theorem destinationTimeEpoch_reaches (hhours : calendar.HoursOfDay) (hdays : zone.SteadyDays)
    {start minutes stop : ℤ} (hpos : 0 < minutes)
    (hsome : ∃ t, start ≤ t ∧ working calendar zone t = true)
    (h : destinationTimeEpoch calendar zone start minutes = some stop) :
    Reaches calendar zone (60 * minutes) start stop := by
  obtain ⟨t, _, ht⟩ := hsome
  rw [destinationTimeEpoch, if_neg (by omega), if_pos (anyHours_of_working ht)] at h
  rw [Int.mul_comm]
  exact destinationLoop_reaches hhours hdays (by omega) h

/-- The two functions count the same working seconds, in either direction. -/
structure WorkingTimeExact (calendar : WorkCalendar) (zone : TimeZone) : Prop where
  counts : ∀ start stop total, workingSecondsBetween calendar zone start stop = some total →
    total = workingSeconds calendar zone start stop
  adds : ∀ start middle stop first second total, start ≤ middle → middle ≤ stop →
    workingSecondsBetween calendar zone start middle = some first →
    workingSecondsBetween calendar zone middle stop = some second →
    workingSecondsBetween calendar zone start stop = some total → first + second = total
  reaches : ∀ start minutes stop, 0 < minutes →
    (∃ t, start ≤ t ∧ working calendar zone t = true) →
    destinationTimeEpoch calendar zone start minutes = some stop →
    Reaches calendar zone (60 * minutes) start stop
  inverse : ∀ start minutes stop, 0 < minutes →
    (∃ t, start ≤ t ∧ working calendar zone t = true) →
    destinationTimeEpoch calendar zone start minutes = some stop → start ≤ stop ∧
    (∀ total, workingSecondsBetween calendar zone start stop = some total →
      total = 60 * minutes) ∧
    ∀ t total, start ≤ t → t < stop → workingSecondsBetween calendar zone start t = some total →
      total ≠ 60 * minutes

theorem working_time_exact (calendar : WorkCalendar) (zone : TimeZone)
    (hhours : calendar.HoursOfDay) (hdays : zone.SteadyDays) :
    WorkingTimeExact calendar zone where
  counts _ _ _ h := workingSecondsBetween_eq hhours hdays h
  adds start middle stop first second total hle hle' h h' h'' := by
    rw [workingSecondsBetween_eq hhours hdays h, workingSecondsBetween_eq hhours hdays h',
      workingSecondsBetween_eq hhours hdays h'', workingSeconds_add calendar zone hle hle']
  reaches _ _ _ hpos hsome h := destinationTimeEpoch_reaches hhours hdays hpos hsome h
  inverse start minutes stop hpos hsome h := by
    have hreach := destinationTimeEpoch_reaches hhours hdays hpos hsome h
    refine ⟨hreach.le, fun total ht ↦ ?_, fun t total hle hlt ht ↦ ?_⟩
    · rw [workingSecondsBetween_eq hhours hdays ht, hreach.eq]
    · rw [workingSecondsBetween_eq hhours hdays ht]
      exact Int.ne_of_lt (hreach.least t hle hlt)

/-- Tuesdays to Thursdays from 8 to 18, without vacation. -/
def officeHours : WorkCalendar where
  workingHours := ["Tue", "Wed", "Thu"].map fun day ↦ (day, [8, 9, 10, 11, 12, 13, 14, 15, 16, 17])
  vacationDays _ _ := none
  vacationDaysOnce _ _ _ := none

/-- The clock goes from 1:00 to 2:00 on Monday, 1970-01-05. -/
def summerTime : TimeZone where
  utcOffset t := if t < 349200 then 0 else 3600
  full_hour t h := by
    split at h
    · exact absurd (if_pos (by omega)).symm h
    · split at h
      · rw [if_pos ‹_›]
        omega
      · exact absurd rfl h

theorem summerTime_steadyDays : summerTime.SteadyDays := by
  refine steadyDays_of_rare (fun t ↦ ?_) fun t u ht htu hut ↦ ?_
  · simp only [summerTime]
    split <;> split <;> omega
  · simp only [summerTime] at *
    have : t = 349200 := by
      by_contra hne
      refine ht ?_
      split <;> split <;> omega
    rw [if_neg (by omega), if_neg (by omega)]

theorem working_time_exact_sample : WorkingTimeExact officeHours summerTime ∧
    destinationTimeEpoch officeHours summerTime 0 1500 = some 561600 ∧
    workingSecondsBetween officeHours summerTime 0 561600 = some 90000 := by
  refine ⟨working_time_exact officeHours summerTime (by unfold WorkCalendar.HoursOfDay; decide)
    summerTime_steadyDays, ?_, ?_⟩
  · decide
  · decide

/-- The offset goes up and down again within one day. -/
def twoChanges : TimeZone where
  utcOffset t := if 7200 ≤ t ∧ t < 18000 then 3600 else 0
  full_hour t h := by
    split at h
    · split at h
      · exact absurd rfl h
      · rw [if_neg ‹_›]
        omega
    · split at h
      · rw [if_pos ‹_›]
        omega
      · exact absurd rfl h

def thursdaysAtFive : WorkCalendar where
  workingHours := [("Thu", [5])]
  vacationDays _ _ := none
  vacationDaysOnce _ _ _ := none

theorem working_time_two_changes :
    thursdaysAtFive.HoursOfDay ∧ ¬WorkingTimeExact thursdaysAtFive twoChanges := by
  refine ⟨by unfold WorkCalendar.HoursOfDay; decide, fun h ↦ ?_⟩
  have htotal : workingSecondsBetween thursdaysAtFive twoChanges 0 100000 = some 3600 := by decide
  have hcount := h.counts 0 100000 3600 htotal
  have htwice : workingSeconds thursdaysAtFive twoChanges 14400 21600 = 7200 := by
    refine countIn_all fun t ht ht' ↦ ?_
    have hlocal : twoChanges.localSeconds t / 3600 = 5 := by
      simp only [TimeZone.localSeconds, twoChanges]
      split <;> omega
    have hat : working thursdaysAtFive twoChanges t = working thursdaysAtFive twoChanges 14400 := by
      apply isWorkingHour_congr
      · simp only [fromTimestamp]
        have h0 : twoChanges.localSeconds 14400 = 18000 := by decide
        omega
      · simp only [fromTimestamp]
        have h0 : twoChanges.localSeconds 14400 = 18000 := by decide
        omega
    rw [hat]
    decide
  have hleft := workingSeconds_add thursdaysAtFive twoChanges (show (0 : ℤ) ≤ 14400 by decide)
    (show (14400 : ℤ) ≤ 100000 by decide)
  have hright := workingSeconds_mono thursdaysAtFive twoChanges (show (14400 : ℤ) ≤ 21600 by decide)
    (show (21600 : ℤ) ≤ 100000 by decide)
  omega

end Tiqora.Znuny
