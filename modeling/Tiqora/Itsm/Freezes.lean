import Mathlib.Data.List.Sort
import Tiqora.Calendar.Coverage
import Tiqora.Calendar.Recurrence

namespace Tiqora.Itsm.Freezes

open Calendar

inductive Enforcement
  | block
  | warn
  deriving DecidableEq

inductive Scope
  | all
  | services
  deriving DecidableEq

/-- A freeze window as it is stored, with its services. -/
structure Freeze where
  id : ℕ
  name : String
  enforcement : Enforcement
  allowEmergency : Bool
  scope : Scope
  serviceIds : List ℕ
  startsAt : Datetime
  endsAt : Datetime
  recurType : Option RecurType
  recurInterval : Option ℤ
  recurCount : Option ℤ
  recurUntil : Option Datetime
  valid : Bool
  ends : startsAt < endsAt

structure FreezeOccurrence where
  freezeId : ℕ
  name : String
  enforcement : Enforcement
  allowEmergency : Bool
  scope : Scope
  serviceIds : List ℕ
  start : Datetime
  stop : Datetime
  deriving DecidableEq

structure FreezeOccurrences where
  items : List FreezeOccurrence
  truncated : Bool
  deriving DecidableEq

/-- The table, in the order of its ids. -/
structure Freezes where
  rows : List Freeze
  ordered : rows.Pairwise fun row row' ↦ row.id < row'.id

/-- The days of the longest `timedelta`. -/
def maxDeltaDays : ℕ := 999999999

/-- The start, the end and the count from which a series is expanded. -/
structure Forwarded where
  start : Datetime
  stop : Datetime
  count : Option ℤ
  ends : start ≤ stop

namespace Freeze

variable (row : Freeze)

theorem starts_le : row.startsAt ≤ row.endsAt := row.ends.le

/-- The days of the steps that are skipped arithmetically. -/
def unitDays : Option ℕ :=
  match row.recurType with
  | some .daily => some 1
  | some .weekly => some 7
  | _ => none

/-- `recur_interval or 1`, at least 1. -/
def interval : ℕ := max (row.recurInterval.getD 1).toNat 1

def forwardBy (micros : ℕ) (count : Option ℤ) : Option Forwarded :=
  match hstart : Datetime.of? (row.startsAt.1 + micros),
    hstop : Datetime.of? (row.endsAt.1 + micros) with
  | some start, some stop => some ⟨start, stop, count, by
      rw [Fin.le_def, of?_eq_some.1 hstart, of?_eq_some.1 hstop]
      exact Nat.add_le_add_right (Fin.le_def.1 row.starts_le) _⟩
  | _, _ => none

/-- `none` when a `timedelta` or a `datetime` overflows; no expansion when the series is used up. -/
def fastForward (rangeStart : Datetime) : Option (Option Forwarded) :=
  match row.unitDays with
  | none => some (some ⟨row.startsAt, row.endsAt, row.recurCount, row.starts_le⟩)
  | some unit =>
    if unit * row.interval ≤ maxDeltaDays then
      let step := unit * row.interval * dayMicros
      let skip := (rangeStart.1 - row.endsAt.1) / step
      if row.recurCount.any fun count ↦ count ≤ (skip : ℤ) then some none
      else (row.forwardBy (skip * step) (row.recurCount.map (· - (skip : ℤ)))).map some
    else none

/-- What is expanded. -/
def series (f : Forwarded) : Appointment where
  startTime := f.start
  endTime := f.stop
  recurType := row.recurType
  recurInterval := row.recurInterval
  recurCount := f.count
  recurUntil := row.recurUntil
  exclude := []
  ends := f.ends

def found (w : Window) : Option (List Occurrence) :=
  (row.fastForward w.rangeStart).bind fun forwarded ↦
    match forwarded with
    | none => some []
    | some f => (row.series f).expandOccurrences w

def item (occ : Occurrence) : FreezeOccurrence where
  freezeId := row.id
  name := row.name
  enforcement := row.enforcement
  allowEmergency := row.allowEmergency
  scope := row.scope
  serviceIds := row.serviceIds
  start := occ.start
  stop := occ.stop

end Freeze

/-- The order of `(start, freeze_id)`. -/
def FreezeOccurrence.le (o o' : FreezeOccurrence) : Bool :=
  o.start < o'.start || o.start = o'.start && o.freezeId ≤ o'.freezeId

def expandAll (rows : List Freeze) (w : Window) : Option (List (Freeze × List Occurrence)) :=
  rows.mapM fun row ↦ (row.found w).map fun found ↦ (row, found)

/-- The occurrences that overlap the window, by start. `none` when a `datetime` overflows. -/
def occurrences (table : Freezes) (w : Window) : Option FreezeOccurrences :=
  (expandAll (table.rows.filter (·.valid)) w).map fun expanded ↦
    let out := expanded.flatMap fun r ↦ r.2.map r.1.item
    let truncated := expanded.any fun r ↦ maxOccurrences ≤ r.2.length
    let out := out.mergeSort FreezeOccurrence.le
    ⟨out.take maxOccurrences, truncated || maxOccurrences < out.length⟩

namespace Freeze

variable (row : Freeze) (w : Window)

/-- The series from its first occurrence on. -/
def whole : Appointment := row.series ⟨row.startsAt, row.endsAt, row.recurCount, row.starts_le⟩

/-- The `k`-th occurrence of a window overlaps the range. -/
def OccursAt (k : ℕ) (o : Occurrence) : Prop :=
  match row.recurType with
  | some type => row.whole.OccursAt type w k o
  | none => k = 0 ∧ o = ⟨row.startsAt, row.endsAt, false⟩ ∧ row.startsAt < w.rangeEnd ∧
      w.rangeStart < row.endsAt

/-- How many occurrences are skipped. -/
def skip (rangeStart : Datetime) : ℕ :=
  match row.unitDays with
  | none => 0
  | some unit => (rangeStart.1 - row.endsAt.1) / (unit * row.interval * dayMicros)

/-- What is expanded is the series without the occurrences that are skipped. -/
structure Continues (f : Forwarded) (n : ℕ) : Prop where
  duration : (row.series f).duration = row.whole.duration
  occurrence : ∀ type ∈ row.recurType, ∀ k,
    (row.series f).occurrence type k = row.whole.occurrence type (n + k)
  count : ∀ k, (row.series f).pastCount k = row.whole.pastCount (n + k)

end Freeze

variable {row : Freeze} {w : Window} {f : Forwarded} {type : RecurType} {n k : ℕ} {t : Datetime}
  {o : Occurrence} {rangeStart : Datetime}

theorem unit_pos {unit : ℕ} (h : row.unitDays = some unit) :
    0 < unit * row.interval * dayMicros := by
  have hunit : 0 < unit := by
    rw [Freeze.unitDays] at h
    split at h
    · cases h
      decide
    · cases h
      decide
    · cases h
  exact Nat.mul_pos (Nat.mul_pos hunit (lt_of_lt_of_le Nat.one_pos (le_max_right _ _))) (by decide)

/-- A step of a series of days adds days. -/
theorem step_unit {unit : ℕ} (hunit : row.unitDays = some unit) (htype : row.recurType = some type)
    (t : Datetime) :
    step type row.interval t = Datetime.of? (t.1 + unit * row.interval * dayMicros) := by
  rw [Freeze.unitDays, htype] at hunit
  cases type with
  | daily =>
    cases hunit
    rw [step, Nat.one_mul]
  | weekly =>
    cases hunit
    rw [step, Nat.mul_comm 7]
  | monthly => cases hunit
  | yearly => cases hunit

theorem occurrence_unit {unit : ℕ} (hunit : row.unitDays = some unit)
    (htype : row.recurType = some type) (a : Appointment) (hinterval : a.interval = row.interval)
    (k : ℕ) : a.occurrence type k =
      Datetime.of? (a.startTime.1 + k * (unit * row.interval * dayMicros)) := by
  induction k with
  | zero =>
    rw [Appointment.occurrence, Nat.zero_mul, Nat.add_zero, of?_of_lt a.startTime.2]
  | succ k ih =>
    rw [Appointment.occurrence, ih, hinterval, Nat.succ_mul, ← Nat.add_assoc]
    by_cases hlt : a.startTime.1 + k * (unit * row.interval * dayMicros) < maxDays * dayMicros
    · rw [of?_of_lt hlt, Option.bind_some, step_unit hunit htype]
    · rw [Datetime.of?, dif_neg hlt, Option.bind_none, Datetime.of?, dif_neg (by omega)]

theorem forwardBy_eq_some {micros : ℕ} {count : Option ℤ}
    (h : row.forwardBy micros count = some f) :
    f.start.1 = row.startsAt.1 + micros ∧ f.stop.1 = row.endsAt.1 + micros ∧ f.count = count := by
  rw [Freeze.forwardBy] at h
  split at h
  · next start stop hstart hstop =>
    cases h
    exact ⟨of?_eq_some.1 hstart, of?_eq_some.1 hstop, rfl⟩
  · cases h

theorem forwardBy_isSome {micros : ℕ} (count : Option ℤ)
    (h : row.endsAt.1 + micros < maxDays * dayMicros) :
    ∃ f, row.forwardBy micros count = some f := by
  have hstart : row.startsAt.1 + micros < maxDays * dayMicros := by
    have hends := Fin.lt_def.1 row.ends
    omega
  rw [Freeze.forwardBy]
  split
  · exact ⟨_, rfl⟩
  · next hnone =>
    exact absurd (of?_of_lt h) (hnone _ _ (of?_of_lt hstart))

/-- What the skipped occurrences have ended by. -/
theorem skipped_le {unit : ℕ} (hunit : row.unitDays = some unit) (hk : k ≤ row.skip rangeStart)
    (hskip : 0 < row.skip rangeStart) :
    row.endsAt.1 + k * (unit * row.interval * dayMicros) ≤ rangeStart.1 := by
  rw [Freeze.skip, hunit] at hk hskip
  dsimp only at hk hskip
  have hmul := (Nat.mul_le_mul_right (unit * row.interval * dayMicros) hk).trans
    (Nat.div_mul_le_self _ _)
  have hpos : 0 < rangeStart.1 - row.endsAt.1 := by
    by_contra hzero
    rw [Nat.eq_zero_of_not_pos hzero, Nat.zero_div] at hskip
    exact absurd hskip (lt_irrefl 0)
  omega

theorem continues_zero : row.Continues ⟨row.startsAt, row.endsAt, row.recurCount, row.starts_le⟩ 0 :=
  ⟨rfl, fun _ _ k ↦ by rw [Nat.zero_add]; rfl, fun k ↦ by rw [Nat.zero_add]; rfl⟩

theorem continues_skip {unit : ℕ} (hunit : row.unitDays = some unit)
    (hf : row.forwardBy (n * (unit * row.interval * dayMicros)) (row.recurCount.map (· - (n : ℤ))) =
      some f) : row.Continues f n := by
  obtain ⟨hstart, hstop, hcount⟩ := forwardBy_eq_some hf
  refine ⟨?_, fun type htype k ↦ ?_, fun k ↦ ?_⟩
  · rw [Appointment.duration, Appointment.duration]
    change f.stop.1 - f.start.1 = row.endsAt.1 - row.startsAt.1
    omega
  · rw [occurrence_unit hunit htype _ rfl, occurrence_unit hunit htype _ rfl]
    change Datetime.of? (f.start.1 + _) = Datetime.of? (row.startsAt.1 + _)
    rw [hstart, Nat.add_mul, Nat.add_assoc]
  · rw [Appointment.pastCount, Appointment.pastCount]
    change f.count.any _ = row.recurCount.any _
    rw [hcount]
    cases row.recurCount with
    | none => rfl
    | some count =>
      refine Bool.decide_congr ?_
      change count - (n : ℤ) ≤ (k : ℤ) ↔ count ≤ ((n + k : ℕ) : ℤ)
      omega

theorem Freeze.Continues.reaches (h : row.Continues f n) (htype : row.recurType = some type) :
    (row.series f).Reaches type w k t ↔ row.whole.Reaches type w (n + k) t := by
  constructor
  · intro hreach
    exact ⟨(h.occurrence type htype k).symm.trans hreach.occurrence, hreach.until_,
      (h.count k).symm.trans hreach.count, hreach.before⟩
  · intro hreach
    exact ⟨(h.occurrence type htype k).trans hreach.occurrence, hreach.until_,
      (h.count k).trans hreach.count, hreach.before⟩

theorem Freeze.Continues.occursAt (h : row.Continues f n) (htype : row.recurType = some type) :
    (row.series f).OccursAt type w k o ↔ row.whole.OccursAt type w (n + k) o := by
  constructor
  · intro ho
    exact ⟨(h.reaches htype).1 ho.reaches, h.duration ▸ ho.stop, ho.isRecurring, ho.after,
      ho.included⟩
  · intro ho
    exact ⟨(h.reaches htype).2 ho.reaches, h.duration.symm ▸ ho.stop, ho.isRecurring, ho.after,
      ho.included⟩

theorem Freeze.Continues.goesOn (h : row.Continues f n) :
    (row.series f).GoesOn type t ↔ row.whole.GoesOn type t := by
  rw [Appointment.GoesOn, Appointment.GoesOn, h.duration]
  exact Iff.rfl

/-- No occurrence that is skipped overlaps the range. -/
theorem not_occursAt_skipped (hk : k < row.skip w.rangeStart) : ¬ row.OccursAt w k o := by
  intro ho
  cases hunit : row.unitDays with
  | none =>
    rw [Freeze.skip, hunit] at hk
    exact absurd hk (Nat.not_lt_zero k)
  | some unit =>
    cases htype : row.recurType with
    | none =>
      rw [Freeze.unitDays, htype] at hunit
      cases hunit
    | some type =>
      rw [Freeze.OccursAt, htype] at ho
      have hstart := ho.reaches.occurrence
      rw [occurrence_unit hunit htype _ rfl, of?_eq_some] at hstart
      have hstop := ho.stop
      have hafter := Fin.lt_def.1 ho.after
      have hends := Fin.lt_def.1 row.ends
      have hle := skipped_le hunit hk.le (Nat.zero_lt_of_lt hk)
      rw [Appointment.duration] at hstop
      change o.start.1 = row.startsAt.1 + _ at hstart
      change o.stop.1 = o.start.1 + (row.endsAt.1 - row.startsAt.1) at hstop
      omega

/-- A series that is used up before the range has no occurrence in it. -/
theorem not_occursAt_exhausted (hunit : row.unitDays.isSome = true)
    (hcount : (row.recurCount.any fun count ↦ count ≤ (row.skip w.rangeStart : ℤ)) = true) :
    ¬ row.OccursAt w k o := by
  intro ho
  rcases lt_or_ge k (row.skip w.rangeStart) with hlt | hge
  · exact not_occursAt_skipped hlt ho
  · cases htype : row.recurType with
    | none =>
      rw [Freeze.unitDays, htype] at hunit
      cases hunit
    | some type =>
      rw [Freeze.OccursAt, htype] at ho
      have hnot := ho.reaches.count
      rw [Appointment.pastCount] at hnot
      change row.recurCount.any _ = false at hnot
      cases hr : row.recurCount with
      | none =>
        rw [hr] at hcount
        cases hcount
      | some count =>
        rw [hr] at hcount hnot
        have hle : count ≤ (row.skip w.rangeStart : ℤ) := of_decide_eq_true hcount
        have hgt : ¬ count ≤ (k : ℤ) := of_decide_eq_false hnot
        omega

/-- What is skipped of a window and what remains of it. -/
inductive Forwards (row : Freeze) (w : Window) : Option Forwarded → Prop
  | exhausted : (∀ k o, ¬ row.OccursAt w k o) →
      (∀ type ∈ row.recurType, ∀ k t,
        ¬ row.whole.Reaches type w (row.skip w.rangeStart + k) t) → Forwards row w none
  | continues {f : Forwarded} : row.Continues f (row.skip w.rangeStart) →
      f.count = row.recurCount.map (· - (row.skip w.rangeStart : ℤ)) →
        Forwards row w (some f)

theorem fastForward_spec {forwarded : Option Forwarded}
    (h : row.fastForward w.rangeStart = some forwarded) : Forwards row w forwarded := by
  rw [Freeze.fastForward] at h
  split at h
  · next hunit =>
    cases h
    have hskip : row.skip w.rangeStart = 0 := by rw [Freeze.skip, hunit]
    refine .continues (hskip.symm ▸ continues_zero) ?_
    rw [hskip]
    change row.recurCount = _
    cases row.recurCount with
    | none => rfl
    | some count => simp
  · next unit hunit =>
    have hskip : (w.rangeStart.1 - row.endsAt.1) / (unit * row.interval * dayMicros) =
        row.skip w.rangeStart := by rw [Freeze.skip, hunit]
    split at h
    · simp only [hskip] at h
      split at h
      · next hcount =>
        cases h
        refine .exhausted (fun k o ↦ not_occursAt_exhausted (by rw [hunit]; rfl) hcount) ?_
        intro type htype k t hreach
        have hnot := hreach.count
        rw [Appointment.pastCount] at hnot
        change row.recurCount.any _ = false at hnot
        cases hr : row.recurCount with
        | none =>
          rw [hr] at hcount
          cases hcount
        | some count =>
          rw [hr] at hcount hnot
          have hle : count ≤ (row.skip w.rangeStart : ℤ) := of_decide_eq_true hcount
          have hgt : ¬ count ≤ ((row.skip w.rangeStart + k : ℕ) : ℤ) := of_decide_eq_false hnot
          omega
      · obtain ⟨f, hf, rfl⟩ := Option.map_eq_some_iff.1 h
        exact .continues (continues_skip hunit hf) (forwardBy_eq_some hf).2.2
    · cases h

end Tiqora.Itsm.Freezes
