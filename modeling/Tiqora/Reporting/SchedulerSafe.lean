import Tiqora.Reporting.SchedulerKept

namespace Tiqora.Reporting.Scheduler

open Foundation Calendar Schedule

/-- Whether a save writes over the plan that it read, with no run queued since it began. -/
def undisturbed (s : SchedulerState) : SchedulerAction → Bool
  | .writeUpdate p =>
    match s.task p with
    | .saving id now read _ => (s.schedule id).all fun row ↦
        row.nextRunAt = read.nextRunAt &&
          s.runs.all fun run ↦ run.scheduleId ≠ id || run.createdAt ≤ now
    | _ => true
  | _ => true

/-- Whether a tick uses the schedule as it is. -/
def upToDate (s : SchedulerState) : SchedulerAction → Bool
  | .advance p =>
    match s.task p with
    | .processing _ id _ read _ _ => (s.schedule id).all fun row ↦ read.version = row.version
    | _ => true
  | _ => true

theorem undisturbed_writeUpdate {s : SchedulerState} {p id : ℕ} {now : Datetime}
    {read row : ReportSchedule} {body : ReportScheduleUpdateIn}
    (h : undisturbed s (.writeUpdate p) = true) (hp : s.task p = .saving id now read body)
    (hrow : s.schedule id = some row) : Undisturbed s id now read row := by
  simp only [undisturbed, hp, hrow, Option.all_some, Bool.and_eq_true, decide_eq_true_eq,
    List.all_eq_true, Bool.or_eq_true] at h
  exact ⟨h.1, fun run hrun hid ↦ (h.2 run hrun).resolve_left (not_not.2 hid)⟩

theorem mem_dueRows {s : SchedulerState} {stamp : Datetime} {entry : ℕ × Datetime}
    (h : entry ∈ s.dueRows stamp) : entry.2 ≤ stamp := by
  rw [SchedulerState.dueRows] at h
  have hmem := (List.perm_insertionSort _ _).subset (List.mem_of_mem_take h)
  obtain ⟨⟨row, id⟩, -, hrow⟩ := List.mem_filterMap.1 hmem
  obtain ⟨row, -, hrow⟩ := Option.bind_eq_some_iff.1 hrow
  obtain ⟨due, -, hdue⟩ := Option.bind_eq_some_iff.1 hrow
  split at hdue
  · rename_i hle
    cases hdue
    exact hle.2
  · cases hdue

theorem process_clock (zones : String → Option Zone) (s : SchedulerState) (stamp : Datetime) (id : ℕ)
    (due : Datetime) (read : ReportSchedule) :
    (s.process zones stamp id due read).1.clock = s.clock := by
  have hpause (why : String) : (s.pauseBroken id due why).1.clock = s.clock := by
    rw [SchedulerState.pauseBroken]
    split <;> rfl
  rw [SchedulerState.process]
  split
  · exact hpause _
  · split
    · exact hpause _
    · split
      · exact hpause _
      · rfl
      · rw [SchedulerState.enqueue]
        split
        · split <;> rfl
        · rfl

section Steps

variable {strict : Prop} {zones : String → Option Zone} {s t : SchedulerState}

theorem Kept.start (h : SchedulerStart s) : Kept strict zones s where
  rows id row hrow := by
    rw [SchedulerState.schedule, h.schedules] at hrow
    cases hrow
  runs run hrun := by
    rw [h.runs] at hrun
    cases hrun
  apart := h.runs ▸ .nil
  jobs := h.jobs ▸ .nil
  fresh job hjob := by
    rw [h.jobs] at hjob
    cases hjob
  tasks p := by
    rw [h.task p]
    trivial

/-- What a process reads of a schedule. -/
theorem Kept.reads (hs : Kept strict zones s) {id : ℕ} {read : ReportSchedule}
    (h : s.schedule id = some read) : ReadKept s id read := by
  refine ⟨(List.getElem?_eq_some_iff.1 (SchedulerState.schedule_eq_some.1 h)).1,
    (hs.rows id read h).active, fun row hrow ↦ ?_⟩
  rw [h] at hrow
  cases hrow
  exact ⟨le_rfl, fun _ ↦ ⟨rfl, rfl⟩⟩

/-- A field that plans nothing is written. -/
theorem Kept.note (hs : Kept strict zones s) {id : ℕ} {row row' : ReportSchedule}
    (hrow : s.schedule id = some row) (hversion : row.version ≤ row'.version)
    (hsame : row'.active = row.active ∧ row'.nextRunAt = row.nextRunAt ∧
      row'.recurrence = row.recurrence ∧ row'.timeZone = row.timeZone) :
    Kept strict zones (s.put id row') := by
  obtain ⟨hactive, hnext, hrec, hzone⟩ := hsame
  obtain ⟨hold, hwhole, hlater, hplanned⟩ := hs.rows id row hrow
  refine hs.put hrow ⟨?_, ?_, ?_, fun hstrict d hd ↦ ⟨?_⟩⟩ hversion fun _ ↦ ⟨hrec.symm, hzone.symm⟩
  · rw [hactive, hnext]
    exact hold
  · rw [hnext]
    exact hwhole
  · rw [hnext]
    exact hlater
  · rw [hrec, hzone]
    exact (hplanned hstrict d (hnext ▸ hd)).first

theorem Kept.next (hs : Kept strict zones s)
    (hzones : ∀ name zone, zones name = some zone → WholeSeconds zone) {a : SchedulerAction}
    (hundisturbed : undisturbed s a = true) (hcurrent : strict → upToDate s a = true)
    (h : s.next zones a = some t) : Kept strict zones t := by
  cases a with
  | wait moment =>
    rw [SchedulerState.next] at h
    split at h
    · rename_i hle
      cases h
      exact hs.wait hle
    · cases h
  | createSchedule recurrence timeZone active =>
    obtain ⟨next, hnext, rfl⟩ := Option.map_eq_some_iff.1 h
    have hplanned := nextRun_planned hzones hnext
    refine hs.createSchedule fun runs hnew ↦ ⟨hplanned.active, fun d hd ↦ (hplanned.run d hd).2.1,
      fun d _ run hrun hid ↦ absurd hid (hnew run hrun), fun _ d hd ↦ ?_⟩
    obtain ⟨-, -, zone, hzone, hfirst⟩ := hplanned.run d hd
    exact ⟨recurrence, zone, s.clock, rfl, hzone, hfirst, fun run hrun hid ↦
      absurd hid (hnew run hrun)⟩
  | updateSchedule p id body =>
    rw [SchedulerState.next] at h
    split at h
    · cases h
      exact hs.turn p le_rfl
    · cases h
  | readUpdate p =>
    rw [SchedulerState.next] at h
    split at h
    · rename_i id now body hp
      have hnow : now ≤ s.clock := by
        have htask := hs.tasks p
        rwa [hp] at htask
      split at h
      · rename_i read hread
        split at h
        · rename_i hversion
          cases h
          exact hs.turn p ⟨hnow, hversion, hs.reads hread⟩
        · cases h
          exact hs.turn p trivial
      · cases h
        exact hs.turn p trivial
    · cases h
  | writeUpdate p =>
    rw [SchedulerState.next] at h
    split at h
    · rename_i id now read body hp
      have htask := hs.tasks p
      rw [hp] at htask
      obtain ⟨-, hbody, hread⟩ := htask
      split at h
      · rename_i next row hnext hrow
        split at h
        · rename_i hversion
          cases h
          exact (hs.save hzones hrow (hbody.symm.trans hversion.symm) hread
            (undisturbed_writeUpdate hundisturbed hp hrow) hnext).turn p trivial
        · cases h
          exact hs.turn p trivial
      · cases h
        exact hs.turn p trivial
    · cases h
  | deleteSchedule id =>
    cases h
    exact hs.deleteSchedule id
  | touch id =>
    obtain ⟨row, hrow, rfl⟩ := Option.map_eq_some_iff.1 h
    exact hs.note hrow (Nat.le_succ _) ⟨rfl, rfl, rfl, rfl⟩
  | startTick p =>
    rw [SchedulerState.next] at h
    split at h
    · cases h
      exact hs.turn p ⟨wholeSeconds_le _, whole_wholeSeconds _, fun entry ↦ mem_dueRows⟩
    · cases h
  | load p =>
    rw [SchedulerState.next] at h
    split at h
    · rename_i stamp id due rows out hp
      have htask := hs.tasks p
      rw [hp] at htask
      obtain ⟨hstamp, hwhole, hrows⟩ := htask
      obtain ⟨hdue, hrows⟩ := List.forall_mem_cons.1 hrows
      split at h
      · rename_i read hread
        cases h
        obtain ⟨hrow, -, -⟩ := SchedulerState.dueRow_eq_some.1 hread
        exact hs.turn p ⟨hstamp, hwhole, hrows, hdue, hs.reads hrow⟩
      · cases h
        exact hs.turn p ⟨hstamp, hwhole, hrows⟩
    · cases h
      exact hs.turn p trivial
    · cases h
  | advance p =>
    rw [SchedulerState.next] at h
    split at h
    · rename_i stamp id due read rows out hp
      have htask := hs.tasks p
      rw [hp] at htask
      obtain ⟨hstamp, hwhole, hrows, hdue, hread⟩ := htask
      cases h
      have hprocess := hs.process hzones hdue hstamp hread fun hstrict row hrow ↦ by
        have hversion := hcurrent hstrict
        simpa only [upToDate, hp, hrow, Option.all_some, decide_eq_true_eq] using hversion
      have hclock := process_clock zones s stamp id due read
      exact hprocess.turn p ⟨hclock ▸ hstamp, hwhole, hrows⟩
    · cases h
  | fault p =>
    rw [SchedulerState.next] at h
    split at h
    · rename_i stamp id due read rows out hp
      have htask := hs.tasks p
      rw [hp] at htask
      obtain ⟨hstamp, hwhole, hrows, -, -⟩ := htask
      cases h
      exact hs.turn p ⟨hstamp, hwhole, hrows⟩
    · cases h
  | recordFailure p run reason =>
    rw [SchedulerState.next] at h
    split at h
    · cases h
      exact hs.turn p fun row hrow ↦ (hs.rows _ row hrow).active
    · cases h
  | writeFailure p =>
    rw [SchedulerState.next] at h
    split at h
    · rename_i run now read reason hp
      have htask := hs.tasks p
      rw [hp] at htask
      split at h
      · rename_i row hrow
        cases h
        have hended := hs.endRun run.id now
        exact (hended.fail hrow (htask read rfl) reason).turn p trivial
      · cases h
        exact hs.turn p trivial
    · rename_i run now reason hp
      cases h
      exact (hs.endRun run.id now).turn p trivial
    · cases h
  | finishRun run status reset =>
    rw [SchedulerState.next] at h
    split at h
    · rename_i row hrow
      cases h
      exact (hs.endRun run.id s.clock).note hrow le_rfl ⟨rfl, rfl, rfl, rfl⟩
    · cases h
      exact hs.endRun run.id s.clock
  | settleJob j =>
    cases h
    exact hs.settleJob j
  | purge olderThan =>
    cases h
    exact hs.purge _
  | abandon p =>
    cases h
    exact hs.turn p trivial

end Steps

def SchedulerState.runsOf (s : SchedulerState) (id : ℕ) : List ReportRun :=
  s.runs.filter (·.scheduleId = id)

/-- The runs of the schedules, in any state of them. -/
structure SchedulerSafe (s : SchedulerState) : Prop where
  /-- A run is due after the tick that queued the one before: no time is run twice, and the times
  that passed meanwhile are run once. -/
  apart : ∀ id, (s.runsOf id).Pairwise fun a b ↦ a.createdAt < b.dueAt
  due : ∀ run ∈ s.runs, run.dueAt ≤ run.createdAt ∧ run.createdAt ≤ s.clock
  later : ∀ id row d, s.schedule id = some row → row.nextRunAt = some d →
    ∀ run ∈ s.runsOf id, run.createdAt < d
  active : ∀ id row, s.schedule id = some row → (row.active = true ↔ row.nextRunAt.isSome = true)
  delivered : ∀ run ∈ s.runs, ∃ job, s.jobs[run.jobId]? = some job ∧ job.runId = run.id
  once : (s.jobs.map (·.runId)).Nodup

theorem Kept.safe {strict : Prop} {zones : String → Option Zone} {s : SchedulerState}
    (hs : Kept strict zones s) : SchedulerSafe s where
  apart id := by
    have hfilter := hs.apart.filter (·.scheduleId = id)
    refine hfilter.imp_of_mem fun {a b} ha hb hab ↦ hab ?_
    have ha := of_decide_eq_true (List.mem_filter.1 ha).2
    have hb := of_decide_eq_true (List.mem_filter.1 hb).2
    exact ha.trans hb.symm
  due run hrun := ⟨(hs.runs run hrun).due, (hs.runs run hrun).created⟩
  later id row d hrow hd run hrun := by
    obtain ⟨hmem, hid⟩ := List.mem_filter.1 hrun
    exact (hs.rows id row hrow).later d hd run hmem (of_decide_eq_true hid)
  active id row hrow := (hs.rows id row hrow).active
  delivered run hrun := (hs.runs run hrun).job
  once := by
    refine (List.pairwise_map.2 hs.jobs).imp fun {a b} hab ↦ ?_
    exact Nat.ne_of_lt hab

theorem report_scheduler_safe (zones : String → Option Zone)
    (hzones : ∀ name zone, zones name = some zone → WholeSeconds zone) :
    (∀ s, ((scheduler zones).restrict fun s a ↦ undisturbed s a = true).Reachable s →
      SchedulerSafe s) ∧
    ∀ s, ((scheduler zones).restrict fun s a ↦
      undisturbed s a = true ∧ upToDate s a = true).Reachable s →
        ∀ id row d, s.schedule id = some row → row.nextRunAt = some d →
          RowPlanned zones s.runs id row d := by
  constructor
  · intro s h
    have hs : Kept False zones s := by
      refine Machine.Reachable.invariant (I := Kept False zones) (fun s h₀ ↦ .start h₀)
        (fun s a t hs hst ↦ ?_) h
      exact hs.next hzones hst.1 False.elim hst.2
    exact hs.safe
  · intro s h id row d hrow hd
    have hs : Kept True zones s := by
      refine Machine.Reachable.invariant (I := Kept True zones) (fun s h₀ ↦ .start h₀)
        (fun s a t hs hst ↦ ?_) h
      exact hs.next hzones hst.1.1 (fun _ ↦ hst.1.2) hst.2
    exact (hs.rows id row hrow).planned trivial d hd

section Sample

def utcOnly (name : String) : Option Zone := if name = "UTC" then some utc else none

def noon (day : ℕ) (h : day < 3652058) : Datetime :=
  ⟨day * dayMicros + 43200000000, by
    have hday : dayMicros = 86400000000 := rfl
    have hdays : maxDays = 3652059 := rfl
    rw [hday, hdays]
    omega⟩

def noSchedules : SchedulerState := ⟨noon 1000 (by decide), [], [], 0, [], fun _ ↦ .idle⟩

/-- Two ticks at once after days without one, and the tick of the next day. -/
def afterDowntime : List SchedulerAction :=
  [.createSchedule midnightDaily "UTC" true, .wait (noon 1003 (by decide)), .startTick 0, .startTick 1,
    .load 0, .load 1, .advance 1, .advance 0, .wait (noon 1004 (by decide)), .startTick 2, .load 2,
    .advance 2]

/-- A save that began before a tick writes back the run that the tick has queued. -/
def overlapped : List SchedulerAction :=
  [.createSchedule midnightDaily "UTC" true, .wait (noon 1001 (by decide)),
    .updateSchedule 5 0 ⟨midnightDaily, "UTC", true, 1⟩, .readUpdate 5, .startTick 0, .load 0,
    .advance 0, .writeUpdate 5, .settleJob 0, .startTick 1, .load 1, .advance 1]

theorem report_scheduler_safe_sample :
    (∃ s, SchedulerSafe s ∧ s.runs.map (fun run ↦ run.dueAt.1 / dayMicros) = [1001, 1004]) ∧
    ∃ s, (scheduler utcOnly).Reachable s ∧
      s.runs.map (fun run ↦ run.dueAt.1 / dayMicros) = [1001, 1001] := by
  have hzones : ∀ name zone, utcOnly name = some zone → WholeSeconds zone := by
    intro name zone h
    rw [utcOnly] at h
    split at h
    · cases h
      exact fun _ ↦ rfl
    · cases h
  have hstart : SchedulerStart noSchedules := ⟨rfl, rfl, rfl, fun _ ↦ rfl⟩
  have hdowntime : ∃ s, ((scheduler utcOnly).restrict fun s a ↦ undisturbed s a = true).Reachable s ∧
      s.runs.map (fun run ↦ run.dueAt.1 / dayMicros) = [1001, 1004] :=
    Machine.exists_reachable afterDowntime hstart (by decide +kernel)
  constructor
  · obtain ⟨s, hreach, hdue⟩ := hdowntime
    exact ⟨s, (report_scheduler_safe utcOnly hzones).1 s hreach, hdue⟩
  · exact Machine.exists_reachable_of_foldlM overlapped hstart (by decide +kernel)

end Sample

end Tiqora.Reporting.Scheduler
