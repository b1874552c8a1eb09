import Tiqora.Foundation.Guarded
import Tiqora.Reporting.RecurrenceExact
import Tiqora.Reporting.Scheduler

namespace Tiqora.Reporting.Scheduler

open Foundation Calendar Schedule

/-- The offsets of a zone are whole seconds. -/
def WholeSeconds (zone : Zone) : Prop := ∀ t, zone.offset t % 1000000 = 0

def Whole (moment : Datetime) : Prop := moment.1 % 1000000 = 0

theorem wholeSeconds_val (moment : Datetime) :
    (wholeSeconds moment).1 = moment.1 - moment.1 % 1000000 := rfl

theorem whole_wholeSeconds (moment : Datetime) : Whole (wholeSeconds moment) := by
  rw [Whole, wholeSeconds_val]
  omega

theorem wholeSeconds_le (moment : Datetime) : wholeSeconds moment ≤ moment :=
  Fin.mk_le_of_le_val (Nat.sub_le ..)

theorem wholeSeconds_eq {moment : Datetime} (h : Whole moment) : wholeSeconds moment = moment := by
  refine Fin.ext ?_
  rw [wholeSeconds_val, h, Nat.sub_zero]

theorem search_sound {rec : Recurrence} {zone : Zone} {start left offset : ℕ} {after t : Datetime}
    (h : Schedule.search rec zone start after left offset = .ok t) :
    after < t ∧ ∃ day, (t.1 : ℤ) = rec.instant zone day := by
  induction left generalizing offset with
  | zero => cases h
  | succ left ih =>
    rw [Schedule.search] at h
    obtain ⟨day, -, h⟩ := bind_eq_ok.1 h
    split at h
    · obtain ⟨candidate, hcandidate, h⟩ := bind_eq_ok.1 h
      split at h
      · rename_i hlater
        cases h
        refine ⟨hlater, day, ?_⟩
        rw [toDatetime] at hcandidate
        split at hcandidate
        · rename_i hpos
          cases hof : Datetime.of? (rec.instant zone day).toNat with
          | none =>
            rw [hof] at hcandidate
            cases hcandidate
          | some t' =>
            rw [hof] at hcandidate
            cases hcandidate
            rw [of?_eq_some.1 hof]
            exact Int.toNat_of_nonneg hpos
        · cases hcandidate
      · exact ih h
    · exact ih h

theorem nextOccurrence_sound {rec : Recurrence} {zone : Zone} {after t : Datetime}
    (hzone : WholeSeconds zone) (h : nextOccurrence rec zone after = .ok t) : after < t ∧ Whole t := by
  obtain ⟨here, -, h⟩ := bind_eq_ok.1 h
  obtain ⟨start, -, h⟩ := bind_eq_ok.1 h
  obtain ⟨hlater, day, hday⟩ := search_sound h
  refine ⟨hlater, ?_⟩
  obtain ⟨t', heq, -⟩ := zone.wallOffset_eq (day * dayMicros + rec.wall)
  have hwhole := hzone t'
  have hmicros : (dayMicros : ℤ) = 86400000000 := rfl
  rw [Recurrence.instant, heq, Recurrence.wall, hmicros] at hday
  rw [Whole]
  omega

/-- A run that is the first of the recurrence after a moment that no run was queued after. -/
structure RowPlanned (zones : String → Option Zone) (runs : List ReportRun) (id : ℕ)
    (row : ReportSchedule) (d : Datetime) : Prop where
  first : ∃ recurrence zone after, row.recurrence = some recurrence ∧
    zones row.timeZone = some zone ∧ nextOccurrence recurrence zone after = .ok d ∧
    ∀ run ∈ runs, run.scheduleId = id → run.createdAt ≤ after

/-- What a schedule makes of its runs: they were queued before its next run, which is planned if and
only if the schedule is active. -/
structure RowKept (strict : Prop) (zones : String → Option Zone) (runs : List ReportRun) (id : ℕ)
    (row : ReportSchedule) : Prop where
  active : row.active = true ↔ row.nextRunAt.isSome = true
  whole : ∀ d, row.nextRunAt = some d → Whole d
  later : ∀ d, row.nextRunAt = some d → ∀ run ∈ runs, run.scheduleId = id → run.createdAt < d
  planned : strict → ∀ d, row.nextRunAt = some d → RowPlanned zones runs id row d

/-- What was read of a schedule holds until its version grows. -/
structure ReadKept (s : SchedulerState) (id : ℕ) (read : ReportSchedule) : Prop where
  known : id < s.schedules.length
  active : read.active = true ↔ read.nextRunAt.isSome = true
  version : ∀ row, s.schedule id = some row → read.version ≤ row.version ∧
    (read.version = row.version → read.recurrence = row.recurrence ∧ read.timeZone = row.timeZone)

def TaskKept (s : SchedulerState) : SchedulerTask → Prop
  | .idle => True
  | .ticking stamp rows _ => stamp ≤ s.clock ∧ Whole stamp ∧ ∀ entry ∈ rows, entry.2 ≤ stamp
  | .processing stamp id due read rows _ =>
    stamp ≤ s.clock ∧ Whole stamp ∧ (∀ entry ∈ rows, entry.2 ≤ stamp) ∧ due ≤ stamp ∧ ReadKept s id read
  | .updating _ now _ => now ≤ s.clock
  | .saving id now read body => now ≤ s.clock ∧ body.version = read.version ∧ ReadKept s id read
  | .failing _ _ read _ => ∀ row, read = some row → (row.active = true ↔ row.nextRunAt.isSome = true)

/-- What a run is due to, and the job that delivers it. -/
structure RunKept (s : SchedulerState) (run : ReportRun) : Prop where
  due : run.dueAt ≤ run.createdAt
  created : run.createdAt ≤ s.clock
  known : run.scheduleId < s.schedules.length
  fresh : run.id < s.nextRunId
  job : ∃ job, s.jobs[run.jobId]? = some job ∧ job.runId = run.id

/-- The invariant; strictly, when no tick uses a schedule that was saved since it was loaded. -/
structure Kept (strict : Prop) (zones : String → Option Zone) (s : SchedulerState) : Prop where
  rows : ∀ id row, s.schedule id = some row → RowKept strict zones s.runs id row
  runs : ∀ run ∈ s.runs, RunKept s run
  apart : s.runs.Pairwise fun a b ↦ a.scheduleId = b.scheduleId → a.createdAt < b.dueAt
  jobs : s.jobs.Pairwise fun a b ↦ a.runId < b.runId
  fresh : ∀ job ∈ s.jobs, job.runId < s.nextRunId
  tasks : ∀ p, TaskKept s (s.task p)

namespace SchedulerState

variable {s t : SchedulerState} {id i : ℕ} {row row' : ReportSchedule}

theorem schedule_eq_some : s.schedule id = some row ↔ s.schedules[id]? = some (some row) := by
  rw [schedule, Option.join_eq_some_iff]

theorem schedule_put_self (h : s.schedule id = some row) (row' : ReportSchedule) :
    (s.put id row').schedule id = some row' := by
  have hid := (List.getElem?_eq_some_iff.1 (schedule_eq_some.1 h)).1
  simp [schedule_eq_some, put, hid]

theorem schedule_put_of_ne (h : i ≠ id) (row' : ReportSchedule) :
    (s.put id row').schedule i = s.schedule i := by
  simp [schedule, put, List.getElem?_set_ne h.symm]

theorem dueRow_eq_some {due : Datetime} :
    s.dueRow id due = some row ↔ s.schedule id = some row ∧ row.nextRunAt = some due ∧ row.active := by
  simp [dueRow]

end SchedulerState

variable {s t : SchedulerState} {id : ℕ} {row row' : ReportSchedule}

theorem ReadKept.put {i : ℕ} {read : ReportSchedule} (h : ReadKept s i read)
    (hrow : s.schedule id = some row) (hversion : row.version ≤ row'.version)
    (hsame : row.version = row'.version →
      row.recurrence = row'.recurrence ∧ row.timeZone = row'.timeZone) :
    ReadKept (s.put id row') i read := by
  refine ⟨h.known.trans_eq (List.length_set ..).symm, h.active, fun r hr ↦ ?_⟩
  by_cases hi : i = id
  · subst hi
    rw [SchedulerState.schedule_put_self hrow] at hr
    cases hr
    obtain ⟨hle, hread⟩ := h.version row hrow
    refine ⟨hle.trans hversion, fun heq ↦ ?_⟩
    obtain ⟨hrec, hzone⟩ := hread (by omega)
    obtain ⟨hrec', hzone'⟩ := hsame (by omega)
    exact ⟨hrec.trans hrec', hzone.trans hzone'⟩
  · rw [SchedulerState.schedule_put_of_ne hi] at hr
    exact h.version r hr

theorem TaskKept.mono {task : SchedulerTask} (h : TaskKept s task) (hclock : s.clock ≤ t.clock)
    (hread : ∀ i read, ReadKept s i read → ReadKept t i read) : TaskKept t task := by
  cases task with
  | idle => trivial
  | ticking stamp rows out => exact ⟨h.1.trans hclock, h.2⟩
  | processing stamp id due read rows out =>
    obtain ⟨hstamp, hwhole, hrows, hdue, hr⟩ := h
    exact ⟨hstamp.trans hclock, hwhole, hrows, hdue, hread id read hr⟩
  | updating id now body => exact le_trans h hclock
  | saving id now read body =>
    obtain ⟨hnow, hbody, hr⟩ := h
    exact ⟨hnow.trans hclock, hbody, hread id read hr⟩
  | failing run now read reason => exact h

theorem RunKept.mono {run : ReportRun} (h : RunKept s run) (hclock : s.clock ≤ t.clock)
    (hlength : s.schedules.length ≤ t.schedules.length) (hnext : s.nextRunId ≤ t.nextRunId)
    (hjobs : ∀ (j : ℕ) (job : DeliveryJob), s.jobs[j]? = some job →
      ∃ job' : DeliveryJob, t.jobs[j]? = some job' ∧ job'.runId = job.runId) : RunKept t run := by
  obtain ⟨job, hjob, hrun⟩ := h.job
  obtain ⟨job', hjob', heq⟩ := hjobs run.jobId job hjob
  exact ⟨h.due, h.created.trans hclock, h.known.trans_le hlength, h.fresh.trans_le hnext, job', hjob',
    heq.trans hrun⟩

variable {strict : Prop} {zones : String → Option Zone}

namespace Kept

theorem turn (hs : Kept strict zones s) (p : ℕ) {task : SchedulerTask} (h : TaskKept s task) :
    Kept strict zones (s.turn p task) where
  rows := hs.rows
  runs run hrun := (hs.runs run hrun).mono le_rfl le_rfl le_rfl fun _ job hj ↦ ⟨job, hj, rfl⟩
  apart := hs.apart
  jobs := hs.jobs
  fresh := hs.fresh
  tasks q := by
    have hread : ∀ i read, ReadKept s i read → ReadKept (s.turn p task) i read :=
      fun _ _ hr ↦ ⟨hr.known, hr.active, hr.version⟩
    by_cases hq : q = p
    · subst hq
      simpa [SchedulerState.turn] using h.mono (t := s.turn q task) le_rfl hread
    · simpa [SchedulerState.turn, hq] using (hs.tasks q).mono (t := s.turn p task) le_rfl hread

/-- A schedule is written anew. -/
theorem put (hs : Kept strict zones s) (hrow : s.schedule id = some row)
    (h : RowKept strict zones s.runs id row')
    (hversion : row.version ≤ row'.version)
    (hsame : row.version = row'.version →
      row.recurrence = row'.recurrence ∧ row.timeZone = row'.timeZone) :
    Kept strict zones (s.put id row') where
  rows i r hr := by
    by_cases hi : i = id
    · subst hi
      rw [SchedulerState.schedule_put_self hrow] at hr
      cases hr
      exact h
    · rw [SchedulerState.schedule_put_of_ne hi] at hr
      exact hs.rows i r hr
  runs run hrun := (hs.runs run hrun).mono le_rfl (List.length_set ..).ge le_rfl
    fun _ job hj ↦ ⟨job, hj, rfl⟩
  apart := hs.apart
  jobs := hs.jobs
  fresh := hs.fresh
  tasks p := (hs.tasks p).mono le_rfl fun _ _ hr ↦ hr.put hrow hversion hsame

/-- Runs are ended or go, and nothing else. -/
theorem runs_sublist (hs : Kept strict zones s) {runs : List ReportRun} (f : ReportRun → ReportRun)
    (h : runs.Sublist (s.runs.map f))
    (hf : ∀ run, (f run).id = run.id ∧ (f run).scheduleId = run.scheduleId ∧
      (f run).dueAt = run.dueAt ∧ (f run).createdAt = run.createdAt ∧ (f run).jobId = run.jobId) :
    Kept strict zones { s with runs := runs } := by
  have hmem : ∀ run ∈ runs, ∃ run' ∈ s.runs, f run' = run := fun run hrun ↦
    List.mem_map.1 (h.subset hrun)
  refine ⟨fun i row hrow ↦ ?_, fun run hrun ↦ ?_, ?_, hs.jobs, hs.fresh, fun p ↦ ?_⟩
  · obtain ⟨hactive, hwhole, hlater, hplanned⟩ := hs.rows i row hrow
    have hall (P : Datetime → Prop) (h : ∀ run ∈ s.runs, run.scheduleId = i → P run.createdAt) :
        ∀ run ∈ runs, run.scheduleId = i → P run.createdAt := by
      intro run hrun hid
      obtain ⟨run', hrun', rfl⟩ := hmem run hrun
      obtain ⟨-, hschedule, -, hcreated, -⟩ := hf run'
      rw [hcreated]
      exact h run' hrun' (hschedule.symm.trans hid)
    refine ⟨hactive, hwhole, fun d hd ↦ hall (· < d) (hlater d hd), fun hstrict d hd ↦ ?_⟩
    obtain ⟨recurrence, zone, after, hrec, hzone, hnext, hafter⟩ := (hplanned hstrict d hd).first
    exact ⟨recurrence, zone, after, hrec, hzone, hnext, hall (· ≤ after) hafter⟩
  · obtain ⟨run', hrun', rfl⟩ := hmem run hrun
    obtain ⟨hid, hschedule, hdue, hcreated, hjob⟩ := hf run'
    have hr := hs.runs run' hrun'
    refine ⟨?_, ?_, ?_, ?_, ?_⟩
    · rw [hdue, hcreated]
      exact hr.due
    · rw [hcreated]
      exact hr.created
    · rw [hschedule]
      exact hr.known
    · rw [hid]
      exact hr.fresh
    · rw [hjob, hid]
      exact hr.job
  · refine List.Pairwise.sublist h (List.pairwise_map.2 (hs.apart.imp fun {a b} hab ↦ ?_))
    obtain ⟨-, ha, -, hcreated, -⟩ := hf a
    obtain ⟨-, hb, hdue, -, -⟩ := hf b
    rw [ha, hb, hcreated, hdue]
    exact hab
  · exact (hs.tasks p).mono le_rfl fun _ _ hr ↦ ⟨hr.known, hr.active, hr.version⟩

theorem endRun (hs : Kept strict zones s) (run : ℕ) (now : Datetime) :
    Kept strict zones (s.endRun run now) := by
  refine hs.runs_sublist _ (.refl _) fun r ↦ ?_
  split <;> exact ⟨rfl, rfl, rfl, rfl, rfl⟩

theorem purge (hs : Kept strict zones s) (keeps : ReportRun → Bool) :
    Kept strict zones { s with runs := s.runs.filter keeps } := by
  refine hs.runs_sublist id ?_ fun _ ↦ ⟨rfl, rfl, rfl, rfl, rfl⟩
  rw [List.map_id]
  exact List.filter_sublist

theorem wait (hs : Kept strict zones s) {moment : Datetime} (h : s.clock ≤ moment) :
    Kept strict zones { s with clock := moment } where
  rows := hs.rows
  runs run hrun := (hs.runs run hrun).mono h le_rfl le_rfl fun _ job hj ↦ ⟨job, hj, rfl⟩
  apart := hs.apart
  jobs := hs.jobs
  fresh := hs.fresh
  tasks p := (hs.tasks p).mono h fun _ _ hr ↦ ⟨hr.known, hr.active, hr.version⟩

theorem settleJob (hs : Kept strict zones s) (j : ℕ) :
    Kept strict zones { s with jobs := s.jobs.modify j fun job ↦ { job with active := false } } := by
  have hjobs (i : ℕ) (job : DeliveryJob) (hi : s.jobs[i]? = some job) : ∃ job' : DeliveryJob,
      (s.jobs.modify j fun job ↦ { job with active := false })[i]? = some job' ∧
        job'.runId = job.runId := by
    simp only [List.getElem?_modify, hi]
    split
    · exact ⟨_, rfl, rfl⟩
    · exact ⟨job, rfl, rfl⟩
  have hids : (s.jobs.modify j fun job ↦ { job with active := false }).map (·.runId) =
      s.jobs.map (·.runId) := by
    refine List.ext_getElem? fun i ↦ ?_
    simp only [List.getElem?_map, List.getElem?_modify]
    cases s.jobs[i]? with
    | none => split <;> rfl
    | some job => split <;> rfl
  refine ⟨hs.rows, fun run hrun ↦ (hs.runs run hrun).mono le_rfl le_rfl le_rfl hjobs, hs.apart, ?_,
    fun job hjob ↦ ?_, fun p ↦ (hs.tasks p).mono le_rfl fun _ _ hr ↦ ⟨hr.known, hr.active, hr.version⟩⟩
  · have hpairwise := List.pairwise_map.2 hs.jobs
    rw [← hids] at hpairwise
    exact List.pairwise_map.1 hpairwise
  · have hmem := List.mem_map_of_mem (f := (·.runId)) hjob
    rw [hids] at hmem
    obtain ⟨job', hjob', heq⟩ := List.mem_map.1 hmem
    exact heq ▸ hs.fresh job' hjob'

theorem deleteSchedule (hs : Kept strict zones s) (id : ℕ) :
    Kept strict zones { s with schedules := s.schedules.set id none } := by
  have hschedule {i : ℕ} {row : ReportSchedule}
      (h : (s.schedules.set id none)[i]?.join = some row) : s.schedule i = some row := by
    rw [Option.join_eq_some_iff, List.getElem?_set] at h
    rw [SchedulerState.schedule_eq_some]
    split at h
    · split at h <;> cases h
    · exact h
  refine ⟨fun i row hrow ↦ hs.rows i row (hschedule hrow), fun run hrun ↦ ?_, hs.apart, hs.jobs,
    hs.fresh, fun p ↦ ?_⟩
  · exact (hs.runs run hrun).mono le_rfl (List.length_set ..).ge le_rfl fun _ job hj ↦ ⟨job, hj, rfl⟩
  · refine (hs.tasks p).mono le_rfl fun i read hr ↦ ⟨?_, hr.active, fun row hrow ↦ ?_⟩
    · exact hr.known.trans_eq (List.length_set ..).symm
    · exact hr.version row (hschedule hrow)

/-- A schedule that nothing has run for yet. -/
theorem createSchedule (hs : Kept strict zones s) (h : ∀ runs : List ReportRun,
    (∀ run ∈ runs, run.scheduleId ≠ s.schedules.length) →
      RowKept strict zones runs s.schedules.length row) :
    Kept strict zones { s with schedules := s.schedules ++ [some row] } := by
  have hnew : ∀ run ∈ s.runs, run.scheduleId ≠ s.schedules.length :=
    fun run hrun ↦ (hs.runs run hrun).known.ne
  have hschedule {i : ℕ} {r : ReportSchedule}
      (hr : (s.schedules ++ [some row])[i]?.join = some r) :
      s.schedule i = some r ∨ i = s.schedules.length ∧ r = row := by
    rw [Option.join_eq_some_iff, List.getElem?_append] at hr
    split at hr
    · exact .inl (SchedulerState.schedule_eq_some.2 hr)
    · rw [List.getElem?_singleton] at hr
      split at hr
      · cases hr
        exact .inr ⟨by omega, rfl⟩
      · cases hr
  refine ⟨fun i r hr ↦ ?_, fun run hrun ↦ ?_, hs.apart, hs.jobs, hs.fresh, fun p ↦ ?_⟩
  · rcases hschedule hr with hr | ⟨rfl, rfl⟩
    · exact hs.rows i r hr
    · exact h s.runs hnew
  · refine (hs.runs run hrun).mono le_rfl ?_ le_rfl fun _ job hj ↦ ⟨job, hj, rfl⟩
    simp
  · refine (hs.tasks p).mono le_rfl fun i read hr ↦ ⟨?_, hr.active, fun r hrow ↦ ?_⟩
    · exact hr.known.trans_le (by simp)
    · rcases hschedule hrow with hrow | ⟨heq, -⟩
      · exact hr.version r hrow
      · exact absurd heq hr.known.ne

theorem pauseBroken (hs : Kept strict zones s) (id : ℕ) (due : Datetime) (why : String) :
    Kept strict zones (s.pauseBroken id due why).1 := by
  rw [SchedulerState.pauseBroken]
  split
  · rename_i row hdue
    obtain ⟨hrow, -, -⟩ := SchedulerState.dueRow_eq_some.1 hdue
    refine hs.put hrow ⟨?_, nofun, nofun, nofun⟩ le_rfl fun _ ↦ ⟨rfl, rfl⟩
    exact ⟨nofun, nofun⟩
  · exact hs

/-- The run that is queued was due before the next one, and after all that were queued before. -/
theorem enqueue (hs : Kept strict zones s) {due stamp next : Datetime} (hdue : due ≤ stamp)
    (hstamp : stamp ≤ s.clock) (hnext : stamp < next) (hwhole : Whole next)
    (hplan : strict → ∀ row, s.schedule id = some row → ∃ recurrence zone after,
      row.recurrence = some recurrence ∧ zones row.timeZone = some zone ∧
        nextOccurrence recurrence zone after = .ok next ∧ stamp ≤ after) :
    Kept strict zones (s.enqueue id due stamp next).1 := by
  rw [SchedulerState.enqueue]
  split
  · rename_i row hrow
    obtain ⟨hrow, hat, hactive⟩ := SchedulerState.dueRow_eq_some.1 hrow
    split
    · exact hs
    have hbefore : ∀ run ∈ s.runs, run.scheduleId = id → run.createdAt < due :=
      (hs.rows id row hrow).later due hat
    refine ⟨fun i r hr ↦ ?_, fun run hrun ↦ ?_, ?_, ?_, fun job hjob ↦ ?_, fun p ↦ ?_⟩
    · have hr' : (s.put id { row with nextRunAt := some next }).schedule i = some r := hr
      by_cases hi : i = id
      · subst hi
        rw [SchedulerState.schedule_put_self hrow] at hr'
        cases hr'
        have hqueued : ∀ run ∈ s.runs ++ [⟨s.nextRunId, i, due, stamp, none, s.jobs.length⟩],
            run.scheduleId = i → run.createdAt ≤ stamp := by
          intro run hrun hid
          rcases List.mem_append.1 hrun with hrun | hrun
          · exact (hbefore run hrun hid).le.trans hdue
          · obtain rfl := List.mem_singleton.1 hrun
            exact le_rfl
        refine ⟨by simp [hactive], fun d hd ↦ ?_, fun d hd run hrun hid ↦ ?_, fun hstrict d hd ↦ ?_⟩
        · cases hd
          exact hwhole
        · cases hd
          exact (hqueued run hrun hid).trans_lt hnext
        · cases hd
          obtain ⟨recurrence, zone, after, hrec, hzone, hfirst, hle⟩ := hplan hstrict row hrow
          exact ⟨recurrence, zone, after, hrec, hzone, hfirst, fun run hrun hid ↦
            (hqueued run hrun hid).trans hle⟩
      · rw [SchedulerState.schedule_put_of_ne hi] at hr'
        obtain ⟨hactive', hwhole', hlater, hplanned⟩ := hs.rows i r hr'
        have hall {P : ReportRun → Prop} (h : ∀ run ∈ s.runs, run.scheduleId = i → P run) :
            ∀ run ∈ s.runs ++ [⟨s.nextRunId, id, due, stamp, none, s.jobs.length⟩],
              run.scheduleId = i → P run := by
          intro run hrun hid
          rcases List.mem_append.1 hrun with hrun | hrun
          · exact h run hrun hid
          · obtain rfl := List.mem_singleton.1 hrun
            exact absurd hid.symm hi
        refine ⟨hactive', hwhole', fun d hd ↦ hall (hlater d hd), fun hstrict d hd ↦ ?_⟩
        obtain ⟨recurrence, zone, after, hrec, hzone, hfirst, hafter⟩ := (hplanned hstrict d hd).first
        exact ⟨recurrence, zone, after, hrec, hzone, hfirst, hall hafter⟩
    · rcases List.mem_append.1 hrun with hrun | hrun
      · refine (hs.runs run hrun).mono le_rfl (List.length_set ..).ge (Nat.le_succ _) fun j job hj ↦ ?_
        exact ⟨job, (List.getElem?_append_left (List.getElem?_eq_some_iff.1 hj).1).trans hj, rfl⟩
      · obtain rfl := List.mem_singleton.1 hrun
        have hid := (List.getElem?_eq_some_iff.1 (SchedulerState.schedule_eq_some.1 hrow)).1
        exact ⟨hdue, hstamp, hid.trans_eq (List.length_set ..).symm, Nat.lt_succ_self _,
          ⟨s.nextRunId, dedupeKey id due, true⟩, List.getElem?_concat_length .., rfl⟩
    · refine List.pairwise_append.2 ⟨hs.apart, List.pairwise_singleton .., fun a ha b hb hab ↦ ?_⟩
      obtain rfl := List.mem_singleton.1 hb
      exact hbefore a ha hab
    · refine List.pairwise_append.2 ⟨hs.jobs, List.pairwise_singleton .., fun a ha b hb ↦ ?_⟩
      obtain rfl := List.mem_singleton.1 hb
      exact hs.fresh a ha
    · rcases List.mem_append.1 hjob with hjob | hjob
      · exact (hs.fresh job hjob).trans (Nat.lt_succ_self _)
      · obtain rfl := List.mem_singleton.1 hjob
        exact Nat.lt_succ_self _
    · refine (hs.tasks p).mono le_rfl fun i read hr ↦ ?_
      have hput : ReadKept (s.put id { row with nextRunAt := some next }) i read :=
        hr.put hrow le_rfl fun _ ↦ ⟨rfl, rfl⟩
      exact ⟨hput.known, hput.active, hput.version⟩
  · exact hs

theorem process (hs : Kept strict zones s)
    (hzones : ∀ name zone, zones name = some zone → WholeSeconds zone)
    {due stamp : Datetime} (hdue : due ≤ stamp) (hstamp : stamp ≤ s.clock) {read : ReportSchedule}
    (hread : ReadKept s id read)
    (hcurrent : strict → ∀ row, s.schedule id = some row → read.version = row.version) :
    Kept strict zones (s.process zones stamp id due read).1 := by
  rw [SchedulerState.process]
  split
  · exact hs.pauseBroken id due _
  · rename_i recurrence hrec
    split
    · exact hs.pauseBroken id due _
    · rename_i zone hzone
      split
      · exact hs.pauseBroken id due _
      · exact hs
      · rename_i next hnext
        obtain ⟨hlater, hwhole⟩ := nextOccurrence_sound (hzones _ zone hzone) hnext
        rw [wholeSeconds_eq hwhole]
        refine hs.enqueue hdue hstamp ((le_max_left ..).trans_lt hlater) hwhole fun hstrict row hrow ↦ ?_
        obtain ⟨hsame, hsame'⟩ := (hread.version row hrow).2 (hcurrent hstrict row hrow)
        exact ⟨recurrence, zone, max stamp due, hsame ▸ hrec, hsame' ▸ hzone, hnext, le_max_left ..⟩

end Kept

section Saves

variable {now : Datetime} {next : Option Datetime}

/-- What a plan gives: a run after now, if and only if the schedule is active. -/
structure Planned (zones : String → Option Zone) (recurrence : Recurrence) (timeZone : String)
    (active : Bool) (now : Datetime) (next : Option Datetime) : Prop where
  active : active = true ↔ next.isSome = true
  run : ∀ d, next = some d → now < d ∧ Whole d ∧
    ∃ zone, zones timeZone = some zone ∧ nextOccurrence recurrence zone now = .ok d

theorem nextRun_planned (hzones : ∀ name zone, zones name = some zone → WholeSeconds zone)
    {recurrence : Recurrence} {timeZone : String} {active : Bool}
    (h : nextRun zones recurrence timeZone active now = some next) :
    Planned zones recurrence timeZone active now next := by
  cases active with
  | false =>
    cases h
    exact ⟨⟨nofun, nofun⟩, nofun⟩
  | true =>
    obtain ⟨zone, hzone, h⟩ := Option.bind_eq_some_iff.1 h
    cases hnext : nextOccurrence recurrence zone now with
    | error e =>
      rw [hnext] at h
      cases h
    | ok d =>
      rw [hnext] at h
      cases h
      refine ⟨⟨fun _ ↦ rfl, fun _ ↦ rfl⟩, fun d' hd ↦ ?_⟩
      cases hd
      obtain ⟨hlater, hwhole⟩ := nextOccurrence_sound (hzones _ zone hzone) hnext
      exact ⟨hlater, hwhole, zone, hzone, hnext⟩

/-- A save plans anew, or keeps the plan that it read. -/
theorem nextRunAt_eq_some (hzones : ∀ name zone, zones name = some zone → WholeSeconds zone)
    {body : ReportScheduleUpdateIn} {read : ReportSchedule}
    (h : body.nextRunAt zones read now = some next) :
    Planned zones body.recurrence body.timeZone body.active now next ∨
      read.recurrence.map (·.toFields) = some body.recurrence.toFields ∧
        read.timeZone = body.timeZone ∧ read.active = body.active ∧ next = read.nextRunAt := by
  rw [ReportScheduleUpdateIn.nextRunAt] at h
  split at h
  · exact .inl (nextRun_planned hzones h)
  · rename_i hsame
    cases h
    simp only [not_or, ne_eq, not_not] at hsame
    exact .inr ⟨hsame.1, hsame.2.1, hsame.2.2.1, rfl⟩

theorem recurrence_eq {a b : Recurrence} (h : a.toFields = b.toFields) : a = b := by
  cases a
  cases b
  cases h
  rfl

/-- A save that finds the schedule as planned when it read it, and no run queued since it began. -/
structure Undisturbed (s : SchedulerState) (id : ℕ) (now : Datetime) (read row : ReportSchedule) :
    Prop where
  nextRunAt : row.nextRunAt = read.nextRunAt
  runs : ∀ run ∈ s.runs, run.scheduleId = id → run.createdAt ≤ now

theorem Kept.save (hs : Kept strict zones s)
    (hzones : ∀ name zone, zones name = some zone → WholeSeconds zone)
    {body : ReportScheduleUpdateIn} {read : ReportSchedule} (hrow : s.schedule id = some row)
    (hversion : read.version = row.version) (hread : ReadKept s id read)
    (h : Undisturbed s id now read row)
    (hnext : body.nextRunAt zones read now = some next) :
    Kept strict zones (s.put id (row.update body next)) := by
  have hold := hs.rows id row hrow
  refine hs.put hrow ?_ (Nat.le_succ _) fun heq ↦ absurd heq (Nat.ne_of_lt (Nat.lt_succ_self _))
  rcases nextRunAt_eq_some hzones hnext with hplanned | ⟨hrec, hzone, hactive, rfl⟩
  · refine ⟨hplanned.active, fun d hd ↦ (hplanned.run d hd).2.1, fun d hd run hrun hid ↦
      (h.runs run hrun hid).trans_lt (hplanned.run d hd).1, fun _ d hd ↦ ?_⟩
    obtain ⟨-, -, zone, hzone, hfirst⟩ := hplanned.run d hd
    exact ⟨body.recurrence, zone, now, rfl, hzone, hfirst, h.runs⟩
  · refine ⟨?_, fun d hd ↦ hold.whole d (h.nextRunAt.trans hd), fun d hd ↦
      hold.later d (h.nextRunAt.trans hd), fun hstrict d hd ↦ ?_⟩
    · change body.active = true ↔ _
      rw [← hactive]
      exact hread.active
    · obtain ⟨recurrence, zone, after, hrec', hzone', hfirst, hafter⟩ :=
        (hold.planned hstrict d (h.nextRunAt.trans hd)).first
      obtain ⟨hsame, hsame'⟩ := (hread.version row hrow).2 hversion
      have hbody : body.recurrence = recurrence := by
        rw [hsame, hrec'] at hrec
        exact (recurrence_eq (Option.some.inj hrec)).symm
      refine ⟨recurrence, zone, after, congrArg some hbody, ?_, hfirst, hafter⟩
      change zones body.timeZone = some zone
      rw [← hzone, hsame', hzone']

theorem Kept.fail (hs : Kept strict zones s) {read : ReportSchedule} (hrow : s.schedule id = some row)
    (hread : read.active = true ↔ read.nextRunAt.isSome = true) (reason : String) :
    Kept strict zones (s.put id (row.fail read now reason)) := by
  have hold := hs.rows id row hrow
  have hversion : (row.fail read now reason).version = row.version := by
    rw [ReportSchedule.fail]
    split <;> rfl
  have hsame : (row.fail read now reason).recurrence = row.recurrence ∧
      (row.fail read now reason).timeZone = row.timeZone := by
    rw [ReportSchedule.fail]
    split <;> exact ⟨rfl, rfl⟩
  refine hs.put hrow ?_ hversion.ge fun _ ↦ ⟨hsame.1.symm, hsame.2.symm⟩
  rw [ReportSchedule.fail]
  split
  · rename_i hpause
    have hnext : read.nextRunAt ≠ none := by
      rw [← Option.isSome_iff_ne_none]
      exact hread.1 hpause.2
    have hwritten : written row.nextRunAt read.nextRunAt none = none := if_neg hnext
    have hactive : written row.active read.active false = false := by
      rw [hpause.2]
      rfl
    refine ⟨?_, fun d hd ↦ ?_, fun d hd ↦ ?_, fun _ d hd ↦ ?_⟩
    · change written row.active read.active false = true ↔ _
      rw [hactive, hwritten]
      exact ⟨nofun, nofun⟩
    · exact absurd (hwritten.symm.trans hd) nofun
    · exact absurd (hwritten.symm.trans hd) nofun
    · exact absurd (hwritten.symm.trans hd) nofun
  · refine ⟨hold.active, hold.whole, hold.later, fun hstrict d hd ↦ ?_⟩
    exact ⟨(hold.planned hstrict d hd).first⟩

end Saves

end Tiqora.Reporting.Scheduler
