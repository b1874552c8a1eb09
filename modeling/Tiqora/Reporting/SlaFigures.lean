import Tiqora.Reporting.Facts
import Tiqora.Znuny.WorkingSeconds

namespace Tiqora.Reporting.HistoryEvents

open Foundation Znuny

variable {inputs : FactInputs}

/-- The calendar counts hours of a day only, and its zone keeps its offset within a day of 24
hours. -/
structure FactInputs.Measurable (inputs : FactInputs) : Prop where
  hours : inputs.calendar.HoursOfDay
  days : inputs.calendarZone.SteadyDays
  working : inputs.calendar.anyHours = true

/-- No article and no close or reopen before the creation. -/
structure FactInputs.AfterCreation (inputs : FactInputs) : Prop where
  articles : ∀ a ∈ inputs.articles, inputs.ticket.createTime ≤ a.createTime
  changes : ∀ e ∈ inputs.events, e.isChange = true → inputs.ticket.createTime ≤ e.occurredAt

/-- The working seconds between two stored times. -/
def FactInputs.workingTime (inputs : FactInputs) (start stop : ℤ) : ℤ :=
  workingSeconds inputs.calendar inputs.calendarZone (inputs.toEpoch start) (inputs.toEpoch stop)

theorem workingTime_add (inputs : FactInputs) {start middle stop : ℤ} (h : start ≤ middle) (h' : middle ≤ stop) :
    inputs.workingTime start middle + inputs.workingTime middle stop =
      inputs.workingTime start stop :=
  workingSeconds_add _ _ (Int.sub_le_sub_right h _) (Int.sub_le_sub_right h' _)

theorem workingTime_nonneg (inputs : FactInputs) (start stop : ℤ) : 0 ≤ inputs.workingTime start stop :=
  Int.natCast_nonneg _

theorem workingTime_of_ge {start stop : ℤ} (h : stop ≤ start) : inputs.workingTime start stop = 0 :=
  workingSeconds_of_ge (Int.sub_le_sub_right h _)

theorem span_eq (hm : inputs.Measurable) {start stop : ℤ} {span : FactInputs.Span}
    (h : inputs.span start stop = some span) :
    span.working = some span.effective ∧
      span.effective = inputs.workingTime start (max stop start) / 60 := by
  rw [FactInputs.span, FactInputs.workingMinutes, if_pos hm.working, Option.map_map,
    Option.map_eq_some_iff] at h
  obtain ⟨seconds, hseconds, rfl⟩ := h
  refine ⟨rfl, ?_⟩
  have hcount := workingSecondsBetween_eq hm.hours hm.days hseconds
  simp only [Function.comp_apply, Option.getD_some, hcount]
  rfl

/-- The due time is the first at which the target lies behind. -/
theorem dueAt_spec (hm : inputs.Measurable) {start minutes due : ℤ} (hpos : 0 < minutes)
    (h : inputs.dueAt start minutes = some due) :
    start ≤ due ∧ inputs.workingTime start due = 60 * minutes := by
  rw [FactInputs.dueAt, if_pos hm.working, Option.map_eq_some_iff] at h
  obtain ⟨epoch, hepoch, rfl⟩ := h
  rw [destinationTimeEpoch, if_neg (by omega), if_pos hm.working] at hepoch
  have hreach := destinationLoop_reaches hm.hours hm.days (by omega) hepoch
  have hle := hreach.le
  have heq := hreach.eq
  rw [FactInputs.workingTime, FactInputs.fromEpoch, FactInputs.toEpoch, FactInputs.toEpoch,
    Int.add_sub_cancel]
  rw [FactInputs.toEpoch] at hle heq
  constructor
  · omega
  · rw [heq, Int.mul_comm]

/-- The judgement by truncated minutes agrees with the due time. -/
theorem judged (hm : inputs.Measurable) {stop target due : ℤ} {span : FactInputs.Span}
    (hstop : inputs.ticket.createTime ≤ stop) (hpos : 0 < target)
    (hspan : inputs.span inputs.ticket.createTime stop = some span)
    (hdue : inputs.dueAt inputs.ticket.createTime target = some due) :
    (target < span.effective → due < stop) ∧
      (¬target < span.effective → inputs.workingTime due stop < 60) := by
  obtain ⟨hle, htime⟩ := dueAt_spec hm hpos hdue
  have heffective := (span_eq hm hspan).2
  rw [Int.max_eq_left hstop] at heffective
  constructor
  · intro hlate
    by_contra hnot
    have hsum := workingTime_add inputs hstop (Int.not_lt.1 hnot)
    have := workingTime_nonneg inputs stop due
    omega
  · intro hin
    rcases Int.le_total stop due with hearly | hlate
    · rw [workingTime_of_ge hearly]
      decide
    · have hsum := workingTime_add inputs hle hlate
      omega

/-- What the open spans add lies in the working time from `low` to the last close. -/
theorem openSpans_le (hm : inputs.Measurable) {changes : List EventRow} {opened : Option ℤ}
    {total result low stop : ℤ} (h : inputs.openSpans opened total changes = some result)
    (hsorted : changes.Pairwise fun e e' ↦ e.occurredAt ≤ e'.occurredAt)
    (hlow : ∀ e ∈ changes, low ≤ e.occurredAt)
    (hopened : ∀ o ∈ opened, low ≤ o ∧ ∀ e ∈ changes, o ≤ e.occurredAt)
    (hstop : ∀ e ∈ changes, e.kind = .close → e.occurredAt ≤ stop) :
    60 * (result - total) ≤ inputs.workingTime low stop := by
  induction changes generalizing opened total low with
  | nil =>
    have := workingTime_nonneg inputs low stop
    cases opened <;> cases h <;> omega
  | cons e changes ih =>
    obtain ⟨hfirst, hrest⟩ := List.pairwise_cons.1 hsorted
    have hlow' := fun e' he' ↦ hlow e' (List.mem_cons_of_mem e he')
    have hstop' := fun e' he' ↦ hstop e' (List.mem_cons_of_mem e he')
    cases opened with
    | none =>
      rw [FactInputs.openSpans] at h
      split at h
      · refine ih h hrest hlow' ?_ hstop'
        intro o ho
        cases ho
        exact ⟨hlow e List.mem_cons_self, hfirst⟩
      · exact ih h hrest hlow' nofun hstop'
    | some o =>
      obtain ⟨hlo, hoe⟩ := hopened o rfl
      rw [FactInputs.openSpans] at h
      split at h
      · next hclose =>
        obtain ⟨span, hspan, hnext⟩ := Option.bind_eq_some_iff.1 h
        have hto : o ≤ e.occurredAt := hoe e List.mem_cons_self
        have heffective := (span_eq hm hspan).2
        rw [Int.max_eq_left hto, Int.max_eq_left hto] at heffective
        have hih := ih hnext hrest hfirst nofun hstop'
        have hopen := workingTime_add inputs hlo hto
        have hwhole := workingTime_add inputs (Int.le_trans hlo hto)
          (hstop e List.mem_cons_self hclose)
        have := workingTime_nonneg inputs low o
        omega
      · refine ih h hrest hlow' ?_ hstop'
        intro o' ho'
        cases ho'
        exact ⟨hlo, fun e' he' ↦ hoe e' (List.mem_cons_of_mem e he')⟩

theorem mem_changes {e : EventRow} :
    e ∈ inputs.changes ↔ e ∈ inputs.events ∧ e.isChange = true := by
  rw [FactInputs.changes, List.mem_mergeSort, List.mem_filter]

theorem changes_pairwise (inputs : FactInputs) :
    inputs.changes.Pairwise fun e e' ↦ e.occurredAt ≤ e'.occurredAt := by
  have hsorted : inputs.changes.Pairwise fun e e' ↦
      decide (toLex (e.occurredAt, e.historyId.getD 0) ≤ toLex (e'.occurredAt, e'.historyId.getD 0)) =
        true := by
    refine List.pairwise_mergeSort (fun a b c hab hbc ↦ ?_) (fun a b ↦ ?_) _
    · exact decide_eq_true (le_trans (of_decide_eq_true hab) (of_decide_eq_true hbc))
    · rw [Bool.or_eq_true, decide_eq_true_eq, decide_eq_true_eq]
      exact le_total _ _
  refine hsorted.imp fun h ↦ ?_
  rcases Prod.Lex.toLex_le_toLex.1 (of_decide_eq_true h) with hlt | ⟨heq, _⟩
  · exact Int.le_of_lt hlt
  · exact Int.le_of_eq heq

theorem mem_closeTimes {e : EventRow} (he : e ∈ inputs.changes) (hclose : e.kind = .close) :
    e.occurredAt ∈ inputs.closeTimes :=
  List.mem_map.2 ⟨e, List.mem_filter.2 ⟨(mem_changes.1 he).1, decide_eq_true hclose⟩, rfl⟩

theorem openSpanMinutes_le (hm : inputs.Measurable) (hafter : inputs.AfterCreation)
    (hcreated : FactInputs.createdClosed inputs.ticket.createTime inputs.changes = false)
    {solution : Option FactInputs.Span} {minutes : ℤ}
    (hsolution : inputs.spanTo inputs.closeTimes.max? = some solution)
    (h : inputs.openSpanMinutes = some (some minutes)) :
    ∃ working, solution.bind (·.working) = some working ∧ minutes ≤ working := by
  rw [FactInputs.openSpanMinutes, hcreated] at h
  split at h
  · next hclosed =>
    rw [Bool.false_and, if_neg Bool.false_ne_true, Option.map_eq_some_iff] at h
    obtain ⟨result, hspans, hresult⟩ := h
    cases hresult
    obtain ⟨e, he, hclose⟩ := List.any_eq_true.1 hclosed
    have hmem := mem_closeTimes he (of_decide_eq_true hclose)
    cases hmax : inputs.closeTimes.max? with
    | none =>
      rw [List.max?_eq_none_iff.1 hmax] at hmem
      exact absurd hmem List.not_mem_nil
    | some closed =>
      rw [hmax, FactInputs.spanTo, Option.map_eq_some_iff] at hsolution
      obtain ⟨span, hspan, rfl⟩ := hsolution
      obtain ⟨hworking, heffective⟩ := span_eq hm hspan
      have hlast := (List.max?_eq_some_iff.1 hmax).2
      have hlow : ∀ e ∈ inputs.changes, inputs.ticket.createTime ≤ e.occurredAt := fun e he ↦
        hafter.changes e (mem_changes.1 he).1 (mem_changes.1 he).2
      have hle := openSpans_le hm hspans (changes_pairwise inputs) hlow
        (fun o ho ↦ by cases ho; exact ⟨Int.le_refl _, hlow⟩)
        fun e he hclose ↦ hlast _ (mem_closeTimes he hclose)
      have hcreate : inputs.ticket.createTime ≤ closed :=
        Int.le_trans (hlow e he) (hlast _ hmem)
      rw [Int.max_eq_left hcreate] at heffective
      exact ⟨span.effective, hworking, by omega⟩
  · cases h

theorem targetOf_pos {minutes target : ℤ} (h : targetOf minutes = some target) : 0 < target := by
  rw [targetOf] at h
  split at h
  · cases h
    assumption
  · cases h

theorem firstResponse_after (hafter : inputs.AfterCreation) {response : ℤ}
    (h : inputs.responses.head?.map (·.createTime) = some response) :
    inputs.ticket.createTime ≤ response := by
  obtain ⟨a, ha, rfl⟩ := Option.map_eq_some_iff.1 h
  have hmem := (List.mem_filter.1 (List.mem_of_mem_head? ha)).1
  exact hafter.articles a (List.mem_mergeSort.1 hmem)

theorem close_after (hafter : inputs.AfterCreation) {closed : ℤ} (h : closed ∈ inputs.closeTimes) :
    inputs.ticket.createTime ≤ closed := by
  obtain ⟨e, he, rfl⟩ := List.mem_map.1 h
  obtain ⟨hmem, hclose⟩ := List.mem_filter.1 he
  refine hafter.changes e hmem ?_
  rw [EventRow.isChange, hclose, Bool.true_or]

/-- A judgement agrees with the due time: late ones come after it, the others within the minute that
the truncation hides. -/
def AgreesWithDue (inputs : FactInputs) (breached : Bool) (due : Option ℤ) (stop : ℤ) : Prop :=
  ∃ d, due = some d ∧ (breached = true → d < stop) ∧
    (breached = false → inputs.workingTime d stop < 60)

structure SlaAgrees (inputs : FactInputs) (fact : FactRow) : Prop where
  answered : ∀ response breached, fact.firstResponseAt = some response →
    fact.firstResponseBreached = some breached →
    AgreesWithDue inputs breached fact.firstResponseDueAt response
  solved : ∀ closed breached, fact.closedAt = some closed → fact.solutionBreached = some breached →
    AgreesWithDue inputs breached fact.solutionDueAt closed
  unanswered : ∀ closed breached, fact.firstResponseAt = none → fact.firstClosedAt = some closed →
    fact.firstResponseBreached = some breached →
    AgreesWithDue inputs breached fact.firstResponseDueAt closed
  openSpans : FactInputs.createdClosed inputs.ticket.createTime inputs.changes = false →
    ∀ minutes, fact.itsmSolutionWorkingMinutes = some minutes →
      ∃ working, fact.solutionWorkingMinutes = some working ∧ minutes ≤ working

theorem agrees_of_spans (hm : inputs.Measurable) {stop target : ℤ} {span : FactInputs.Span}
    {due : Option ℤ} (hstop : inputs.ticket.createTime ≤ stop) (hpos : 0 < target)
    (hspan : inputs.span inputs.ticket.createTime stop = some span)
    (hdue : inputs.dueOf (some target) = some due) :
    AgreesWithDue inputs (target < span.effective) due stop := by
  obtain ⟨d, hd, rfl⟩ := Option.map_eq_some_iff.1 hdue
  obtain ⟨hlate, hin⟩ := judged hm hstop hpos hspan hd
  exact ⟨d, rfl, fun h ↦ hlate (of_decide_eq_true h), fun h ↦ hin (of_decide_eq_false h)⟩

/-- Where `compute_fact` returns, its SLA figures agree with each other. -/
theorem sla_figures_agree (inputs : FactInputs) (fact : FactRow) (hm : inputs.Measurable)
    (hafter : inputs.AfterCreation) (h : inputs.computeFact = some fact) : SlaAgrees inputs fact := by
  rw [FactInputs.computeFact] at h
  obtain ⟨response, hresponse, h⟩ := Option.bind_eq_some_iff.1 h
  obtain ⟨firstDue, hfirstDue, h⟩ := Option.bind_eq_some_iff.1 h
  obtain ⟨solution, hsolution, h⟩ := Option.bind_eq_some_iff.1 h
  obtain ⟨solutionDue, hsolutionDue, h⟩ := Option.bind_eq_some_iff.1 h
  obtain ⟨updates, _, h⟩ := Option.bind_eq_some_iff.1 h
  obtain ⟨itsm, hitsm, rfl⟩ := Option.map_eq_some_iff.1 h
  constructor
  · intro answer breached hat hbreached
    simp only at hat hbreached ⊢
    rw [hat, FactInputs.spanTo, Option.map_eq_some_iff] at hresponse
    obtain ⟨span, hspan, rfl⟩ := hresponse
    obtain ⟨target, htarget, hjudged⟩ := Option.bind_eq_some_iff.1 hbreached
    cases hjudged
    rw [htarget] at hfirstDue
    exact agrees_of_spans hm (firstResponse_after hafter hat) (targetOf_pos htarget) hspan hfirstDue
  · intro closed breached hclosed hbreached
    simp only at hclosed hbreached ⊢
    rw [hclosed, FactInputs.spanTo, Option.map_eq_some_iff] at hsolution
    obtain ⟨span, hspan, rfl⟩ := hsolution
    obtain ⟨target, htarget, hjudged⟩ := Option.bind_eq_some_iff.1 hbreached
    cases hjudged
    rw [htarget] at hsolutionDue
    exact agrees_of_spans hm (close_after hafter (List.max?_eq_some_iff.1 hclosed).1)
      (targetOf_pos htarget) hspan hsolutionDue
  · intro closed breached hat hclosed hbreached
    simp only at hat hclosed hbreached ⊢
    rw [hat] at hresponse
    cases hresponse
    obtain ⟨target, _, hjudged⟩ := Option.bind_eq_some_iff.1 hbreached
    obtain ⟨due, hdue, hlate⟩ := Option.bind_eq_some_iff.1 hjudged
    rw [hclosed, Option.map_some, Option.some.injEq] at hlate
    refine ⟨due, hdue, fun hb ↦ of_decide_eq_true (hlate.trans hb), fun hb ↦ ?_⟩
    rw [workingTime_of_ge (Int.not_lt.1 (of_decide_eq_false (hlate.trans hb)))]
    decide
  · intro hcreated minutes hminutes
    simp only at hminutes ⊢
    rw [hminutes] at hitsm
    exact openSpanMinutes_le hm hafter hcreated hsolution hitsm

/-- A ticket with an answer to the customer, targets of 90 minutes, and closed at a time. -/
def answeredInputs (calendar : WorkCalendar) (zone : TimeZone) (created answer closed : ℤ) :
    FactInputs where
  ticket :=
    { id := 7
      createTime := created
      createBy := 1
      queueId := 3
      stateId := 2
      priorityId := 3
      typeId := none
      userId := 1 }
  history := []
  articles := [{ id := 1, senderType := .agent, visible := true, createTime := answer, createBy := 2 }]
  events :=
    [{ ticketId := 7, kind := .create, occurredAt := created, queueId := 3, toValue := some ['n', 'e', 'w'] },
      { ticketId := 7, kind := .close, occurredAt := closed, queueId := 3, historyId := some 2 }]
  targets := ⟨90, 0, 90⟩
  calendar := calendar
  calendarZone := zone
  storageOffset := 0

/-- A Tuesday in summer time, answered after 91 minutes. -/
theorem sla_figures_agree_sample :
    ∃ fact, (answeredInputs officeHours summerTime 460800 466260 468000).computeFact = some fact ∧
      fact.firstResponseBreached = some true ∧ fact.firstResponseDueAt = some 466200 ∧
      SlaAgrees (answeredInputs officeHours summerTime 460800 466260 468000) fact := by
  have hfact : (answeredInputs officeHours summerTime 460800 466260 468000).computeFact.any
      (fun fact ↦ fact.firstResponseBreached = some true && fact.firstResponseDueAt = some 466200) =
        true := by
    decide +kernel
  obtain ⟨fact, hf, hlate⟩ := (Option.any_eq_true _ _).1 hfact
  rw [Bool.and_eq_true, decide_eq_true_eq, decide_eq_true_eq] at hlate
  refine ⟨fact, hf, hlate.1, hlate.2, sla_figures_agree _ fact ⟨?_, summerTime_steadyDays, rfl⟩
    ⟨?_, ?_⟩ hf⟩
  · unfold WorkCalendar.HoursOfDay
    decide
  · decide
  · decide

/-- Thursdays at 5 and at an hour that no day has. -/
def hourBeyondDay : WorkCalendar where
  workingHours := [("Thu", [5, 24])]
  vacationDays _ _ := none
  vacationDaysOnce _ _ _ := none

/-- Breached before the due time where the calendar names an hour beyond the day, or where its zone
changes its offset twice within a day; and more open minutes than solution minutes where a ticket is
closed in the second of its creation. -/
theorem sla_figures_disagree :
    ((answeredInputs hourBeyondDay summerTime 0 172800 172800).computeFact.any fun fact ↦
      fact.firstResponseBreached = some true && fact.firstResponseAt.any fun answer ↦
        fact.firstResponseDueAt.any fun due ↦ answer ≤ due) = true ∧
    ((answeredInputs thursdaysAtFive twoChanges 0 21600 21600).computeFact.any fun fact ↦
      fact.firstResponseBreached = some true && fact.firstResponseAt.any fun answer ↦
        fact.firstResponseDueAt.any fun due ↦ answer ≤ due) = true ∧
    ((answeredInputs officeHours summerTime 460800 466260 460800).computeFact.any fun fact ↦
      fact.itsmSolutionWorkingMinutes.any fun minutes ↦
        fact.solutionWorkingMinutes.any fun working ↦ working < minutes) = true := by
  decide +kernel

end Tiqora.Reporting.HistoryEvents
