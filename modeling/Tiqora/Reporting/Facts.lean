import Tiqora.Reporting.HistoryEvents
import Tiqora.Znuny.WorkingTime

namespace Tiqora.Reporting.HistoryEvents

open Foundation Znuny

/-- 0 is no target. -/
structure EscalationTargets where
  firstResponseMinutes : ℤ
  updateMinutes : ℤ
  solutionMinutes : ℤ

/-- What a report fact is computed from; stored times are local times of a zone of constant
offset. -/
structure FactInputs where
  ticket : TicketRow
  history : List HistoryRow
  articles : List ArticleRow
  events : List EventRow
  targets : EscalationTargets
  calendar : WorkCalendar
  calendarZone : TimeZone
  storageOffset : ℤ

/-- The columns that are computed from the events, the articles and the calendar. -/
structure FactRow where
  createdAt : ℤ
  queueIdAtCreate : ℤ
  firstResponseAt : Option ℤ
  firstResponseMinutes : Option ℤ
  firstResponseWorkingMinutes : Option ℤ
  firstResponseTargetMinutes : Option ℤ
  firstResponseDueAt : Option ℤ
  firstResponseBreached : Option Bool
  firstClosedAt : Option ℤ
  closedAt : Option ℤ
  solutionMinutes : Option ℤ
  solutionWorkingMinutes : Option ℤ
  solutionTargetMinutes : Option ℤ
  solutionDueAt : Option ℤ
  solutionBreached : Option Bool
  updateTargetMinutes : Option ℤ
  updateBreachCount : ℕ
  closeCount : ℕ
  reopenCount : ℕ
  queueMoveCount : ℕ
  queuePingpong : Bool
  ownerChangeCount : ℕ
  articleInCount : ℕ
  articleOutCount : ℕ
  firstLevelSolved : Bool
  itsmSolutionWorkingMinutes : Option ℤ
  noteCount : ℕ
  agentTouchCount : ℕ
  lastEventAt : ℤ
  lastHistoryId : ℕ

/-- `ITSM_SOLUTION_CREATED_CLOSED_MINUTES`. -/
def itsmSolutionCreatedClosedMinutes : ℤ := 3

def targetOf (minutes : ℤ) : Option ℤ := if 0 < minutes then some minutes else none

def hasQueuePingpong : List ℤ → Bool
  | [] => false
  | first :: queues => go [first] queues
where
  go (seen : List ℤ) : List ℤ → Bool
    | [] => false
    | queue :: queues => seen.contains queue || go (queue :: seen) queues

def firstLevelSolved (articles : List ArticleRow) : Bool :=
  match (articles.filter (·.visible)).map (·.senderType) with
  | [sender] => sender = .customer || sender = .agent
  | [first, second] => first = .customer && second = .agent
  | _ => false

namespace FactInputs

def toEpoch (inputs : FactInputs) (value : ℤ) : ℤ := value - inputs.storageOffset

def fromEpoch (inputs : FactInputs) (epoch : ℤ) : ℤ := epoch + inputs.storageOffset

/-- `working_minutes`; the inner None is that of a calendar without working hours, the outer one the
error of the loop protection. -/
def workingMinutes (inputs : FactInputs) (start stop : ℤ) : Option (Option ℤ) :=
  if inputs.calendar.anyHours then
    (workingSecondsBetween inputs.calendar inputs.calendarZone (inputs.toEpoch start)
      (inputs.toEpoch stop)).map fun seconds ↦ some (seconds / 60)
  else some none

def dueAt (inputs : FactInputs) (start minutes : ℤ) : Option ℤ :=
  if inputs.calendar.anyHours then
    (destinationTimeEpoch inputs.calendar inputs.calendarZone (inputs.toEpoch start) minutes).map
      inputs.fromEpoch
  else some (start + 60 * minutes)

/-- The minutes of a span by the wall, in working time, and as the SLA counts them. -/
structure Span where
  wall : ℤ
  working : Option ℤ
  effective : ℤ

def span (inputs : FactInputs) (start stop : ℤ) : Option Span :=
  (inputs.workingMinutes start (max stop start)).map fun working ↦
    { wall := (max stop start - start) / 60
      working := working
      effective := working.getD ((max stop start - start) / 60) }

/-- The closes and reopens by time and history id. -/
def changes (inputs : FactInputs) : List EventRow :=
  (inputs.events.filter (·.isChange)).mergeSort fun e e' ↦
    toLex (e.occurredAt, e.historyId.getD 0) ≤ toLex (e'.occurredAt, e'.historyId.getD 0)

def createdClosed (created : ℤ) : List EventRow → Bool
  | [] => false
  | first :: _ => first.kind = .close && first.occurredAt ≤ created

/-- The loop over the open spans, from the start of the open one. -/
def openSpans (inputs : FactInputs) : Option ℤ → ℤ → List EventRow → Option ℤ
  | _, total, [] => some total
  | some openedAt, total, e :: changes =>
    if e.kind = .close then
      (inputs.span openedAt (max e.occurredAt openedAt)).bind fun span ↦
        inputs.openSpans none (total + span.effective) changes
    else inputs.openSpans (some openedAt) total changes
  | none, total, e :: changes =>
    if e.kind = .reopen then inputs.openSpans (some e.occurredAt) total changes
    else inputs.openSpans none total changes

/-- The inner None is that of a ticket that was never closed. -/
def openSpanMinutes (inputs : FactInputs) : Option (Option ℤ) :=
  let created := inputs.ticket.createTime
  if inputs.changes.any fun e ↦ e.kind = .close then
    if createdClosed created inputs.changes && !inputs.changes.any fun e ↦ e.kind = .reopen then
      some (some itsmSolutionCreatedClosedMinutes)
    else (inputs.openSpans (some created) 0 inputs.changes).map some
  else some none

def sortedArticles (inputs : FactInputs) : List ArticleRow :=
  inputs.articles.mergeSort fun a a' ↦ toLex (a.createTime, a.id) ≤ toLex (a'.createTime, a'.id)

def closeTimes (inputs : FactInputs) : List ℤ :=
  (inputs.events.filter fun e ↦ e.kind = .close).map (·.occurredAt)

def ofKindCount (inputs : FactInputs) (kind : EventKind) : ℕ :=
  inputs.events.countP fun e ↦ e.kind = kind

def queueIdAtCreate (inputs : FactInputs) : ℤ :=
  ((inputs.events.find? fun e ↦ e.kind = .create).bind (·.toId)).getD inputs.ticket.queueId

def queuePath (inputs : FactInputs) : List ℤ :=
  inputs.queueIdAtCreate :: (inputs.events.filter fun e ↦ e.kind = .queue).filterMap (·.toId)

def responses (inputs : FactInputs) : List ArticleRow :=
  inputs.sortedArticles.filter fun a ↦ a.senderType = .agent && a.visible

def agentArticles (inputs : FactInputs) : List ArticleRow :=
  inputs.sortedArticles.filter fun a ↦ a.senderType = .agent

/-- The span from the creation, where there is a stop. -/
def spanTo (inputs : FactInputs) : Option ℤ → Option (Option Span)
  | none => some none
  | some stop => (inputs.span inputs.ticket.createTime stop).map some

def dueOf (inputs : FactInputs) : Option ℤ → Option (Option ℤ)
  | none => some none
  | some target => (inputs.dueAt inputs.ticket.createTime target).map some

/-- The loop over the articles, from the time since when the customer waits. -/
def updateBreaches (inputs : FactInputs) (target : ℤ) : Option ℤ → ℕ → List ArticleRow → Option ℕ
  | _, breaches, [] => some breaches
  | waiting, breaches, a :: articles =>
    if a.senderType = .customer then
      inputs.updateBreaches target (waiting.or (some a.createTime)) breaches articles
    else
      match waiting with
      | none => inputs.updateBreaches target none breaches articles
      | some since =>
        if a.senderType = .agent && a.visible then
          (inputs.span since a.createTime).bind fun span ↦
            inputs.updateBreaches target none
              (if target < span.effective then breaches + 1 else breaches) articles
        else inputs.updateBreaches target (some since) breaches articles

def updateBreachCount (inputs : FactInputs) : Option ℤ → Option ℕ
  | none => some 0
  | some target => inputs.updateBreaches target none 0 inputs.sortedArticles

/-- Answered, the measured minutes decide, else the first close against the due time. -/
def firstResponseBreached (target : Option ℤ) (response : Option Span) (due firstClosed : Option ℤ) :
    Option Bool :=
  target.bind fun target ↦
    match response with
    | some span => some (target < span.effective)
    | none => due.bind fun due ↦ firstClosed.map fun closed ↦ due < closed

def solutionBreached (target : Option ℤ) (solution : Option Span) : Option Bool :=
  target.bind fun target ↦ solution.map fun span ↦ target < span.effective

/-- None is the error of a loop protection. -/
def computeFact (inputs : FactInputs) : Option FactRow :=
  let firstClosedAt := inputs.closeTimes.min?
  let closedAt := inputs.closeTimes.max?
  let firstResponse := inputs.responses.head?.map (·.createTime)
  let firstTarget := targetOf inputs.targets.firstResponseMinutes
  let updateTarget := targetOf inputs.targets.updateMinutes
  let solutionTarget := targetOf inputs.targets.solutionMinutes
  (inputs.spanTo firstResponse).bind fun response ↦
  (inputs.dueOf firstTarget).bind fun firstDue ↦
  (inputs.spanTo closedAt).bind fun solution ↦
  (inputs.dueOf solutionTarget).bind fun solutionDue ↦
  (inputs.updateBreachCount updateTarget).bind fun updateBreaches ↦
  inputs.openSpanMinutes.map fun itsm ↦
    { createdAt := inputs.ticket.createTime
      queueIdAtCreate := inputs.queueIdAtCreate
      firstResponseAt := firstResponse
      firstResponseMinutes := response.map (·.wall)
      firstResponseWorkingMinutes := response.bind (·.working)
      firstResponseTargetMinutes := firstTarget
      firstResponseDueAt := firstDue
      firstResponseBreached := firstResponseBreached firstTarget response firstDue firstClosedAt
      firstClosedAt := firstClosedAt
      closedAt := closedAt
      solutionMinutes := solution.map (·.wall)
      solutionWorkingMinutes := solution.bind (·.working)
      solutionTargetMinutes := solutionTarget
      solutionDueAt := solutionDue
      solutionBreached := solutionBreached solutionTarget solution
      updateTargetMinutes := updateTarget
      updateBreachCount := updateBreaches
      closeCount := inputs.ofKindCount .close
      reopenCount := inputs.ofKindCount .reopen
      queueMoveCount := inputs.ofKindCount .queue
      queuePingpong := hasQueuePingpong inputs.queuePath
      ownerChangeCount := inputs.ofKindCount .owner
      articleInCount := inputs.sortedArticles.countP fun a ↦ a.senderType = .customer
      articleOutCount := inputs.responses.length
      firstLevelSolved := firstLevelSolved inputs.sortedArticles
      itsmSolutionWorkingMinutes := itsm
      noteCount := inputs.agentArticles.countP fun a ↦ !a.visible
      agentTouchCount := (inputs.agentArticles.map (·.createBy)).dedup.length
      lastEventAt := ((inputs.history.map (·.createTime)) ++
        inputs.sortedArticles.map (·.createTime)).foldl max inputs.ticket.createTime
      lastHistoryId := (inputs.history.map (·.id)).foldl max 0 }

end FactInputs

end Tiqora.Reporting.HistoryEvents
