import Tiqora.Foundation.Machine
import Tiqora.Foundation.Tables
import Tiqora.Calendar.Recurrence

namespace Tiqora.Gdpr

open Foundation Foundation.Civil Calendar

structure RetentionRule where
  name : String
  queue : String
  olderThanMonths : ℤ
  stateType : String
  seed : Option ℤ

/-- A ticket with the names of its queue and of the type of its state. -/
structure Ticket where
  queue : String
  stateType : String
  changeTime : Datetime

structure Article where
  id : ℕ
  ticketId : ℕ

/-- `a_from`, `a_to`, `a_cc` and `a_body`. -/
structure MimeText where
  aFrom : Option String
  aTo : Option String
  aCc : Option String
  aBody : Option String

/-- A row of `article_data_mime`. -/
structure Mime where
  articleId : ℕ
  text : MimeText

/-- The same time some months earlier, on day 28 at most. Python raises before the year 1. -/
def monthsAgo (now : Datetime) (months : ℤ) : Option Datetime :=
  let month := (now.month : ℤ) - months
  if 0 ≤ month then
    Datetime.of? (ofMonthDay month.toNat (min now.day 28) * dayMicros + now.time)
  else none

def RetentionRule.matches (rule : RetentionRule) (now : Datetime) (ticket : Ticket) : Bool :=
  (monthsAgo now rule.olderThanMonths).any fun cutoff ↦
    ticket.queue = rule.queue && ticket.stateType = rule.stateType && ticket.changeTime < cutoff

/-- A pending ticket of a rule, with the seed of the rule. -/
structure Job where
  seed : Option ℤ
  ticketId : ℕ

/-- Where a run is: between two tickets, after the reading of the article ids of a ticket, or
writing rows that it has read. -/
inductive Phase
  | idle
  | between
  | listed (job : Job) (articleIds : List ℕ)
  | scrubbing (job : Job) (articleIds : List ℕ) (rows : List (ℕ × Mime))

/-- The ticket that the run works on. -/
def Phase.ticketId : Phase → Option ℕ
  | .listed job _ | .scrubbing job _ _ => some job.ticketId
  | .idle | .between => none

def Phase.articleIds : Phase → List ℕ
  | .listed _ articleIds | .scrubbing _ articleIds _ => articleIds
  | .idle | .between => []

def Phase.rows : Phase → List (ℕ × Mime)
  | .scrubbing _ _ rows => rows
  | .idle | .between | .listed _ _ => []

/-- The tables, the marks of the audit table and the run. Beside them stand what a run owes (the
articles of the tickets that its rules matched), what completed runs owed, the articles that a run
had read when it marked their ticket, the rows in the order of their scrubbing, and the tickets at
which a run was cut off. -/
structure State where
  tickets : Table ℕ Ticket
  articles : List Article
  mimes : Table ℕ Mime
  audit : List ℕ
  phase : Phase
  todo : List Job
  owed : List ℕ
  completed : List (List ℕ)
  covered : List ℕ
  scrubs : List ℕ
  cut : List ℕ

inductive Action
  | openTicket (id : ℕ) (ticket : Ticket)
  | changeTicket (id : ℕ) (ticket : Ticket)
  | addArticle (article : Article) (rows : List (ℕ × MimeText))
  | start (rules : List RetentionRule) (now : Datetime)
  | advance
  | cutOff

namespace State

variable (anonymize : Option ℤ → MimeText → MimeText) (s : State)

/-- `build_retention_report`: the tickets of each rule that have no mark yet. -/
def pending (rules : List RetentionRule) (now : Datetime) : List Job :=
  rules.flatMap fun rule ↦
    (s.tickets.rows.filter fun r ↦ rule.matches now r.2 && r.1 ∉ s.audit).map fun r ↦
      ⟨rule.seed, r.1⟩

def matched (rules : List RetentionRule) (now : Datetime) (ticketId : ℕ) : Bool :=
  s.tickets.rows.any fun r ↦ r.1 = ticketId && rules.any fun rule ↦ rule.matches now r.2

def start (rules : List RetentionRule) (now : Datetime) : State :=
  if rules.all fun rule ↦ (monthsAgo now rule.olderThanMonths).isSome then
    { s with
      phase := .between
      todo := s.pending rules now
      owed := (s.articles.filter fun a ↦ s.matched rules now a.ticketId).map (·.id) }
  else s

/-- The next statement of the run: `_anonymize_ticket_articles` reads the ids of the articles, then
their rows, and updates one row after the other; `record_audit` marks the ticket. -/
def advance : Option State :=
  match s.phase with
  | .idle => none
  | .between =>
    match s.todo with
    | [] => some { s with phase := .idle, owed := [], completed := s.completed ++ [s.owed] }
    | job :: todo =>
      let articleIds := (s.articles.filter fun a ↦ a.ticketId = job.ticketId).map (·.id)
      some { s with phase := .listed job articleIds, todo }
  | .listed job articleIds =>
    let rows := s.mimes.rows.filter fun r ↦ r.2.articleId ∈ articleIds
    some { s with phase := .scrubbing job articleIds rows }
  | .scrubbing job articleIds ((id, row) :: rows) =>
    some { s with
      phase := .scrubbing job articleIds rows
      mimes := s.mimes.update fun key mime ↦
        if key = id then { mime with text := anonymize job.seed row.text } else mime
      scrubs := s.scrubs ++ [id] }
  | .scrubbing job articleIds [] =>
    some { s with
      phase := .between
      audit := s.audit ++ [job.ticketId]
      covered := s.covered ++ articleIds }

def next : Action → Option State
  | .openTicket id ticket =>
    if s.tickets.find id = none then some { s with tickets := s.tickets.set id (some ticket) }
    else none
  | .changeTicket id ticket =>
    if s.tickets.find id = none then none
    else some { s with tickets := s.tickets.set id (some ticket) }
  | .addArticle article rows =>
    if (s.articles.all fun a ↦ a.id ≠ article.id) && s.mimes.rows.all fun r ↦
      r.2.articleId ≠ article.id then
      (s.mimes.insert (rows.map fun r ↦ (r.1, ⟨article.id, r.2⟩))).map fun mimes ↦
        { s with articles := s.articles ++ [article], mimes }
    else none
  | .start rules now =>
    match s.phase with
    | .idle => some (s.start rules now)
    | _ => none
  | .advance => s.advance anonymize
  | .cutOff =>
    match s.phase with
    | .idle => none
    | phase =>
      some { s with phase := .idle, todo := [], owed := [], cut := s.cut ++ phase.ticketId.toList }

end State

end Tiqora.Gdpr
