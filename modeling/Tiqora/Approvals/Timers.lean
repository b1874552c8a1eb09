import Tiqora.Approvals.Runs

namespace Tiqora.Approvals

open Foundation

/-- The timer state of a subject type: of a running one its latest tick, of a paused one the last
tick that could have fired a deadline and its latest paused tick. -/
inductive TimerEntry
  | running (tick : ℕ)
  | paused (since seen : ℕ)
  deriving DecidableEq

def TimerEntry.since : TimerEntry → ℕ
  | .running tick => tick
  | .paused since _ => since

structure Pause where
  since : ℕ
  moment : ℕ
  deriving DecidableEq

def Pause.length (p : Pause) : ℕ := p.moment - p.since

/-- What the timer transaction of a tick reads. -/
structure TimersRead where
  moment : ℕ
  enabled : Bool
  frozen : List String
  registered : List String

def TimersRead.stands (read : TimersRead) (key : String) : Bool :=
  !read.enabled || read.frozen.contains key

def nextEntry (read : TimersRead) (key : String) (entry : Option TimerEntry) : TimerEntry :=
  if read.stands key then
    .paused ((entry.map (·.since)).getD read.moment) read.moment
  else .running read.moment

/-- The pause that ends in this tick, as `since` and `seen`. -/
def endingPause (read : TimersRead) (key : String) (entry : Option TimerEntry) : Option (ℕ × ℕ) :=
  if read.stands key then none
  else match entry with
    | some (.paused since seen) => if since < read.moment then some (since, seen) else none
    | some (.running _) | none => none

inductive Work
  | overdue | remind
  deriving DecidableEq

/-- A deadline or reminder that a tick has selected and not handled yet. -/
structure Item where
  work : Work
  request : ℕ
  stepId : ℕ

def Item.operation (item : Item) : Operation :=
  match item.work with
  | .overdue => .overdue item.stepId
  | .remind => .remind item.stepId

/-- A sweep after its timer transaction. -/
structure Tick where
  moment : ℕ
  paused : List String
  items : List Item

/-- The requests, the stored timer state and the sweep under way. `pauses` is a history that
nothing reads: by which pauses the deadline of a step of a request was moved so far. -/
structure Site where
  requests : List Request
  timers : String → Option TimerEntry
  clock : ℕ
  tick : Option Tick
  pauses : ℕ → ℕ → List Pause

namespace Site

variable (st : Site) (read : TimersRead)

/-- Registered subject types and those of open requests. -/
def keys : List String :=
  read.registered ++ (st.requests.filter (·.status = .pending)).map (·.subjectType)

def shiftRequest (r : Request) : Request :=
  match endingPause read r.subjectType (st.timers r.subjectType) with
  | some (since, seen) =>
    if r.status = .pending then shiftTimers since seen r (read.moment - since) else r
  | none => r

/-- Steps whose deadline a pause moves. -/
def deadlineMoves (seen : ℕ) (s : ApprovalStep) : Bool :=
  s.status = .active ∧ s.activatedAt.any (· ≤ seen) ∧ s.dueAt.isSome ∧ s.overdueAt = none

def newPauses (request stepId : ℕ) : List Pause :=
  match st.requests[request]? with
  | none => []
  | some r =>
    match endingPause read r.subjectType (st.timers r.subjectType) with
    | some (since, seen) =>
      if r.status = .pending ∧ r.steps.any fun s ↦ s.id = stepId ∧ deadlineMoves seen s then
        [⟨since, read.moment⟩]
      else []
    | none => []

/-- The timer transaction: shifts and the new timer state commit together. A sweep goes on with
its phases; `track_timers` ends here. -/
def runTimers (sweep : Bool) : Site where
  requests := st.requests.map (st.shiftRequest read)
  timers key := if key ∈ st.keys read then some (nextEntry read key (st.timers key)) else none
  clock := read.moment
  tick := if sweep then some ⟨read.moment, (st.keys read).filter read.stands, []⟩ else none
  pauses request stepId := st.pauses request stepId ++ st.newPauses read request stepId

/-- A deadline that is due, or a reminder of an active step, of a type that does not stand still
in this tick. -/
def candidate (tick : Tick) (item : Item) : Prop :=
  ∃ r ∈ st.requests[item.request]?, r.subjectType ∉ tick.paused ∧
    ∃ s ∈ r.steps, s.id = item.stepId ∧ s.status = .active ∧
      (item.work = .overdue → s.overdueAt = none ∧ ∃ due ∈ s.dueAt, due ≤ tick.moment)

/-- Runs an operation on one request; a refused one changes nothing. -/
def runOn (request : ℕ) (env : Env) (op : Operation) : Site :=
  { st with
    requests := st.requests.modify request fun r ↦ (op.run env r).getD r
    clock := env.now }

end Site

/-- What happens to a site: the timer transaction of a tick, then any pages of candidates and
their items at the time of the tick, the end of the tick or a crash at any point of it, and in
between new requests and operations on the others. -/
inductive SweepAction
  | timers (read : TimersRead) (sweep : Bool)
  | fetch (items : List Item)
  | item (env : Env)
  | stop
  | create (env : Env) (args : RequestArgs)
  | operate (request : ℕ) (env : Env) (op : Operation)

def SweepAction.step (st : Site) : SweepAction → Site → Prop
  | .timers read sweep, st' => st.clock ≤ read.moment ∧ st' = st.runTimers read sweep
  | .fetch items, st' => ∃ tick, st.tick = some tick ∧ (∀ item ∈ items, st.candidate tick item) ∧
      st' = { st with tick := some { tick with items := items } }
  | .item env, st' => ∃ tick item rest, st.tick = some tick ∧ tick.items = item :: rest ∧
      env.moment = tick.moment ∧ st.clock ≤ env.now ∧
      st' = { st.runOn item.request env item.operation with
        tick := some { tick with items := rest } }
  | .stop, st' => st' = { st with tick := none }
  | .create env args, st' => st.clock ≤ env.now ∧ ∃ r, requestApproval env args = .ok r ∧
      st' = { st with requests := st.requests ++ [r], clock := env.now }
  | .operate request env op, st' => op.timing = false ∧ st.clock ≤ env.now ∧
      st' = st.runOn request env op

/-- A site starts empty; its clock never goes back. -/
def sweepMachine : Machine Site SweepAction where
  init st := st.requests = [] ∧ (∀ key, st.timers key = none) ∧ st.tick = none ∧
    ∀ request stepId, st.pauses request stepId = []
  step st a st' := a.step st st'

end Tiqora.Approvals
