import Tiqora.Foundation.Machine
import Tiqora.Foundation.Tables

namespace Tiqora.Worker

open Foundation

/-- The two tables that `poll_once` follows by a watermark. -/
inductive Feed
  | history | article
  deriving DecidableEq

/-- A row of `ticket_history` or of `article`. -/
structure Row where
  feed : Feed
  id : ℕ
  ticketId : ℕ
  deriving DecidableEq

structure Marks where
  history : ℕ
  article : ℕ
  deriving DecidableEq

def Marks.get (m : Marks) : Feed → ℕ
  | .history => m.history
  | .article => m.article

def Marks.set (m : Marks) (feed : Feed) (n : ℕ) : Marks :=
  match feed with
  | .history => { m with history := n }
  | .article => { m with article := n }

structure OutboxRow where
  id : ℕ
  ticketId : ℕ
  processed : Bool
  deriving DecidableEq

def batchSize : ℕ := 500

/-- `coalesce(max(id), 0)`. -/
def maxId (feed : Feed) (rows : List Row) : ℕ :=
  ((rows.filter fun r ↦ r.feed = feed).map (·.id)).foldr max 0

def touched (feed : Feed) (mark : ℕ) (rows : List Row) : List ℕ :=
  (rows.filter fun r ↦ r.feed = feed ∧ mark < r.id).map (·.ticketId)

variable {Content Doc : Type}

/-- Where a poll tick stands. `view` is what its transaction read first, until a saved watermark
commits it; `seen` is what `index_tickets` read of the tickets. -/
inductive Poll (Content : Type)
  | idle
  | started (view : List Row) (maxHist : ℕ)
  | marked (view : List Row) (maxHist maxArt : ℕ)
  | historyRead (view : Option (List Row)) (maxArt : ℕ) (tickets : List ℕ)
  | collected (tickets : List ℕ)
  | read (tickets : List ℕ) (seen : Table ℕ Content)
  deriving DecidableEq

inductive Drain (Content : Type)
  | idle
  | selected (rows : List OutboxRow)
  | read (rows : List OutboxRow) (seen : Table ℕ Content)
  | written (rows : List OutboxRow)
  deriving DecidableEq

/-- `pending` holds the rows of the open transactions. `polled` says that a poll tick began after
the last commit and succeeded, `drained` that a drain tick found every row processed after it. -/
structure SearchState (Content Doc : Type) where
  tickets : Table ℕ Content
  pending : Table ℕ (List Row)
  allocated : Marks
  rows : List Row
  outbox : List OutboxRow
  marks : Marks
  index : Table ℕ Doc
  poll : Poll Content
  clean : Bool
  drain : Drain Content
  written : List ℕ
  polled : Bool
  drained : Bool
  deriving DecidableEq

inductive SearchAction (Content : Type)
  | insertRow (transaction : ℕ) (feed : Feed) (ticketId : ℕ)
  | commit (transaction : ℕ) (writes : List (ℕ × Option Content)) (outbox : List (ℕ × ℕ))
  | rollback (transaction : ℕ)
  | pollStart
  | readMaxArticle
  | readHistory
  | readArticles
  | pollReadTickets
  | pollWrite
  | pollFail
  | drainStart
  | drainReadTickets
  | drainWrite
  | drainMark
  | drainFail
  deriving DecidableEq

/-- The plain read of a transaction that may have begun with `view`. -/
def sees (isolation : Isolation) (view : Option (List Row)) (rows : List Row) : List Row :=
  isolation.visible (view.getD rows) rows

/-- The documents of `index_tickets`; a ticket that is gone is taken out. -/
def indexTickets (build : Content → Doc) (index : Table ℕ Doc) (tickets : List ℕ)
    (seen : Table ℕ Content) : Table ℕ Doc :=
  tickets.foldl (fun index ticketId ↦ index.set ticketId ((seen.find ticketId).map build)) index

def drainTickets (rows : List OutboxRow) : List ℕ := sortedSet (rows.map (·.ticketId))

def unprocessed (outbox : List OutboxRow) : List OutboxRow :=
  ((outbox.filter fun o ↦ !o.processed).mergeSort fun o o' ↦ o.id ≤ o'.id).take batchSize

namespace SearchState

/-- The commit of a transaction with its rows. -/
def committed (s : SearchState Content Doc) (transaction : ℕ) (rows : List Row)
    (writes : List (ℕ × Option Content)) (outbox : List (ℕ × ℕ)) : SearchState Content Doc :=
  { s with
    tickets := writes.foldl (fun tickets w ↦ tickets.set w.1 w.2) s.tickets
    pending := s.pending.set transaction none
    rows := s.rows ++ rows
    outbox := s.outbox ++ outbox.map fun o ↦ ⟨o.1, o.2, false⟩
    clean := false
    written := s.written ++ writes.map (·.1)
    polled := false
    drained := false }

/-- Ids are allocated in order when a row is inserted and become visible with the commit. -/
def next (isolation : Isolation) (build : Content → Doc) (s : SearchState Content Doc) :
    SearchAction Content → Option (SearchState Content Doc)
  | .insertRow transaction feed ticketId =>
    let id := s.allocated.get feed + 1
    some { s with
      allocated := s.allocated.set feed id
      pending := s.pending.set transaction
        (some ((s.pending.find transaction).getD [] ++ [⟨feed, id, ticketId⟩])) }
  | .commit transaction writes outbox =>
    match s.pending.find transaction with
    | some rows =>
      if (∀ w ∈ writes, ∃ r ∈ rows, r.feed = .history ∧ r.ticketId = w.1) ∧
          (s.outbox.map (·.id) ++ outbox.map (·.1)).Nodup then
        some (s.committed transaction rows writes outbox)
      else none
    | none => none
  | .rollback transaction => some { s with pending := s.pending.set transaction none }
  | .pollStart =>
    match s.poll with
    | .idle => some { s with poll := .started s.rows (maxId .history s.rows), clean := true }
    | _ => none
  | .readMaxArticle =>
    match s.poll with
    | .started view maxHist =>
      some { s with
        poll := .marked view maxHist (maxId .article (sees isolation (some view) s.rows)) }
    | _ => none
  | .readHistory =>
    match s.poll with
    | .marked view maxHist maxArt =>
      if s.marks.history < maxHist then
        some { s with
          poll := .historyRead none maxArt
            (touched .history s.marks.history (sees isolation (some view) s.rows))
          marks := s.marks.set .history maxHist }
      else some { s with poll := .historyRead (some view) maxArt [] }
    | _ => none
  | .readArticles =>
    match s.poll with
    | .historyRead view maxArt tickets =>
      if s.marks.article < maxArt then
        some { s with
          poll := .collected
            (tickets ++ touched .article s.marks.article (sees isolation view s.rows))
          marks := s.marks.set .article maxArt }
      else some { s with poll := .collected tickets }
    | _ => none
  | .pollReadTickets =>
    match s.poll with
    | .collected tickets => some { s with poll := .read (sortedSet tickets) s.tickets }
    | _ => none
  | .pollWrite =>
    match s.poll with
    | .read tickets seen =>
      some { s with
        index := indexTickets build s.index tickets seen, poll := .idle, polled := s.clean }
    | _ => none
  | .pollFail => some { s with poll := .idle }
  | .drainStart =>
    match s.drain with
    | .idle =>
      match unprocessed s.outbox with
      | [] => some { s with drained := true }
      | rows => some { s with drain := .selected rows }
    | _ => none
  | .drainReadTickets =>
    match s.drain with
    | .selected rows => some { s with drain := .read rows s.tickets }
    | _ => none
  | .drainWrite =>
    match s.drain with
    | .read rows seen =>
      some { s with
        index := indexTickets build s.index (drainTickets rows) seen, drain := .written rows }
    | _ => none
  | .drainMark =>
    match s.drain with
    | .written rows =>
      some { s with
        outbox := s.outbox.map fun o ↦ { o with processed := o.processed || o.id ∈ rows.map (·.id) }
        drain := .idle }
    | _ => none
  | .drainFail => some { s with drain := .idle }

/-- The document of the committed ticket, if there is one. -/
def document (build : Content → Doc) (s : SearchState Content Doc) (ticketId : ℕ) : Option Doc :=
  (s.tickets.find ticketId).map build

end SearchState

/-- No ticket is written yet, and no tick is under way. -/
def searches (isolation : Isolation) (build : Content → Doc) :
    Machine (SearchState Content Doc) (SearchAction Content) :=
  .ofNext (fun s ↦ s.poll = .idle ∧ s.drain = .idle ∧ s.written = [] ∧ s.polled = false ∧
    s.drained = false ∧ (s.outbox.map (·.id)).Nodup) (SearchState.next isolation build)

end Tiqora.Worker
