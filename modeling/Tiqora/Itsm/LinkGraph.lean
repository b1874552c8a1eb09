import Mathlib.Data.Char
import Mathlib.Data.List.Lex
import Mathlib.Data.Prod.Lex
import Tiqora.Foundation.Decimal
import Tiqora.Foundation.Tables

namespace Tiqora.Itsm.Links

open Foundation

abbrev Text := List Char

structure TicketFacts where
  tn : Text
  title : Text
  state : Text
  stateType : Text
  deriving DecidableEq

structure LinkRow where
  sourceObject : ℕ
  sourceKey : Text
  targetObject : ℕ
  targetKey : Text
  state : ℕ
  type : ℕ
  deriving DecidableEq

inductive CiSource
  | znuny
  | tiqora
  deriving DecidableEq

def CiSource.text : CiSource → Text
  | .znuny => "znuny".toList
  | .tiqora => "tiqora".toList

structure CiRef where
  source : CiSource
  id : ℤ
  deriving DecidableEq

def CiRef.text (ref : CiRef) : Text := ref.source.text ++ ':' :: intText ref.id

structure CatalogValue where
  name : Text
  functionality : Option Text
  deriving DecidableEq

structure CiSummary where
  ref : CiRef
  number : Text
  name : Text
  className : Text
  incidentState : Option CatalogValue
  deriving DecidableEq

inductive Direction
  | source
  | target
  | both
  deriving DecidableEq

structure CiTicketLink where
  ci : CiSummary
  linkType : Text
  direction : Direction
  deriving DecidableEq

/-- What a provider answers for tickets; without a value it is unavailable. -/
abbrev CiProvider := List ℤ → Option (List (ℤ × List CiTicketLink))

/-- What is stored, as a user reads it. -/
structure Database where
  linkRelation : List LinkRow
  objectName : ℕ → Option Text
  stateName : ℕ → Option Text
  typeName : ℕ → Option Text
  readable : ℤ → Option TicketFacts
  /-- The provider that serves the mode, if there is one. -/
  ciProvider : Option CiProvider

inductive NodeKey
  | ticket (id : ℤ)
  | ci (ref : CiRef)
  deriving DecidableEq

def NodeKey.text : NodeKey → Text
  | .ticket id => "ticket:".toList ++ intText id
  | .ci ref => ref.text

inductive NodeKind
  | ticket
  | ci
  deriving DecidableEq

structure GraphNode where
  key : NodeKey
  kind : NodeKind
  depth : ℕ
  number : Text
  title : Text
  state : Option Text := none
  stateType : Option Text := none
  className : Option Text := none
  incidentState : Option Text := none
  incidentFunctionality : Option Text := none
  deriving DecidableEq

inductive EdgeKind
  | ticketTicket
  | ticketCi
  deriving DecidableEq

def EdgeKind.text : EdgeKind → Text
  | .ticketTicket => "ticket_ticket".toList
  | .ticketCi => "ticket_ci".toList

structure GraphEdge where
  source : NodeKey
  target : NodeKey
  linkType : Text
  kind : EdgeKind
  deriving DecidableEq

structure LinkGraph where
  root : NodeKey
  nodes : List GraphNode
  edges : List GraphEdge
  truncated : Bool
  deriving DecidableEq

/-- The ticket of a root that is unknown or not readable. -/
structure TicketNotReadable where
  ticketId : ℤ
  deriving DecidableEq

def chunk : ℕ := 500

def maxDepth : ℤ := 3

variable (db : Database)

/-- `readable_tickets`. -/
def Database.readableTickets (ids : List ℤ) : List (ℤ × TicketFacts) :=
  (sortedSet ids).filterMap fun id ↦ (db.readable id).map fun facts ↦ (id, facts)

/-- The rows of the query for keys. -/
def Database.selectLinks (keys : List Text) : List (LinkRow × Text) :=
  db.linkRelation.filterMap fun row ↦
    if db.objectName row.sourceObject = some "Ticket".toList ∧
        db.stateName row.state = some "Valid".toList ∧ row.targetObject = row.sourceObject ∧
        (row.sourceKey ∈ keys ∨ row.targetKey ∈ keys) then
      (db.typeName row.type).map fun name ↦ (row, name)
    else none

/-- The source, the target and the type of a link. -/
abbrev Relation := ℤ ×ₗ (ℤ ×ₗ Text)

def relationOf (row : LinkRow × Text) : Option Relation := do
  let source ← readInt row.1.sourceKey
  let target ← readInt row.1.targetKey
  some (toLex (source, toLex (target, row.2)))

/-- `_relations`. -/
def Database.relations (ticketIds : List ℤ) : List Relation :=
  sortedSet ((chunks chunk (sortedSet ticketIds)).flatMap fun ids ↦
    (db.selectLinks (ids.map intText)).filterMap relationOf)

def Relation.source (r : Relation) : ℤ := (ofLex r).1

def Relation.target (r : Relation) : ℤ := (ofLex (ofLex r).2).1

def Relation.linkType (r : Relation) : Text := (ofLex (ofLex r).2).2

/-- The variables of the walk. -/
structure Walk where
  nodes : List GraphNode
  ticketDepth : List (ℤ × ℕ)
  unreadable : List ℤ
  edges : List GraphEdge
  frontier : List ℤ
  truncated : Bool

def ticketNode (id : ℤ) (depth : ℕ) (facts : TicketFacts) : GraphNode :=
  { key := .ticket id, kind := .ticket, depth, number := facts.tn, title := facts.title,
    state := some facts.state, stateType := some facts.stateType }

def ciNode (ci : CiSummary) (depth : ℕ) : GraphNode :=
  { key := .ci ci.ref, kind := .ci, depth, number := ci.number, title := ci.name,
    className := some ci.className, incidentState := ci.incidentState.map (·.name),
    incidentFunctionality := ci.incidentState.bind (·.functionality) }

/-- `edges.setdefault`. -/
def setEdge (edges : List GraphEdge) (edge : GraphEdge) : List GraphEdge :=
  if edges.any fun e ↦ e.source = edge.source ∧ e.target = edge.target ∧
    e.linkType = edge.linkType then edges
  else edges ++ [edge]

def addRelation (tickets : List ℤ) (edges : List GraphEdge) (r : Relation) : List GraphEdge :=
  if r.source ∈ tickets ∧ r.target ∈ tickets ∧ r.source ≠ r.target then
    setEdge edges ⟨.ticket r.source, .ticket r.target, r.linkType, .ticketTicket⟩
  else edges

namespace Walk

def start (ticketId : ℤ) (facts : TicketFacts) : Walk where
  nodes := [ticketNode ticketId 0 facts]
  ticketDepth := [(ticketId, 0)]
  unreadable := []
  edges := []
  frontier := [ticketId]
  truncated := false

def tickets (w : Walk) : List ℤ := w.ticketDepth.map Prod.fst

def keys (w : Walk) : List NodeKey := w.nodes.map (·.key)

def addTicket (w : Walk) (level : ℕ) (id : ℤ) (facts : TicketFacts) : Walk :=
  { w with
    nodes := w.nodes ++ [ticketNode id level facts]
    ticketDepth := w.ticketDepth ++ [(id, level)]
    frontier := w.frontier ++ [id] }

/-- The tickets found at a level, until the nodes are used up. -/
def addTickets (facts : List (ℤ × TicketFacts)) (maxNodes level : ℕ) : List ℤ → Walk → Walk
  | [], w => w
  | other :: fresh, w =>
    match facts.lookup other with
    | none => addTickets facts maxNodes level fresh w
    | some found =>
      if maxNodes ≤ w.nodes.length then { w with truncated := true }
      else addTickets facts maxNodes level fresh (w.addTicket level other found)

def fresh (w : Walk) (relations : List Relation) : List ℤ :=
  sortedSet ((relations.flatMap fun r ↦ [r.source, r.target]).filter fun other ↦
    other ∉ w.tickets ∧ other ∉ w.unreadable)

/-- One level of the walk. -/
def expand (w : Walk) (maxNodes level : ℕ) : Walk :=
  let relations := db.relations w.frontier
  let fresh := w.fresh relations
  let facts := db.readableTickets fresh
  let unreadable := w.unreadable ++ fresh.filter fun o ↦ (facts.lookup o).isNone
  let w := addTickets facts maxNodes level fresh { w with unreadable, frontier := [] }
  { w with edges := relations.foldl (addRelation w.tickets) w.edges }

def levels (maxNodes : ℕ) : ℕ → ℕ → Walk → Walk
  | 0, _, w => w
  | n + 1, level, w =>
    if w.frontier = [] then w else levels maxNodes n (level + 1) (w.expand db maxNodes level)

/-- The edges between tickets of the last level. -/
def close (w : Walk) : Walk :=
  if 1 < w.ticketDepth.length ∧ w.frontier ≠ [] then
    { w with edges := (db.relations w.frontier).foldl (addRelation w.tickets) w.edges }
  else w

def ciEdge (ticketId : ℤ) (link : CiTicketLink) : GraphEdge :=
  if link.direction = .target then
    ⟨.ci link.ci.ref, .ticket ticketId, link.linkType, .ticketCi⟩
  else ⟨.ticket ticketId, .ci link.ci.ref, link.linkType, .ticketCi⟩

def addCi (maxNodes : ℕ) (w : Walk) (ticketId : ℤ) (link : CiTicketLink) : Walk :=
  if .ci link.ci.ref ∈ w.keys then { w with edges := setEdge w.edges (ciEdge ticketId link) }
  else if maxNodes ≤ w.nodes.length then { w with truncated := true }
  else
    { w with
      nodes := w.nodes ++ [ciNode link.ci ((w.ticketDepth.lookup ticketId).getD 0)]
      edges := setEdge w.edges (ciEdge ticketId link) }

/-- The links of the tickets in the order of their ids. -/
def linksInOrder (links : List (ℤ × List CiTicketLink)) : List (ℤ × CiTicketLink) :=
  (sortedSet (links.map Prod.fst)).flatMap fun tid ↦
    ((links.lookup tid).getD []).map fun link ↦ (tid, link)

/-- `_attach_cis`. -/
def attachCis (maxNodes : ℕ) (w : Walk) : Walk :=
  match db.ciProvider with
  | none => w
  | some ticketLinks =>
    match ticketLinks (sortedSet w.tickets) with
    | none => w
    | some links =>
      (linksInOrder links).foldl (fun w item ↦ w.addCi maxNodes item.1 item.2) w

end Walk

def GraphNode.sortKey (n : GraphNode) : Bool ×ₗ (ℕ ×ₗ Text) :=
  toLex (decide (n.kind ≠ .ticket), toLex (n.depth, n.key.text))

def GraphEdge.sortKey (e : GraphEdge) : Text ×ₗ (Text ×ₗ (Text ×ₗ Text)) :=
  toLex (e.kind.text, toLex (e.source.text, toLex (e.target.text, e.linkType)))

def linkGraph (ticketId depth maxNodes : ℤ) : Except TicketNotReadable LinkGraph :=
  let depth := (max 1 (min depth maxDepth)).toNat
  let maxNodes := (max 2 maxNodes).toNat
  match (db.readableTickets [ticketId]).lookup ticketId with
  | none => .error ⟨ticketId⟩
  | some facts =>
    let w := ((Walk.start ticketId facts).levels db maxNodes depth 1).close db
    let w := w.attachCis db maxNodes
    .ok ⟨.ticket ticketId, w.nodes.mergeSort fun n n' ↦ n.sortKey ≤ n'.sortKey,
      w.edges.mergeSort fun e e' ↦ e.sortKey ≤ e'.sortKey, w.truncated⟩

end Tiqora.Itsm.Links
