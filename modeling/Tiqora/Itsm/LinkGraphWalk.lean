import Tiqora.Foundation.Dicts
import Tiqora.Foundation.Layers
import Tiqora.Itsm.LinkGraph

namespace Tiqora.Itsm.Links

open Foundation

section Keys

theorem intText_injective : Function.Injective intText := fun a b h ↦ by
  rw [← signedValue_intText a, h, signedValue_intText]

end Keys

variable {db : Database}

namespace Database

/-- The links between tickets carry the ids of tickets, as they are written. -/
def Keyed (db : Database) : Prop := ∀ row ∈ db.linkRelation,
  db.objectName row.sourceObject = some "Ticket".toList → row.targetObject = row.sourceObject →
    ∃ source target : ℤ, row.sourceKey = intText source ∧ row.targetKey = intText target

/-- A valid link from a ticket to a ticket. -/
def TicketLink (db : Database) (source target : ℤ) (type : Text) : Prop :=
  ∃ row ∈ db.linkRelation, db.objectName row.sourceObject = some "Ticket".toList ∧
    db.stateName row.state = some "Valid".toList ∧ row.targetObject = row.sourceObject ∧
    db.typeName row.type = some type ∧ row.sourceKey = intText source ∧
    row.targetKey = intText target

theorem mem_selectLinks {keys : List Text} {row : LinkRow} {type : Text} :
    (row, type) ∈ db.selectLinks keys ↔ row ∈ db.linkRelation ∧
      db.objectName row.sourceObject = some "Ticket".toList ∧
      db.stateName row.state = some "Valid".toList ∧ row.targetObject = row.sourceObject ∧
      (row.sourceKey ∈ keys ∨ row.targetKey ∈ keys) ∧ db.typeName row.type = some type := by
  rw [selectLinks, List.mem_filterMap]
  constructor
  · rintro ⟨row', hrow, h⟩
    split at h
    · next hselect =>
      obtain ⟨name, hname, heq⟩ := Option.map_eq_some_iff.1 h
      cases heq
      exact ⟨hrow, hselect.1, hselect.2.1, hselect.2.2.1, hselect.2.2.2, hname⟩
    · cases h
  · rintro ⟨hrow, hobject, hstate, htarget, hkeys, hname⟩
    exact ⟨row, hrow, by rw [if_pos ⟨hobject, hstate, htarget, hkeys⟩, hname]; rfl⟩

/-- The query finds the links at the tickets, each once. -/
theorem mem_relations (hkeyed : db.Keyed) {ids : List ℤ} {r : Relation} :
    r ∈ db.relations ids ↔ db.TicketLink r.source r.target r.linkType ∧
      (r.source ∈ ids ∨ r.target ∈ ids) := by
  have hmem : ∀ {c : List ℤ} {key : Text} {id : ℤ}, key = intText id →
      (key ∈ c.map intText ↔ id ∈ c) := fun hkey ↦ by
    rw [hkey, List.mem_map_of_injective intText_injective]
  have hids : ∀ {id : ℤ}, id ∈ ids ↔ ∃ c ∈ chunks chunk (sortedSet ids), id ∈ c := by
    intro id
    rw [← List.mem_flatten, mem_flatten_chunks (by decide : 0 < chunk), mem_sortedSet]
  rw [relations, mem_sortedSet, List.mem_flatMap]
  constructor
  · rintro ⟨c, hc, hr⟩
    obtain ⟨⟨row, type⟩, hrow, hr⟩ := List.mem_filterMap.1 hr
    obtain ⟨hstored, hobject, hstate, htarget, hkeys, hname⟩ := mem_selectLinks.1 hrow
    obtain ⟨source, target, hsource, htargetKey⟩ := hkeyed row hstored hobject htarget
    rw [relationOf, hsource, htargetKey, readInt_intText, readInt_intText] at hr
    cases hr
    refine ⟨⟨row, hstored, hobject, hstate, htarget, hname, hsource, htargetKey⟩, ?_⟩
    exact hkeys.imp (fun h ↦ hids.2 ⟨c, hc, (hmem hsource).1 h⟩)
      fun h ↦ hids.2 ⟨c, hc, (hmem htargetKey).1 h⟩
  · rintro ⟨⟨row, hstored, hobject, hstate, htarget, hname, hsource, htargetKey⟩, hends⟩
    have hread : relationOf (row, r.linkType) = some r := by
      rw [relationOf, hsource, htargetKey, readInt_intText, readInt_intText]
      rfl
    rw [hids, hids] at hends
    rcases hends with ⟨c, hc, hend⟩ | ⟨c, hc, hend⟩
    · exact ⟨c, hc, List.mem_filterMap.2 ⟨_, mem_selectLinks.2 ⟨hstored, hobject, hstate, htarget,
        .inl ((hmem hsource).2 hend), hname⟩, hread⟩⟩
    · exact ⟨c, hc, List.mem_filterMap.2 ⟨_, mem_selectLinks.2 ⟨hstored, hobject, hstate, htarget,
        .inr ((hmem htargetKey).2 hend), hname⟩, hread⟩⟩

/-- The tickets that the user reads, joined by their links. -/
def graph (db : Database) : SimpleGraph ℤ where
  Adj a b := a ≠ b ∧ (db.readable a).isSome ∧ (db.readable b).isSome ∧
    ∃ type, db.TicketLink a b type ∨ db.TicketLink b a type
  symm := ⟨fun _ _ ⟨hne, ha, hb, type, hlink⟩ ↦ ⟨hne.symm, hb, ha, type, hlink.symm⟩⟩
  loopless := ⟨fun _ h ↦ h.1 rfl⟩

theorem readable_of_edist {root t : ℤ} {n : ℕ} (hroot : (db.readable root).isSome)
    (h : db.graph.edist root t ≤ n) : (db.readable t).isSome := by
  obtain ⟨m, hm⟩ := ENat.ne_top_iff_exists.1 (ne_top_of_le_ne_top (ENat.natCast_ne_top n) h)
  cases m with
  | zero => exact SimpleGraph.edist_eq_zero_iff.1 hm.symm ▸ hroot
  | succ m =>
    obtain ⟨-, y, -, hadj⟩ := edist_eq_succ_iff.1 hm.symm
    exact hadj.2.2.1

theorem lookup_readableTickets {ids : List ℤ} {id : ℤ} (h : id ∈ ids) :
    (db.readableTickets ids).lookup id = db.readable id := by
  rw [readableTickets, lookup_filterMap, if_pos (mem_sortedSet.2 h)]

end Database

section Edges

variable {edges : List GraphEdge} {edge e : GraphEdge} {a b : NodeKey} {type : Text}
  {tickets : List ℤ} {relations : List Relation}

def HasEdge (edges : List GraphEdge) (a b : NodeKey) (type : Text) : Prop :=
  ∃ e ∈ edges, e.source = a ∧ e.target = b ∧ e.linkType = type

/-- The kind that the ends of an edge give it. -/
def kindOf : NodeKey → NodeKey → EdgeKind
  | .ticket _, .ticket _ => .ticketTicket
  | _, _ => .ticketCi

/-- Edges of the kinds of their ends, one for each pair of ends and type. -/
structure Distinct (edges : List GraphEdge) : Prop where
  kind : ∀ e ∈ edges, e.kind = kindOf e.source e.target
  nodup : (edges.map fun e ↦ (e.source, e.target, e.linkType)).Nodup

theorem any_setEdge : (edges.any fun e ↦ e.source = edge.source ∧ e.target = edge.target ∧
    e.linkType = edge.linkType) = true ↔ HasEdge edges edge.source edge.target edge.linkType := by
  simp only [List.any_eq_true, decide_eq_true_eq, HasEdge]

theorem hasEdge_setEdge : HasEdge (setEdge edges edge) a b type ↔ HasEdge edges a b type ∨
    (edge.source = a ∧ edge.target = b ∧ edge.linkType = type) := by
  rw [setEdge]
  split
  · next hany =>
    refine ⟨.inl, fun h ↦ h.elim id ?_⟩
    rintro ⟨rfl, rfl, rfl⟩
    exact any_setEdge.1 hany
  · simp only [HasEdge, List.mem_append, List.mem_singleton, or_and_right, exists_or,
      exists_eq_left]

theorem Distinct.setEdge (h : Distinct edges) (hkind : edge.kind = kindOf edge.source edge.target) :
    Distinct (setEdge edges edge) := by
  rw [Links.setEdge]
  split
  · exact h
  · next hany =>
    refine ⟨fun e he ↦ ?_, ?_⟩
    · rcases List.mem_append.1 he with he | he
      · exact h.kind e he
      · exact List.mem_singleton.1 he ▸ hkind
    · rw [List.map_append, List.map_singleton, ← List.concat_eq_append, List.nodup_concat]
      refine ⟨fun hmem ↦ hany (any_setEdge.2 ?_), h.nodup⟩
      obtain ⟨e, he, heq⟩ := List.mem_map.1 hmem
      obtain ⟨hsource, htarget, htype⟩ : e.source = edge.source ∧ e.target = edge.target ∧
          e.linkType = edge.linkType := by simpa only [Prod.mk.injEq] using heq
      exact ⟨e, he, hsource, htarget, htype⟩

theorem Distinct.addRelations (h : Distinct edges) :
    Distinct (relations.foldl (addRelation tickets) edges) := by
  induction relations generalizing edges with
  | nil => exact h
  | cons r relations ih =>
    refine ih ?_
    rw [addRelation]
    split
    · exact h.setEdge rfl
    · exact h

theorem hasEdge_addRelations : HasEdge (relations.foldl (addRelation tickets) edges) a b type ↔
    HasEdge edges a b type ∨ ∃ r ∈ relations, r.source ∈ tickets ∧ r.target ∈ tickets ∧
      r.source ≠ r.target ∧ .ticket r.source = a ∧ .ticket r.target = b ∧ r.linkType = type := by
  induction relations generalizing edges with
  | nil => simp only [List.foldl_nil, List.not_mem_nil, false_and, exists_false, or_false]
  | cons r relations ih =>
    rw [List.foldl_cons, ih, List.exists_mem_cons_iff, ← or_assoc]
    refine or_congr_left ?_
    rw [addRelation]
    split
    · next hends =>
      rw [hasEdge_setEdge]
      simp only [hends.1, hends.2.1, hends.2.2, ne_eq, not_false_eq_true, true_and]
    · next hends =>
      refine ⟨.inl, fun h ↦ h.elim id fun h ↦ absurd ⟨h.1, h.2.1, h.2.2.1⟩ hends⟩

end Edges

namespace Walk

section Levels

variable {root : ℤ} {maxNodes level : ℕ} {w : Walk}

def withTickets (w : Walk) (level : ℕ) (found : List (ℤ × TicketFacts)) : Walk :=
  { w with
    nodes := w.nodes ++ found.map fun p ↦ ticketNode p.1 level p.2
    ticketDepth := w.ticketDepth ++ found.map fun p ↦ (p.1, level)
    frontier := w.frontier ++ found.map Prod.fst }

/-- As many of the tickets found as there is room for. -/
theorem addTickets_eq (facts : List (ℤ × TicketFacts)) (fresh : List ℤ) (w : Walk) :
    addTickets facts maxNodes level fresh w =
      let found := fresh.filterMap fun o ↦ (facts.lookup o).map fun f ↦ (o, f)
      { w.withTickets level (found.take (maxNodes - w.nodes.length)) with
        truncated := w.truncated || decide (maxNodes - w.nodes.length < found.length) } := by
  induction fresh generalizing w with
  | nil => simp [addTickets, withTickets]
  | cons other fresh ih =>
    rw [addTickets]
    cases hfacts : facts.lookup other with
    | none =>
      rw [List.filterMap_cons_none (by rw [hfacts]; rfl)]
      exact ih w
    | some found =>
      rw [List.filterMap_cons_some (by rw [hfacts]; rfl)]
      dsimp only
      split
      · next hfull =>
        rw [Nat.sub_eq_zero_of_le hfull]
        simp [withTickets]
      · next hroom =>
        obtain ⟨room, hroom⟩ : ∃ room, maxNodes - w.nodes.length = room + 1 :=
          ⟨maxNodes - w.nodes.length - 1, by omega⟩
        have hless : maxNodes - (w.addTicket level other found).nodes.length = room := by
          rw [addTicket, List.length_append, List.length_singleton]
          omega
        rw [ih, hless, hroom]
        simp [withTickets, addTicket]

/-- The readable tickets at the other ends of the links at the frontier. -/
def found (db : Database) (w : Walk) : List (ℤ × TicketFacts) :=
  (w.fresh (db.relations w.frontier)).filterMap fun o ↦ (db.readable o).map fun f ↦ (o, f)

theorem found_eq : (w.fresh (db.relations w.frontier)).filterMap (fun o ↦
    ((db.readableTickets (w.fresh (db.relations w.frontier))).lookup o).map fun f ↦ (o, f)) =
      w.found db :=
  List.filterMap_congr fun o ho ↦ by rw [Database.lookup_readableTickets ho]

theorem mem_found {p : ℤ × TicketFacts} : p ∈ w.found db ↔ db.readable p.1 = some p.2 ∧
    p.1 ∉ w.tickets ∧ p.1 ∉ w.unreadable ∧
    ∃ r ∈ db.relations w.frontier, p.1 = r.source ∨ p.1 = r.target := by
  rw [found, List.mem_filterMap]
  constructor
  · rintro ⟨o, ho, h⟩
    obtain ⟨facts, hfacts, rfl⟩ := Option.map_eq_some_iff.1 h
    rw [fresh, mem_sortedSet, List.mem_filter, List.mem_flatMap, decide_eq_true_eq] at ho
    obtain ⟨⟨r, hr, hend⟩, hnot⟩ := ho
    simp only [List.mem_cons, List.not_mem_nil, or_false] at hend
    exact ⟨hfacts, hnot.1, hnot.2, r, hr, hend⟩
  · rintro ⟨hfacts, hticket, hhidden, r, hr, hend⟩
    refine ⟨p.1, ?_, by rw [hfacts]; rfl⟩
    rw [fresh, mem_sortedSet, List.mem_filter, List.mem_flatMap, decide_eq_true_eq]
    refine ⟨⟨r, hr, ?_⟩, hticket, hhidden⟩
    simp only [List.mem_cons, List.not_mem_nil, or_false]
    exact hend

theorem nodup_found : ((w.found db).map Prod.fst).Nodup := by
  have hself : ∀ {o b : ℤ}, b ∈ ((db.readable o).map fun f ↦ (o, f)).map Prod.fst → b = o := by
    intro o b hb
    rw [Option.map_map] at hb
    obtain ⟨_, -, rfl⟩ := Option.map_eq_some_iff.1 hb
    rfl
  rw [found, List.map_filterMap]
  exact (nodup_sortedSet _).filterMap fun o o' b hb hb' ↦ (hself hb).symm.trans (hself hb')

variable (db root maxNodes) in
/-- The tickets of the walk behind a level. -/
structure Walked (level : ℕ) (w : Walk) : Prop where
  nodes : w.nodes.map (fun n ↦ (n.key, n.depth)) = w.ticketDepth.map fun p ↦ (.ticket p.1, p.2)
  facts : ∀ n ∈ w.nodes, ∃ t facts, db.readable t = some facts ∧ n = ticketNode t n.depth facts
  nodup : w.tickets.Nodup
  distance : ∀ p ∈ w.ticketDepth, db.graph.edist root p.1 = p.2
  within : ∀ p ∈ w.ticketDepth, p.2 ≤ level
  hidden : ∀ t ∈ w.unreadable, db.readable t = none
  bounded : w.nodes.length ≤ maxNodes
  cut : w.truncated = true → maxNodes ≤ w.nodes.length ∧
    ∃ t, db.graph.edist root t ≤ level ∧ t ∉ w.tickets
  whole : w.truncated = false → ∀ t, db.graph.edist root t ≤ level → t ∈ w.tickets
  frontier : w.truncated = false → ∀ t, t ∈ w.frontier ↔ db.graph.edist root t = level

theorem mem_tickets {t : ℤ} : t ∈ w.tickets ↔ ∃ d, (t, d) ∈ w.ticketDepth := by
  simp only [tickets, List.mem_map, Prod.exists, exists_and_right, exists_eq_right]

theorem Walked.edist_le (h : Walked db root maxNodes level w) {t : ℤ} (ht : t ∈ w.tickets) :
    db.graph.edist root t ≤ level := by
  obtain ⟨d, hd⟩ := mem_tickets.1 ht
  rw [h.distance _ hd]
  exact Nat.cast_le.2 (h.within _ hd)

theorem Walked.length (h : Walked db root maxNodes level w) :
    w.nodes.length = w.ticketDepth.length := by
  have hlength := congrArg List.length h.nodes
  rwa [List.length_map, List.length_map] at hlength

theorem Walked.subset_frontier (h : Walked db root maxNodes level w) (hw : w.truncated = false)
    {t : ℤ} (ht : t ∈ w.frontier) : t ∈ w.tickets :=
  h.whole hw t (((h.frontier hw t).1 ht).le)

theorem Walked.start (hmax : 1 ≤ maxNodes) {facts : TicketFacts}
    (hroot : db.readable root = some facts) :
    Walked db root maxNodes 0 (.start root facts) where
  nodes := rfl
  facts n hn := ⟨root, facts, hroot, List.mem_singleton.1 hn ▸ rfl⟩
  nodup := List.nodup_singleton root
  distance p hp := by
    rw [List.mem_singleton.1 hp]
    exact SimpleGraph.edist_self
  within p hp := by rw [List.mem_singleton.1 hp]
  hidden t ht := absurd ht List.not_mem_nil
  bounded := hmax
  cut h := absurd h Bool.false_ne_true
  whole _ t ht := by
    rw [Nat.cast_zero, nonpos_iff_eq_zero, SimpleGraph.edist_eq_zero_iff] at ht
    exact List.mem_singleton.2 ht.symm
  frontier _ t := by
    rw [Nat.cast_zero, SimpleGraph.edist_eq_zero_iff, eq_comm]
    exact List.mem_singleton

/-- Where nothing was cut, the next level is found. -/
theorem Walked.found (h : Walked db root maxNodes level w) (hkeyed : db.Keyed)
    (hroot : (db.readable root).isSome) (hw : w.truncated = false) {p : ℤ × TicketFacts} :
    p ∈ w.found db ↔ db.readable p.1 = some p.2 ∧
      db.graph.edist root p.1 = (level + 1 : ℕ) := by
  rw [mem_found]
  refine and_congr_right fun hfacts ↦ ?_
  rw [edist_eq_succ_iff]
  constructor
  · rintro ⟨hnew, -, r, hr, hend⟩
    refine ⟨fun hle ↦ hnew (h.whole hw _ hle), ?_⟩
    obtain ⟨hlink, hfrontier⟩ := (Database.mem_relations hkeyed).1 hr
    obtain ⟨y, hy, hjoined⟩ : ∃ y ∈ w.frontier,
        db.TicketLink y p.1 r.linkType ∨ db.TicketLink p.1 y r.linkType := by
      rcases hend with hend | hend <;> rw [hend] at hnew ⊢
      · exact ⟨_, hfrontier.resolve_left fun hmem ↦ hnew (h.subset_frontier hw hmem), .inr hlink⟩
      · exact ⟨_, hfrontier.resolve_right fun hmem ↦ hnew (h.subset_frontier hw hmem), .inl hlink⟩
    have hlevel := (h.frontier hw y).1 hy
    refine ⟨y, hlevel, ?_, Database.readable_of_edist hroot hlevel.le, ?_, _, hjoined⟩
    · rintro rfl
      exact hnew (h.subset_frontier hw hy)
    · rw [hfacts]
      rfl
  · rintro ⟨hnot, y, hy, -, -, -, type, hlink⟩
    refine ⟨fun hmem ↦ hnot (h.edist_le hmem), fun hmem ↦ ?_, ?_⟩
    · rw [h.hidden _ hmem] at hfacts
      cases hfacts
    · have hfrontier := (h.frontier hw y).2 hy
      rcases hlink with hlink | hlink
      · exact ⟨toLex (y, toLex (p.1, type)),
          (Database.mem_relations hkeyed).2 ⟨hlink, .inl hfrontier⟩, .inr rfl⟩
      · exact ⟨toLex (p.1, toLex (y, type)),
          (Database.mem_relations hkeyed).2 ⟨hlink, .inr hfrontier⟩, .inl rfl⟩

/-- The edges are not about the tickets. -/
theorem Walked.withEdges (h : Walked db root maxNodes level w) (edges : List GraphEdge) :
    Walked db root maxNodes level { w with edges } :=
  ⟨h.nodes, h.facts, h.nodup, h.distance, h.within, h.hidden, h.bounded, h.cut, h.whole,
    h.frontier⟩

/-- The tickets that are looked up once. -/
def lookedUp (db : Database) (w : Walk) : List ℤ :=
  let fresh := w.fresh (db.relations w.frontier)
  w.unreadable ++ fresh.filter fun o ↦ ((db.readableTickets fresh).lookup o).isNone

/-- The walk with the tickets of a level. -/
def next (db : Database) (maxNodes level : ℕ) (w : Walk) : Walk :=
  { ({ w with unreadable := w.lookedUp db, frontier := [] } : Walk).withTickets level
      ((w.found db).take (maxNodes - w.nodes.length)) with
    truncated := w.truncated || decide (maxNodes - w.nodes.length < (w.found db).length) }

theorem expand_eq : w.expand db maxNodes level =
    { w.next db maxNodes level with
      edges := (db.relations w.frontier).foldl (addRelation (w.next db maxNodes level).tickets)
        w.edges } := by
  simp only [expand, addTickets_eq, found_eq]
  rfl

theorem mem_lookedUp {t : ℤ} (h : t ∈ w.lookedUp db) :
    t ∈ w.unreadable ∨ db.readable t = none := by
  refine (List.mem_append.1 h).imp_right fun hmem ↦ ?_
  obtain ⟨hfresh, hnone⟩ := List.mem_filter.1 hmem
  rw [Database.lookup_readableTickets hfresh] at hnone
  exact Option.isNone_iff_eq_none.1 hnone

theorem tickets_next (level : ℕ) : (w.next db maxNodes level).tickets =
    w.tickets ++ ((w.found db).take (maxNodes - w.nodes.length)).map Prod.fst := by
  simp only [tickets, next, withTickets, List.map_append, List.map_map]
  rfl

theorem length_next (level : ℕ) : (w.next db maxNodes level).nodes.length =
    w.nodes.length + min (maxNodes - w.nodes.length) (w.found db).length := by
  simp only [next, withTickets, List.length_append, List.length_map, List.length_take]

/-- A level behind a cut changes nothing. -/
theorem Walked.next_cut (h : Walked db root maxNodes level w) (hw : w.truncated = true) :
    Walked db root maxNodes (level + 1) (w.next db maxNodes (level + 1)) := by
  obtain ⟨hfull, t, ht, hmissing⟩ := h.cut hw
  have hroom : (w.found db).take (maxNodes - w.nodes.length) = [] := by
    rw [Nat.sub_eq_zero_of_le hfull, List.take_zero]
  have htickets : (w.next db maxNodes (level + 1)).tickets = w.tickets := by
    rw [tickets_next, hroom, List.map_nil, List.append_nil]
  have hdepth : (w.next db maxNodes (level + 1)).ticketDepth = w.ticketDepth := by
    rw [next, hroom]
    exact List.append_nil _
  have hnodes : (w.next db maxNodes (level + 1)).nodes = w.nodes := by
    rw [next, hroom]
    exact List.append_nil _
  have htruncated : (w.next db maxNodes (level + 1)).truncated = true := by
    rw [next, hw]
    rfl
  have hless : ((level : ℕ) : ℕ∞) ≤ (level + 1 : ℕ) := Nat.cast_le.2 level.le_succ
  refine ⟨?_, ?_, ?_, ?_, ?_, fun t ht ↦ ?_, ?_, fun _ ↦ ⟨?_, t, ht.trans hless, ?_⟩, ?_, ?_⟩
  · rw [hnodes, hdepth, h.nodes]
  · rw [hnodes]
    exact h.facts
  · rw [htickets]
    exact h.nodup
  · rw [hdepth]
    exact h.distance
  · rw [hdepth]
    exact fun p hp ↦ (h.within p hp).trans level.le_succ
  · exact (mem_lookedUp ht).elim (h.hidden t) id
  · rw [hnodes]
    exact h.bounded
  · rw [hnodes]
    exact hfull
  · rw [htickets]
    exact hmissing
  · rw [htruncated]
    exact nofun
  · rw [htruncated]
    exact nofun

theorem Walked.next (h : Walked db root maxNodes level w) (hkeyed : db.Keyed)
    (hroot : (db.readable root).isSome) :
    Walked db root maxNodes (level + 1) (w.next db maxNodes (level + 1)) := by
  cases hw : w.truncated with
  | true => exact h.next_cut hw
  | false =>
    have hfound := fun {p} ↦ h.found (p := p) hkeyed hroot hw
    have hnotLe : ∀ {p : ℤ × TicketFacts}, p ∈ w.found db → ¬ db.graph.edist root p.1 ≤ level := by
      intro p hp
      exact (edist_eq_succ_iff.1 (hfound.1 hp).2).1
    have hnodup : ((w.found db).map Prod.fst).Nodup := nodup_found
    have htruncated : (w.next db maxNodes (level + 1)).truncated =
        decide (maxNodes - w.nodes.length < (w.found db).length) := by
      rw [Walk.next, hw]
      rfl
    have htake : ∀ {p}, p ∈ (w.found db).take (maxNodes - w.nodes.length) → p ∈ w.found db :=
      List.mem_of_mem_take
    have hall : (w.next db maxNodes (level + 1)).truncated = false →
        (w.found db).take (maxNodes - w.nodes.length) = w.found db := by
      intro hnot
      rw [htruncated, decide_eq_false_iff_not, not_lt] at hnot
      exact List.take_of_length_le hnot
    have hnew : ∀ t, t ∈ (w.found db).map Prod.fst ↔
        db.graph.edist root t = (level + 1 : ℕ) := by
      intro t
      constructor
      · intro ht
        obtain ⟨p, hp, rfl⟩ := List.mem_map.1 ht
        exact (hfound.1 hp).2
      · intro ht
        obtain ⟨facts, hfacts⟩ := Option.isSome_iff_exists.1
          (Database.readable_of_edist hroot ht.le)
        exact List.mem_map.2 ⟨(t, facts), hfound.2 ⟨hfacts, ht⟩, rfl⟩
    refine ⟨?_, ?_, ?_, ?_, ?_, fun t ht ↦ (mem_lookedUp ht).elim (h.hidden t) id, ?_, ?_, ?_, ?_⟩
    · rw [Walk.next, withTickets, List.map_append, List.map_append, h.nodes, List.map_map, List.map_map]
      rfl
    · intro n hn
      rcases List.mem_append.1 hn with hn | hn
      · exact h.facts n hn
      · obtain ⟨p, hp, rfl⟩ := List.mem_map.1 hn
        exact ⟨p.1, p.2, (hfound.1 (htake hp)).1, rfl⟩
    · rw [tickets_next]
      refine List.nodup_append.2 ⟨h.nodup, hnodup.sublist ?_, ?_⟩
      · exact (List.take_sublist (maxNodes - w.nodes.length) (w.found db)).map Prod.fst
      · rintro t ht t' ht' rfl
        obtain ⟨p, hp, rfl⟩ := List.mem_map.1 ht'
        exact hnotLe (htake hp) (h.edist_le ht)
    · intro p hp
      rcases List.mem_append.1 hp with hp | hp
      · exact h.distance p hp
      · obtain ⟨q, hq, rfl⟩ := List.mem_map.1 hp
        exact (hfound.1 (htake hq)).2
    · intro p hp
      rcases List.mem_append.1 hp with hp | hp
      · exact (h.within p hp).trans level.le_succ
      · obtain ⟨q, -, rfl⟩ := List.mem_map.1 hp
        exact le_rfl
    · have hbounded := h.bounded
      rw [length_next]
      omega
    · intro hcut
      rw [htruncated, decide_eq_true_eq] at hcut
      have hbounded := h.bounded
      refine ⟨?_, ?_⟩
      · rw [length_next]
        omega
      · have hp := List.getElem_mem (l := w.found db) hcut
        refine ⟨_, (hfound.1 hp).2.le, ?_⟩
        rw [tickets_next, List.mem_append, not_or]
        refine ⟨fun hmem ↦ hnotLe hp (h.edist_le hmem), fun hmem ↦ ?_⟩
        have hcut' : maxNodes - w.nodes.length < ((w.found db).map Prod.fst).length := by
          rwa [List.length_map]
        have hfst : (w.found db)[maxNodes - w.nodes.length].1 =
            ((w.found db).map Prod.fst)[maxNodes - w.nodes.length] := (List.getElem_map _).symm
        rw [hfst, List.map_take] at hmem
        obtain ⟨i, hi, heq⟩ := List.mem_iff_getElem.1 hmem
        rw [List.length_take] at hi
        rw [List.getElem_take, hnodup.getElem_inj_iff] at heq
        omega
    · intro hnot t ht
      rw [tickets_next, hall hnot, List.mem_append, hnew]
      rcases ht.lt_or_eq with hlt | heq
      · rw [Nat.cast_add, Nat.cast_one] at hlt
        exact .inl (h.whole hw t (Order.le_of_lt_add_one hlt))
      · exact .inr heq
    · intro hnot t
      rw [← hnew, ← hall hnot]
      exact Iff.rfl

end Levels

section Links

variable {root : ℤ} {maxNodes level : ℕ} {w : Walk} {tickets : List ℤ}
  {edges : List GraphEdge} {relations : List Relation}

/-- The edges are links between two of the tickets. -/
def Sound (db : Database) (tickets : List ℤ) (edges : List GraphEdge) : Prop :=
  ∀ a b type, HasEdge edges a b type → ∃ s t, a = .ticket s ∧ b = .ticket t ∧ s ∈ tickets ∧
    t ∈ tickets ∧ s ≠ t ∧ db.TicketLink s t type

theorem Sound.addRelations (h : Sound db tickets edges)
    (hlinks : ∀ r ∈ relations, db.TicketLink r.source r.target r.linkType) :
    Sound db tickets (relations.foldl (addRelation tickets) edges) := by
  intro a b type hedge
  rcases hasEdge_addRelations.1 hedge with hedge | ⟨r, hr, hs, ht, hne, rfl, rfl, rfl⟩
  · exact h a b type hedge
  · exact ⟨_, _, rfl, rfl, hs, ht, hne, hlinks r hr⟩

theorem hasEdge_of_frontier (hkeyed : db.Keyed) {s t : ℤ} {type : Text}
    (hlink : db.TicketLink s t type) (hne : s ≠ t) (hs : s ∈ tickets) (ht : t ∈ tickets)
    (hfrontier : s ∈ w.frontier ∨ t ∈ w.frontier) :
    HasEdge ((db.relations w.frontier).foldl (addRelation tickets) edges)
      (.ticket s) (.ticket t) type :=
  hasEdge_addRelations.2 <| .inr ⟨toLex (s, toLex (t, type)),
    (Database.mem_relations hkeyed).2 ⟨hlink, hfrontier⟩, hs, ht, hne, rfl, rfl, rfl⟩

variable (db root) in
/-- The edges of the walk behind a level, but for those within the level. -/
structure Edged (level : ℕ) (w : Walk) : Prop where
  sound : Sound db w.tickets w.edges
  distinct : Distinct w.edges
  complete : w.truncated = false → ∀ s t type, db.TicketLink s t type → s ≠ t → s ∈ w.tickets →
    t ∈ w.tickets → (db.graph.edist root s < level ∨ db.graph.edist root t < level) →
      HasEdge w.edges (.ticket s) (.ticket t) type

theorem Edged.start {facts : TicketFacts} : Edged db root 0 (.start root facts) where
  sound _ _ _ := fun ⟨_, he, _⟩ ↦ absurd he List.not_mem_nil
  distinct := ⟨fun _ he ↦ absurd he List.not_mem_nil, List.nodup_nil⟩
  complete _ s t type hlink hne hs ht := by
    rw [Walk.tickets, Walk.start, List.map_singleton, List.mem_singleton] at hs ht
    exact absurd (hs.trans ht.symm) hne

/-- A ticket that is linked to one before a level is within the level. -/
theorem Walked.mem_of_adj (h : Walked db root maxNodes level w) (hw : w.truncated = false)
    {s t : ℤ} (hs : db.graph.edist root s < level) (hadj : db.graph.Adj s t) : t ∈ w.tickets := by
  obtain ⟨m, hm⟩ := ENat.ne_top_iff_exists.1 (ne_top_of_lt hs)
  rw [← hm, Nat.cast_lt] at hs
  exact h.whole hw t ((edist_le_of_adj hadj hm.ge).trans (Nat.cast_le.2 hs))

theorem Walked.lt_of_not_frontier (h : Walked db root maxNodes level w)
    (hw : w.truncated = false) {t : ℤ} (ht : t ∉ w.frontier)
    (hle : db.graph.edist root t ≤ level) : db.graph.edist root t < level :=
  lt_of_le_of_ne hle fun heq ↦ ht ((h.frontier hw t).2 heq)

theorem Edged.expand (e : Edged db root level w) (h : Walked db root maxNodes level w)
    (hkeyed : db.Keyed) (hroot : (db.readable root).isSome) :
    Edged db root (level + 1) (w.expand db maxNodes (level + 1)) := by
  have h' := h.next hkeyed hroot
  rw [expand_eq]
  refine ⟨Sound.addRelations (fun a b type hedge ↦ ?_) fun r hr ↦
    ((Database.mem_relations hkeyed).1 hr).1, e.distinct.addRelations, ?_⟩
  · obtain ⟨s, t, ha, hb, hs, ht, hlink⟩ := e.sound a b type hedge
    have hsub : ∀ t ∈ w.tickets, t ∈ (w.next db maxNodes (level + 1)).tickets := fun t ht ↦ by
      rw [tickets_next]
      exact List.mem_append_left _ ht
    exact ⟨s, t, ha, hb, hsub s hs, hsub t ht, hlink⟩
  · intro hnot s t type hlink hne hs ht hbefore
    have hw : w.truncated = false := (Bool.or_eq_false_iff.1 hnot).1
    by_cases hfrontier : s ∈ w.frontier ∨ t ∈ w.frontier
    · exact hasEdge_of_frontier hkeyed hlink hne hs ht hfrontier
    · rw [not_or] at hfrontier
      have hadj : db.graph.Adj s t := ⟨hne, Database.readable_of_edist hroot (h'.edist_le hs),
        Database.readable_of_edist hroot (h'.edist_le ht), type, .inl hlink⟩
      have hlt : ∀ {u}, u ∉ w.frontier → db.graph.edist root u < (level + 1 : ℕ) →
          db.graph.edist root u < level := fun {u} hu hlt ↦ by
        rw [Nat.cast_add, Nat.cast_one] at hlt
        exact h.lt_of_not_frontier hw hu (Order.le_of_lt_add_one hlt)
      refine hasEdge_addRelations.2 (.inl ?_)
      rcases hbefore with hbefore | hbefore
      · have hs' := hlt hfrontier.1 hbefore
        exact e.complete hw s t type hlink hne (h.whole hw s hs'.le) (h.mem_of_adj hw hs' hadj)
          (.inl hs')
      · have ht' := hlt hfrontier.2 hbefore
        exact e.complete hw s t type hlink hne (h.mem_of_adj hw ht' hadj.symm) (h.whole hw t ht'.le)
          (.inr ht')

theorem Walked.expand (h : Walked db root maxNodes level w) (hkeyed : db.Keyed)
    (hroot : (db.readable root).isSome) :
    Walked db root maxNodes (level + 1) (w.expand db maxNodes (level + 1)) := by
  rw [expand_eq]
  exact (h.next hkeyed hroot).withEdges _

/-- A walk whose frontier is empty has found everything. -/
theorem Walked.rest (h : Walked db root maxNodes level w) (hfrontier : w.frontier = []) :
    Walked db root maxNodes (level + 1) w := by
  have hnone : w.truncated = false → ∀ t, ¬ db.graph.edist root t = (level + 1 : ℕ) := by
    intro hw t ht
    obtain ⟨-, y, hy, -⟩ := edist_eq_succ_iff.1 ht
    have hmem := (h.frontier hw y).2 hy
    rw [hfrontier] at hmem
    cases hmem
  have hless : ((level : ℕ) : ℕ∞) ≤ (level + 1 : ℕ) := Nat.cast_le.2 level.le_succ
  refine { h with
    within := fun p hp ↦ (h.within p hp).trans level.le_succ
    cut := fun hw ↦ ?_
    whole := fun hw t ht ↦ ?_
    frontier := fun hw t ↦ ?_ }
  · obtain ⟨hfull, t, ht, hmissing⟩ := h.cut hw
    exact ⟨hfull, t, ht.trans hless, hmissing⟩
  · have hlt := lt_of_le_of_ne ht (hnone hw t)
    rw [Nat.cast_add, Nat.cast_one] at hlt
    exact h.whole hw t (Order.le_of_lt_add_one hlt)
  · rw [hfrontier]
    exact ⟨fun hmem ↦ absurd hmem List.not_mem_nil, fun ht ↦ absurd ht (hnone hw t)⟩

theorem Edged.rest (e : Edged db root level w) (h : Walked db root maxNodes level w)
    (hfrontier : w.frontier = []) : Edged db root (level + 1) w := by
  refine ⟨e.sound, e.distinct, fun hw s t type hlink hne hs ht _ ↦ ?_⟩
  refine e.complete hw s t type hlink hne hs ht (.inl ?_)
  exact h.lt_of_not_frontier hw (hfrontier ▸ List.not_mem_nil) (h.edist_le hs)

theorem Walked.levels (hkeyed : db.Keyed) (hroot : (db.readable root).isSome) {n : ℕ}
    (h : Walked db root maxNodes level w) (e : Edged db root level w) :
    Walked db root maxNodes (level + n) (w.levels db maxNodes n (level + 1)) ∧
      Edged db root (level + n) (w.levels db maxNodes n (level + 1)) := by
  induction n generalizing level w with
  | zero => exact ⟨h, e⟩
  | succ n ih =>
    rw [Walk.levels]
    have hsum : level + (n + 1) = level + 1 + n := by omega
    split
    · next hfrontier =>
      have hstill : ∀ n level, w.levels db maxNodes n level = w := by
        intro n level
        cases n with
        | zero => rfl
        | succ n => exact if_pos hfrontier
      have hrest := ih (h.rest hfrontier) (e.rest h hfrontier)
      rw [hstill] at hrest
      rwa [hsum]
    · rw [hsum]
      exact ih (h.expand hkeyed hroot) (e.expand h hkeyed hroot)

/-- The walk with the edges of the last level. -/
theorem Edged.close (e : Edged db root level w) (h : Walked db root maxNodes level w)
    (hkeyed : db.Keyed) : Walked db root maxNodes level (w.close db) ∧
      Edged db root (level + 1) (w.close db) := by
  have hmissed : w.truncated = false → ∀ {s t type}, db.TicketLink s t type → s ≠ t →
      s ∈ w.tickets → t ∈ w.tickets → s ∉ w.frontier →
        HasEdge w.edges (.ticket s) (.ticket t) type := fun hw {s t type} hlink hne hs ht hnot ↦
    e.complete hw s t type hlink hne hs ht
      (.inl (h.lt_of_not_frontier hw hnot (h.edist_le hs)))
  rw [Walk.close]
  split
  · refine ⟨h.withEdges _, e.sound.addRelations fun r hr ↦
      ((Database.mem_relations hkeyed).1 hr).1, e.distinct.addRelations, ?_⟩
    intro hw s t type hlink hne hs ht _
    by_cases hfrontier : s ∈ w.frontier
    · exact hasEdge_of_frontier hkeyed hlink hne hs ht (.inl hfrontier)
    · exact hasEdge_addRelations.2 (.inl (hmissed hw hlink hne hs ht hfrontier))
  · next hclosed =>
    refine ⟨h, e.sound, e.distinct, fun hw s t type hlink hne hs ht _ ↦ ?_⟩
    refine hmissed hw hlink hne hs ht fun hfrontier ↦ hclosed ⟨?_, List.ne_nil_of_mem hfrontier⟩
    have hpair : [s, t].Subperm w.tickets := by
      refine List.subperm_of_subset (by simp [hne]) fun u hu ↦ ?_
      rcases List.mem_cons.1 hu with rfl | hu
      · exact hs
      · exact List.mem_singleton.1 hu ▸ ht
    have hlength := hpair.length_le
    rwa [Walk.tickets, List.length_map] at hlength

end Links

end Walk

end Tiqora.Itsm.Links
