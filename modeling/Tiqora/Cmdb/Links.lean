import Tiqora.Foundation.Reach
import Tiqora.Foundation.Tables

namespace Tiqora.Cmdb

open Foundation

inductive Propagation
  | none | source | target | both
  deriving DecidableEq

structure LinkType where
  pointed : Bool
  propagation : Propagation
  valid : Bool
  deriving DecidableEq

/-- How a propagating link type passes an incident on. -/
structure Propagating where
  propagation : Propagation
  pointed : Bool

/-- The pairs `(u, v)` of a link between two CIs for which an incident at `u` warns `v`. -/
def Propagating.ciEdges (p : Propagating) (source target : ℕ) : List (ℕ × ℕ) :=
  if p.pointed = false then
    if p.propagation = .source ∨ p.propagation = .both then [(target, source), (source, target)]
    else []
  else
    (if p.propagation = .source ∨ p.propagation = .both then [(target, source)] else []) ++
      if p.propagation = .target ∨ p.propagation = .both then [(source, target)] else []

/-- A row of the general catalog; `incidentState` if it is of that class. -/
structure CatalogItem where
  id : ℕ
  incidentState : Bool
  functionality : Option String
  valid : Bool
  deriving DecidableEq

/-- The link types by name and the catalog in the order of position and id. -/
structure Config where
  linkType : String → Option LinkType
  catalog : List CatalogItem
  propagationNodeCap : ℕ
  ids : (catalog.map (·.id)).Nodup

structure States where
  incidentIds : List ℕ
  warningId : ℕ

namespace Config

variable (cfg : Config)

def item (id : ℕ) : Option CatalogItem := cfg.catalog.find? (·.id = id)

def functionality (id : ℕ) : Option String := (cfg.item id).bind (·.functionality)

def incidentIds : List ℕ :=
  (cfg.catalog.filter fun i ↦ i.incidentState && i.functionality = some "incident").map (·.id)

def warningId : Option ℕ :=
  (cfg.catalog.find? fun i ↦ i.incidentState && i.functionality = some "warning" && i.valid).map
    (·.id)

def propagating (name : String) : Option Propagating :=
  match cfg.linkType name with
  | some t =>
    if t.valid = true ∧ t.propagation ≠ .none then some ⟨t.propagation, t.pointed⟩ else none
  | none => none

end Config

/-- One end of a link. The key of a CI is its id in decimal digits. -/
inductive LinkEnd
  | ci (id : ℕ)
  | ticket (id : ℕ)
  | service (id : ℕ)
  | kbArticle (id : ℕ)
  | customerUser (login : String)
  | customerCompany (customerId : String)
  deriving DecidableEq

def LinkEnd.ciId : LinkEnd → Option ℕ
  | .ci id => some id
  | _ => none

structure LinkRow where
  source : LinkEnd
  target : LinkEnd
  linkType : String
  deriving DecidableEq

structure CiRow where
  incidentStateId : ℕ
  curIncidentStateId : ℕ
  lockVersion : ℕ
  changedAt : ℕ
  deriving DecidableEq

structure Store where
  cis : Table ℕ CiRow
  links : Table ℕ LinkRow
  nextCi : ℕ
  nextLink : ℕ
  firstCi : 0 < nextCi
  ciIds : ∀ r ∈ cis.rows, 0 < r.1 ∧ r.1 < nextCi
  linkIds : ∀ r ∈ links.rows, r.1 < nextLink
  ends : ∀ r ∈ links.rows, ∀ id, r.2.source = .ci id ∨ r.2.target = .ci id → cis.Has id
  deriving DecidableEq

/-- The ends and the type of a link between two CIs. -/
def LinkRow.ciLink (l : LinkRow) : Option (ℕ × ℕ × String) :=
  match l.source, l.target with
  | .ci a, .ci b => some (a, b, l.linkType)
  | _, _ => none

def Config.edgesOf (cfg : Config) (l : ℕ × ℕ × String) : List (ℕ × ℕ) :=
  match cfg.propagating l.2.2 with
  | some p => p.ciEdges l.1 l.2.1
  | none => []

/-- The links between CIs that touch one of them, only those of the types that propagate. -/
def ciNeighbours (cfg : Config) (links : List LinkRow) (ids : Finset ℕ) :
    List (ℕ × ℕ × String) :=
  (links.filterMap LinkRow.ciLink).filter fun l ↦
    (cfg.propagating l.2.2).isSome && (l.1 ∈ ids || l.2.1 ∈ ids)

variable {cfg : Config}

theorem mem_ciEdges {p : Propagating} {a b : ℕ} {e : ℕ × ℕ} (h : e ∈ p.ciEdges a b) :
    e = (a, b) ∨ e = (b, a) := by
  rw [Propagating.ciEdges] at h
  split at h
  · split at h
    · rcases List.mem_cons.1 h with rfl | h
      · exact .inr rfl
      · exact .inl (List.mem_singleton.1 h)
    · cases h
  · rcases List.mem_append.1 h with h | h <;> split at h
    · exact .inr (List.mem_singleton.1 h)
    · cases h
    · exact .inl (List.mem_singleton.1 h)
    · cases h

theorem mem_edgesOf {l : ℕ × ℕ × String} {e : ℕ × ℕ} (h : e ∈ cfg.edgesOf l) :
    (cfg.propagating l.2.2).isSome = true ∧ (e = (l.1, l.2.1) ∨ e = (l.2.1, l.1)) := by
  rw [Config.edgesOf] at h
  split at h
  · rename_i p hp
    exact ⟨by rw [hp]; rfl, mem_ciEdges h⟩
  · cases h

/-- The graph that the links span. -/
def graph (cfg : Config) (links : List LinkRow) : EdgeSource ℕ where
  edges := ((links.filterMap LinkRow.ciLink).flatMap cfg.edgesOf).toFinset
  load ids := ((ciNeighbours cfg links ids).flatMap cfg.edgesOf).toFinset
  mem_load ids e := by
    simp only [List.mem_toFinset, List.mem_flatMap, ciNeighbours, List.mem_filter,
      Bool.and_eq_true, Bool.or_eq_true, decide_eq_true_eq]
    constructor
    · rintro ⟨l, ⟨hl, -, hids⟩, he⟩
      refine ⟨⟨l, hl, he⟩, ?_⟩
      rcases (mem_edgesOf he).2 with rfl | rfl
      · exact hids
      · exact hids.symm
    · rintro ⟨⟨l, hl, he⟩, hids⟩
      obtain ⟨hp, hends⟩ := mem_edgesOf he
      refine ⟨l, ⟨hl, hp, ?_⟩, he⟩
      rcases hends with rfl | rfl
      · exact hids
      · exact hids.symm

namespace Store

def linkRows (s : Store) : List LinkRow := s.links.rows.map (·.2)

def Edge (cfg : Config) (s : Store) (u v : ℕ) : Prop := (graph cfg s.linkRows).Edge u v

instance (cfg : Config) (s : Store) (u v : ℕ) : Decidable (s.Edge cfg u v) :=
  inferInstanceAs (Decidable (_ ∈ _))

theorem edge_iff {s : Store} {u v : ℕ} : s.Edge cfg u v ↔
    ∃ r ∈ s.links.rows, ∃ l, r.2.ciLink = some l ∧ (u, v) ∈ cfg.edgesOf l := by
  simp only [Edge, EdgeSource.Edge, graph, linkRows, List.mem_toFinset, List.mem_flatMap,
    List.mem_filterMap, List.mem_map]
  constructor
  · rintro ⟨l, ⟨row, ⟨r, hr, rfl⟩, hl⟩, he⟩
    exact ⟨r, hr, l, hl, he⟩
  · rintro ⟨r, hr, l, hl, he⟩
    exact ⟨l, ⟨r.2, ⟨r, hr, rfl⟩, hl⟩, he⟩

end Store

end Tiqora.Cmdb
