import Mathlib.Data.Finset.Card
import Mathlib.Data.Finset.Prod
import Mathlib.Logic.Relation

namespace Tiqora.Foundation

open Relation

universe u

variable {α : Type u} [DecidableEq α]

/-- A stored set of edges, of which those at given nodes can be read. -/
structure EdgeSource (α : Type u) [DecidableEq α] where
  edges : Finset (α × α)
  load : Finset α → Finset (α × α)
  mem_load : ∀ nodes e, e ∈ load nodes ↔ e ∈ edges ∧ (e.1 ∈ nodes ∨ e.2 ∈ nodes)

namespace EdgeSource

variable (G : EdgeSource α)

def Edge (u v : α) : Prop := (u, v) ∈ G.edges

def Step (reverse : Bool) (u v : α) : Prop := if reverse then G.Edge v u else G.Edge u v

def ends : Finset α := G.edges.image Prod.fst ∪ G.edges.image Prod.snd

/-- What has been read: everything at the nodes that were expanded. -/
structure Loaded where
  nodes : Finset α
  edges : Finset (α × α)
  sound : ∀ e ∈ edges, e ∈ G.edges
  complete : ∀ e ∈ G.edges, e.1 ∈ nodes ∨ e.2 ∈ nodes → e ∈ edges

end EdgeSource

variable {G : EdgeSource α}

namespace EdgeSource.Loaded

def empty (G : EdgeSource α) : G.Loaded where
  nodes := ∅
  edges := ∅
  sound e he := absurd he (Finset.notMem_empty e)
  complete e _ h := by
    rcases h with h | h <;> exact absurd h (Finset.notMem_empty _)

variable (g : G.Loaded)

/-- Nodes that were expanded before are not read again. -/
def expand (nodes : Finset α) : G.Loaded where
  nodes := g.nodes ∪ nodes
  edges := g.edges ∪ G.load (nodes \ g.nodes)
  sound e he := by
    rcases Finset.mem_union.1 he with he | he
    · exact g.sound e he
    · exact ((G.mem_load _ e).1 he).1
  complete e he h := by
    rw [Finset.mem_union]
    by_cases hold : e.1 ∈ g.nodes ∨ e.2 ∈ g.nodes
    · exact .inl (g.complete e he hold)
    · rw [not_or] at hold
      refine .inr ((G.mem_load _ e).2 ⟨he, h.imp ?_ ?_⟩) <;> intro hnode
      · exact Finset.mem_sdiff.2 ⟨(Finset.mem_union.1 hnode).resolve_left hold.1, hold.1⟩
      · exact Finset.mem_sdiff.2 ⟨(Finset.mem_union.1 hnode).resolve_left hold.2, hold.2⟩

/-- The other ends of the edges that leave the nodes, or in reverse enter them. -/
def neighbours (reverse : Bool) (nodes : Finset α) : Finset α :=
  if reverse then (g.edges.filter fun e ↦ e.2 ∈ nodes).image Prod.fst
  else (g.edges.filter fun e ↦ e.1 ∈ nodes).image Prod.snd

variable {g}

theorem step_of_mem_neighbours {reverse : Bool} {nodes : Finset α} {v : α}
    (h : v ∈ g.neighbours reverse nodes) : ∃ u ∈ nodes, G.Step reverse u v := by
  rw [neighbours] at h
  cases reverse with
  | false =>
    obtain ⟨e, he, rfl⟩ := Finset.mem_image.1 h
    obtain ⟨he, hnode⟩ := Finset.mem_filter.1 he
    exact ⟨e.1, hnode, g.sound e he⟩
  | true =>
    obtain ⟨e, he, rfl⟩ := Finset.mem_image.1 h
    obtain ⟨he, hnode⟩ := Finset.mem_filter.1 he
    exact ⟨e.2, hnode, g.sound e he⟩

theorem mem_neighbours_of_step {reverse : Bool} {nodes : Finset α} {u v : α}
    (hload : u ∈ g.nodes) (hu : u ∈ nodes) (h : G.Step reverse u v) :
    v ∈ g.neighbours reverse nodes := by
  rw [neighbours]
  cases reverse with
  | false =>
    refine Finset.mem_image.2 ⟨(u, v), Finset.mem_filter.2 ⟨?_, hu⟩, rfl⟩
    exact g.complete (u, v) h (.inl hload)
  | true =>
    refine Finset.mem_image.2 ⟨(v, u), Finset.mem_filter.2 ⟨?_, hu⟩, rfl⟩
    exact g.complete (v, u) h (.inr hload)

theorem neighbours_subset_ends (reverse : Bool) (nodes : Finset α) :
    g.neighbours reverse nodes ⊆ G.ends := by
  intro v hv
  obtain ⟨u, -, hstep⟩ := step_of_mem_neighbours hv
  rw [EdgeSource.ends, Finset.mem_union]
  cases reverse with
  | false => exact .inr (Finset.mem_image.2 ⟨(u, v), hstep, rfl⟩)
  | true => exact .inl (Finset.mem_image.2 ⟨(v, u), hstep, rfl⟩)

/-- A search shrinks what it has not visited yet. -/
theorem unvisited_lt {bound found visited : Finset α} (hsub : found ⊆ bound)
    (h : found \ visited ≠ ∅) :
    (bound \ (visited ∪ found \ visited)).card < (bound \ visited).card := by
  obtain ⟨v, hv⟩ := Finset.nonempty_iff_ne_empty.2 h
  obtain ⟨hnew, hnot⟩ := Finset.mem_sdiff.1 hv
  refine Finset.card_lt_card (Finset.ssubset_iff_of_subset ?_ |>.2 ⟨v, ?_, ?_⟩)
  · exact Finset.sdiff_subset_sdiff (Finset.Subset.refl _) Finset.subset_union_left
  · exact Finset.mem_sdiff.2 ⟨hsub hnew, hnot⟩
  · exact fun hin ↦ (Finset.mem_sdiff.1 hin).2 (Finset.mem_union_right _ hv)

end EdgeSource.Loaded

structure SearchCaps where
  nodes : Option ℕ
  depth : Option ℕ

/-- One level after the other; none if a cap is hit. -/
def searchLoop (caps : SearchCaps) (reverse : Bool) (g : G.Loaded) (visited frontier : Finset α)
    (depth : ℕ) : Option (G.Loaded × Finset α) :=
  let g' := g.expand frontier
  let next := g'.neighbours reverse frontier \ visited
  if next = ∅ then some (g', visited)
  else if caps.depth.any (· < depth + 1) then none
  else if caps.nodes.any (· < (visited ∪ next).card) then none
  else searchLoop caps reverse g' (visited ∪ next) next (depth + 1)
termination_by (G.ends \ visited).card
decreasing_by
  exact EdgeSource.Loaded.unvisited_lt (EdgeSource.Loaded.neighbours_subset_ends _ _) ‹_›

/-- The nodes that the start reaches, itself included, and the graph as read by then. -/
def search (caps : SearchCaps) (reverse : Bool) (g : G.Loaded) (start : Finset α) :
    Option (G.Loaded × Finset α) :=
  if caps.nodes.any (· < start.card) then none else searchLoop caps reverse g start start 0

/-- The nodes of the universe that an edge from a seen node enters. -/
def enteredLoop (g : G.Loaded) (within entered seen frontier : Finset α) : Finset α :=
  let hit := g.neighbours false frontier ∩ within
  if hit \ seen = ∅ then entered ∪ hit
  else enteredLoop g within (entered ∪ hit) (seen ∪ hit \ seen) (hit \ seen)
termination_by (within \ seen).card
decreasing_by exact EdgeSource.Loaded.unvisited_lt Finset.inter_subset_right ‹_›

def enteredWithin (g : G.Loaded) (within sources : Finset α) : Finset α :=
  enteredLoop g within ∅ (sources ∩ within) (sources ∩ within)

section Search

variable {caps : SearchCaps} {reverse : Bool} {g g' : G.Loaded} {start out : Finset α}

structure Explored (reverse : Bool) (g : G.Loaded) (start out : Finset α) : Prop where
  start_subset : start ⊆ out
  expanded : out ⊆ g.nodes
  closed : ∀ u ∈ out, ∀ v, G.Step reverse u v → v ∈ out
  reached : ∀ v ∈ out, ∃ u ∈ start, ReflTransGen (G.Step reverse) u v

theorem searchLoop_explored {visited frontier : Finset α} {depth : ℕ}
    (h : searchLoop caps reverse g visited frontier depth = some (g', out))
    (hfrontier : frontier ⊆ visited)
    (hdone : ∀ u ∈ visited, u ∉ frontier →
      u ∈ g.nodes ∧ ∀ v, G.Step reverse u v → v ∈ visited) :
    Explored reverse g' visited out ∧ g.nodes ⊆ g'.nodes := by
  induction g, visited, frontier, depth using searchLoop.induct caps reverse with
  | case1 g visited frontier depth g'' next hnext =>
    rw [searchLoop, if_pos hnext] at h
    obtain ⟨hg, hout⟩ := Prod.mk.inj (Option.some.inj h)
    rw [← hg, ← hout]
    have hload : ∀ u ∈ visited, u ∈ (g.expand frontier).nodes := by
      intro u hu
      by_cases hf : u ∈ frontier
      · exact Finset.mem_union_right _ hf
      · exact Finset.mem_union_left _ (hdone u hu hf).1
    refine ⟨⟨Finset.Subset.refl _, hload, fun u hu v hstep ↦ ?_, fun v hv ↦ ⟨v, hv, .refl⟩⟩,
      Finset.subset_union_left⟩
    by_cases hf : u ∈ frontier
    · have hmem := EdgeSource.Loaded.mem_neighbours_of_step (hload u hu) hf hstep
      by_contra hnot
      have hin : v ∈ next := Finset.mem_sdiff.2 ⟨hmem, hnot⟩
      rw [hnext] at hin
      exact Finset.notMem_empty v hin
    · exact (hdone u hu hf).2 v hstep
  | case2 g visited frontier depth g'' next hnext hdepth =>
    rw [searchLoop, if_neg hnext, if_pos hdepth] at h
    cases h
  | case3 g visited frontier depth g'' next hnext hdepth hnodes =>
    rw [searchLoop, if_neg hnext, if_neg hdepth, if_pos hnodes] at h
    cases h
  | case4 g visited frontier depth g'' next hnext hdepth hnodes ih =>
    rw [searchLoop, if_neg hnext, if_neg hdepth, if_neg hnodes] at h
    obtain ⟨hexplored, hsub⟩ := ih h Finset.subset_union_right (by
      intro u hu hu'
      have hold : u ∈ visited := (Finset.mem_union.1 hu).resolve_right hu'
      by_cases hf : u ∈ frontier
      · have hload : u ∈ (g.expand frontier).nodes := Finset.mem_union_right _ hf
        refine ⟨hload, fun v hstep ↦ ?_⟩
        have hmem := EdgeSource.Loaded.mem_neighbours_of_step hload hf hstep
        by_cases hv : v ∈ visited
        · exact Finset.mem_union_left _ hv
        · exact Finset.mem_union_right _ (Finset.mem_sdiff.2 ⟨hmem, hv⟩)
      · obtain ⟨hload, hnext⟩ := hdone u hold hf
        exact ⟨Finset.mem_union_left _ hload, fun v hstep ↦
          Finset.mem_union_left _ (hnext v hstep)⟩)
    refine ⟨⟨Finset.subset_union_left.trans hexplored.start_subset, hexplored.expanded,
      hexplored.closed, fun v hv ↦ ?_⟩, Finset.subset_union_left.trans hsub⟩
    obtain ⟨u, hu, hreach⟩ := hexplored.reached v hv
    rcases Finset.mem_union.1 hu with hu | hu
    · exact ⟨u, hu, hreach⟩
    · obtain ⟨w, hw, hstep⟩ :=
        EdgeSource.Loaded.step_of_mem_neighbours (Finset.mem_sdiff.1 hu).1
      exact ⟨w, hfrontier hw, hreach.head hstep⟩

theorem search_explored (h : search caps reverse g start = some (g', out)) :
    Explored reverse g' start out ∧ g.nodes ⊆ g'.nodes := by
  rw [search] at h
  split at h
  · cases h
  · exact searchLoop_explored h (Finset.Subset.refl _) fun u hu hnot ↦ absurd hu hnot

theorem Explored.mem_iff (h : Explored reverse g start out) {v : α} :
    v ∈ out ↔ ∃ u ∈ start, ReflTransGen (G.Step reverse) u v := by
  refine ⟨h.reached v, ?_⟩
  rintro ⟨u, hu, hreach⟩
  induction hreach with
  | refl => exact h.start_subset hu
  | tail _ hstep ih => exact h.closed _ ih _ hstep

/-- Without caps a search always ends with an answer. -/
theorem search_uncapped (g : G.Loaded) (start : Finset α) :
    ∃ r, search ⟨none, none⟩ reverse g start = some r := by
  have hloop : ∀ visited frontier depth (g : G.Loaded),
      ∃ r, searchLoop ⟨none, none⟩ reverse g visited frontier depth = some r := by
    intro visited frontier depth g
    induction g, visited, frontier, depth using searchLoop.induct ⟨none, none⟩ reverse with
    | case1 g visited frontier depth g'' next hnext =>
      rw [searchLoop, if_pos hnext]
      exact ⟨_, rfl⟩
    | case2 _ _ _ _ _ _ _ hcap => exact absurd hcap Bool.false_ne_true
    | case3 _ _ _ _ _ _ _ _ hcap => exact absurd hcap Bool.false_ne_true
    | case4 g visited frontier depth g'' next hnext hdepth hnodes ih =>
      rw [searchLoop, if_neg hnext, if_neg hdepth, if_neg hnodes]
      exact ih
  exact hloop start start 0 g

end Search

section Entered

variable {g : G.Loaded} {within sources : Finset α}

/-- An edge that stays in the universe. -/
def Inside (G : EdgeSource α) (within : Finset α) (u v : α) : Prop := G.Edge u v ∧ v ∈ within

theorem mem_hit (hload : within ⊆ g.nodes) {frontier : Finset α} (hfrontier : frontier ⊆ within)
    {v : α} : v ∈ g.neighbours false frontier ∩ within ↔ ∃ u ∈ frontier, Inside G within u v := by
  rw [Finset.mem_inter]
  constructor
  · rintro ⟨hv, hin⟩
    obtain ⟨u, hu, hstep⟩ := EdgeSource.Loaded.step_of_mem_neighbours hv
    exact ⟨u, hu, hstep, hin⟩
  · rintro ⟨u, hu, hedge, hin⟩
    exact ⟨EdgeSource.Loaded.mem_neighbours_of_step (hload (hfrontier hu)) hu hedge, hin⟩

theorem enteredLoop_spec (hload : within ⊆ g.nodes) {entered seen frontier : Finset α}
    (hfrontier : frontier ⊆ seen) (hseen : seen ⊆ within)
    (hsound : ∀ v ∈ entered, ∃ i ∈ sources, TransGen (Inside G within) i v)
    (hreach : ∀ u ∈ seen, ∃ i ∈ sources, ReflTransGen (Inside G within) i u)
    (hdone : ∀ u ∈ seen, u ∉ frontier → ∀ v, Inside G within u v → v ∈ entered ∧ v ∈ seen) :
    (∀ v ∈ enteredLoop g within entered seen frontier,
        ∃ i ∈ sources, TransGen (Inside G within) i v) ∧
      ∃ all, seen ⊆ all ∧ ∀ u ∈ all, ∀ v, Inside G within u v →
        v ∈ enteredLoop g within entered seen frontier ∧ v ∈ all := by
  induction entered, seen, frontier using enteredLoop.induct g within with
  | case1 entered seen frontier hit hnew =>
    rw [enteredLoop, if_pos hnew]
    have hhit : ∀ v, v ∈ hit ↔ ∃ u ∈ frontier, Inside G within u v := fun _ ↦
      mem_hit hload (hfrontier.trans hseen)
    refine ⟨fun v hv ↦ ?_, seen, Finset.Subset.refl _, fun u hu v huv ↦ ?_⟩
    · rcases Finset.mem_union.1 hv with hv | hv
      · exact hsound v hv
      · obtain ⟨u, hu, huv⟩ := (hhit v).1 hv
        obtain ⟨i, hi, hiu⟩ := hreach u (hfrontier hu)
        exact ⟨i, hi, TransGen.tail' hiu huv⟩
    · by_cases hf : u ∈ frontier
      · have hv := (hhit v).2 ⟨u, hf, huv⟩
        refine ⟨Finset.mem_union_right _ hv, ?_⟩
        by_contra hnot
        exact Finset.notMem_empty v (hnew ▸ Finset.mem_sdiff.2 ⟨hv, hnot⟩)
      · obtain ⟨hv, hv'⟩ := hdone u hu hf v huv
        exact ⟨Finset.mem_union_left _ hv, hv'⟩
  | case2 entered seen frontier hit hnew ih =>
    rw [enteredLoop, if_neg hnew]
    have hhit : ∀ v, v ∈ hit ↔ ∃ u ∈ frontier, Inside G within u v := fun _ ↦
      mem_hit hload (hfrontier.trans hseen)
    have hpath : ∀ v ∈ hit, ∃ i ∈ sources, TransGen (Inside G within) i v := by
      intro v hv
      obtain ⟨u, hu, huv⟩ := (hhit v).1 hv
      obtain ⟨i, hi, hiu⟩ := hreach u (hfrontier hu)
      exact ⟨i, hi, TransGen.tail' hiu huv⟩
    obtain ⟨hresult, all, hall, hclosed⟩ := ih Finset.subset_union_right
      (Finset.union_subset hseen (Finset.sdiff_subset.trans Finset.inter_subset_right))
      (fun v hv ↦ (Finset.mem_union.1 hv).elim (hsound v) (hpath v))
      (fun u hu ↦ by
        rcases Finset.mem_union.1 hu with hu | hu
        · exact hreach u hu
        · obtain ⟨i, hi, hiu⟩ := hpath u (Finset.mem_sdiff.1 hu).1
          exact ⟨i, hi, hiu.to_reflTransGen⟩)
      (fun u hu hnot v huv ↦ by
        have hu := (Finset.mem_union.1 hu).resolve_right hnot
        by_cases hf : u ∈ frontier
        · have hv := (hhit v).2 ⟨u, hf, huv⟩
          refine ⟨Finset.mem_union_right _ hv, ?_⟩
          by_cases hs : v ∈ seen
          · exact Finset.mem_union_left _ hs
          · exact Finset.mem_union_right _ (Finset.mem_sdiff.2 ⟨hv, hs⟩)
        · obtain ⟨hv, hv'⟩ := hdone u hu hf v huv
          exact ⟨Finset.mem_union_left _ hv, Finset.mem_union_left _ hv'⟩)
    exact ⟨hresult, all, Finset.subset_union_left.trans hall, hclosed⟩

theorem mem_enteredWithin (hload : within ⊆ g.nodes) {v : α} :
    v ∈ enteredWithin g within sources ↔
      ∃ i ∈ sources, i ∈ within ∧ TransGen (Inside G within) i v := by
  obtain ⟨hsound, all, hall, hclosed⟩ := @enteredLoop_spec _ _ _ g within
    (sources ∩ within) hload ∅ _ _ (Finset.Subset.refl (sources ∩ within))
    Finset.inter_subset_right (fun v hv ↦ absurd hv (Finset.notMem_empty v))
    (fun u hu ↦ ⟨u, hu, .refl⟩) (fun u hu hnot ↦ absurd hu hnot)
  constructor
  · intro hv
    obtain ⟨i, hi, hiv⟩ := hsound v hv
    exact ⟨i, (Finset.mem_inter.1 hi).1, (Finset.mem_inter.1 hi).2, hiv⟩
  · rintro ⟨i, hi, hin, hiv⟩
    have hmem : ∀ w, TransGen (Inside G within) i w →
        w ∈ enteredWithin g within sources ∧ w ∈ all := by
      intro w hw
      induction hw with
      | single hstep => exact hclosed i (hall (Finset.mem_inter.2 ⟨hi, hin⟩)) _ hstep
      | tail _ hstep ih => exact hclosed _ ih.2 _ hstep
    exact (hmem v hiv).1

theorem mem_of_predecessors (hpred : ∀ u v, G.Edge u v → v ∈ within → u ∈ within) {i v : α}
    (h : TransGen G.Edge i v) (hv : v ∈ within) : i ∈ within := by
  induction h using TransGen.head_induction_on with
  | single hstep => exact hpred _ _ hstep hv
  | head hstep _ ih => exact hpred _ _ hstep ih

/-- A universe that holds the predecessors of its members holds every path into them. -/
theorem mem_enteredWithin_of_predecessors (hload : within ⊆ g.nodes)
    (hpred : ∀ u v, G.Edge u v → v ∈ within → u ∈ within) {v : α} (hv : v ∈ within) :
    v ∈ enteredWithin g within sources ↔ ∃ i ∈ sources, TransGen G.Edge i v := by
  rw [mem_enteredWithin hload]
  constructor
  · rintro ⟨i, hi, -, hiv⟩
    exact ⟨i, hi, TransGen.mono (fun _ _ h ↦ h.1) _ _ hiv⟩
  · rintro ⟨i, hi, hiv⟩
    refine ⟨i, hi, mem_of_predecessors hpred hiv hv, ?_⟩
    clear hi
    induction hiv using TransGen.head_induction_on with
    | single hstep => exact .single ⟨hstep, hv⟩
    | head hstep hrest ih => exact .head ⟨hstep, mem_of_predecessors hpred hrest hv⟩ ih

/-- So does one that holds the sources and the successors of its members. -/
theorem mem_enteredWithin_of_successors (hload : within ⊆ g.nodes) (hsources : sources ⊆ within)
    (hsucc : ∀ u ∈ within, ∀ v, G.Edge u v → v ∈ within) {v : α} :
    v ∈ enteredWithin g within sources ↔ ∃ i ∈ sources, TransGen G.Edge i v := by
  rw [mem_enteredWithin hload]
  constructor
  · rintro ⟨i, hi, -, hiv⟩
    exact ⟨i, hi, TransGen.mono (fun _ _ h ↦ h.1) _ _ hiv⟩
  · rintro ⟨i, hi, hiv⟩
    have hpath : ∀ w, TransGen G.Edge i w → TransGen (Inside G within) i w ∧ w ∈ within := by
      intro w hw
      induction hw with
      | single hstep =>
        have hw := hsucc i (hsources hi) _ hstep
        exact ⟨.single ⟨hstep, hw⟩, hw⟩
      | tail _ hstep ih =>
        have hw := hsucc _ ih.2 _ hstep
        exact ⟨.tail ih.1 ⟨hstep, hw⟩, hw⟩
    exact ⟨i, hi, hsources hi, (hpath v hiv).1⟩

end Entered

omit [DecidableEq α] in
/-- A path into a node that cannot be reached from where the lost edges end is kept. -/
theorem transGen_of_lost {E E' : α → α → Prop} {seeds : Set α} {i w : α}
    (hlost : ∀ u v, E u v → ¬E' u v → v ∈ seeds) (hw : ∀ s ∈ seeds, ¬ReflTransGen E' s w)
    (h : TransGen E i w) : TransGen E' i w := by
  induction h using TransGen.head_induction_on with
  | single hstep =>
    by_contra hnot
    exact hw _ (hlost _ _ hstep fun h ↦ hnot (.single h)) .refl
  | head hstep _ ih =>
    by_contra hnot
    exact hw _ (hlost _ _ hstep fun h ↦ hnot (.head h ih)) ih.to_reflTransGen

omit [DecidableEq α] in
/-- A path into a node that cannot be reached from where the new edges end was there before. -/
theorem transGen_of_gained {E E' : α → α → Prop} {seeds : Set α} {i w : α}
    (hgained : ∀ u v, E' u v → ¬E u v → v ∈ seeds) (hw : ∀ s ∈ seeds, ¬ReflTransGen E' s w)
    (h : TransGen E' i w) : TransGen E i w := by
  induction h using TransGen.head_induction_on with
  | single hstep =>
    by_contra hnot
    exact hw _ (hgained _ _ hstep fun h ↦ hnot (.single h)) .refl
  | head hstep hrest ih =>
    by_contra hnot
    exact hw _ (hgained _ _ hstep fun h ↦ hnot (.head h ih)) hrest.to_reflTransGen

end Tiqora.Foundation
