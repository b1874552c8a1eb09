import Mathlib.Data.Finset.Sort
import Tiqora.Cmdb.Propagation

namespace Tiqora.Cmdb

open Foundation Relation

/-- Whether an incident at the CI of a link travels to the service. -/
def countsForService (p : Propagating) (serviceIsSource : Bool) : Bool :=
  match p.propagation with
  | .both => true
  | .target => !p.pointed || !serviceIsSource
  | .source => p.pointed && serviceIsSource
  | .none => false

/-- The CI and the service of a link, its type, and whether the CI is the source. -/
def LinkRow.serviceLink (l : LinkRow) : Option (ℕ × ℕ × String × Bool) :=
  match l.source, l.target with
  | .ci ci, .service service => some (ci, service, l.linkType, true)
  | .service service, .ci ci => some (ci, service, l.linkType, false)
  | _, _ => none

def serviceLinks (links : List LinkRow) (ids : Finset ℕ) : List (ℕ × ℕ × String × Bool) :=
  (links.filterMap LinkRow.serviceLink).filter fun l ↦ l.1 ∈ ids

section Search

variable {G : EdgeSource ℕ}

/-- One level after the other; what a cap leaves no room for is cut in id order. -/
def reachLoop (cap : ℕ) (g : G.Loaded) (reach frontier : Finset ℕ) (depth : ℕ) :
    Finset ℕ × Bool :=
  let g' := g.expand frontier
  let next := g'.neighbours false frontier \ reach
  if next = ∅ then (reach, false)
  else if maxDepth < depth + 1 then (reach, true)
  else if cap - reach.card < next.card then
    (reach ∪ ((next.sort (· ≤ ·)).take (cap - reach.card)).toFinset, true)
  else reachLoop cap g' (reach ∪ next) next (depth + 1)
termination_by (G.ends \ reach).card
decreasing_by
  exact EdgeSource.Loaded.unvisited_lt (EdgeSource.Loaded.neighbours_subset_ends _ _) ‹_›

/-- What an incident at one root reaches. -/
def reachFrom (G : EdgeSource ℕ) (cap root : ℕ) : Finset ℕ × Bool :=
  reachLoop cap (.empty G) {root} {root} 0

/-- The roots one by one; behind a full set they are only added. -/
def rootLoop (G : EdgeSource ℕ) (cap : ℕ) : List ℕ → Finset ℕ → Bool → Finset ℕ × Bool
  | [], reach, truncated => (reach, truncated)
  | root :: roots, reach, truncated =>
    if root ∈ reach then rootLoop G cap roots reach truncated
    else
      let (found, cut) := reachFrom G cap root
      let reach := reach ∪ found
      if cap ≤ reach.card then
        let rest := roots.toFinset \ reach
        (reach ∪ rest, truncated || cut || rest ≠ ∅)
      else rootLoop G cap roots reach (truncated || cut)

/-- The roots stay, the rest is cut in id order. -/
def trim (cap : ℕ) (roots : List ℕ) (reach : Finset ℕ) (truncated : Bool) : Finset ℕ × Bool :=
  if cap < reach.card then
    let kept := roots.filter (· ∈ reach)
    (((kept ++ (reach \ kept.toFinset).sort (· ≤ ·)).take cap).toFinset, true)
  else (reach, truncated)

end Search

structure AffectedSet where
  ciIds : Finset ℕ
  serviceIds : Finset ℕ
  truncated : Bool

section AffectedSet

variable (cfg : Config) (hasCi : ℕ → Bool) (links : List LinkRow)

def affectedServices (ids : Finset ℕ) : Finset ℕ :=
  (((serviceLinks links ids).filter fun l ↦
    (cfg.propagating l.2.2.1).any fun p ↦ countsForService p !l.2.2.2).map (·.2.1)).toFinset

/-- The CIs among the given ones that exist. -/
def existingRoots (ciIds : List ℕ) : Finset ℕ := (ciIds.filter hasCi).toFinset

def affectedSet (ciIds : List ℕ) : AffectedSet :=
  let cap := cfg.propagationNodeCap
  let roots := (existingRoots hasCi ciIds).sort (· ≤ ·)
  let (reach, truncated) := rootLoop (graph cfg links) cap roots ∅ false
  let (reach, truncated) := trim cap roots reach truncated
  { ciIds := reach
    serviceIds := affectedServices cfg links reach
    truncated }

/-- A root reaches the CI, itself included. -/
def ReachedFrom (roots : Finset ℕ) (ci : ℕ) : Prop :=
  ∃ root ∈ roots, ReflTransGen (graph cfg links).Edge root ci

/-- An incident at the CI travels over a link to the service. -/
def TravelsTo (ci service : ℕ) : Prop :=
  ∃ l ∈ links, ∃ name ciIsSource, l.serviceLink = some (ci, service, name, ciIsSource) ∧
    ∃ p, cfg.propagating name = some p ∧ countsForService p (!ciIsSource) = true

end AffectedSet

section Proofs

variable {G : EdgeSource ℕ} {cap : ℕ}

theorem lt_card_union {reach next found : Finset ℕ} (hnext : next = found \ reach)
    (hne : next ≠ ∅) : cap - reach.card < next.card ↔ cap < (reach ∪ next).card := by
  have hdisjoint : Disjoint reach next := hnext ▸ Finset.disjoint_sdiff
  have hpos := Finset.card_pos.2 (Finset.nonempty_iff_ne_empty.2 hne)
  rw [Finset.card_union_of_disjoint hdisjoint]
  omega

/-- A search that was not cut is one that no cap stopped. -/
theorem search_of_reachLoop {g : G.Loaded} {reach frontier : Finset ℕ} {depth : ℕ}
    (h : (reachLoop cap g reach frontier depth).2 = false) :
    ∃ g', searchLoop ⟨some cap, some maxDepth⟩ false g reach frontier depth =
      some (g', (reachLoop cap g reach frontier depth).1) := by
  induction g, reach, frontier, depth using reachLoop.induct cap with
  | case1 g reach frontier depth g' next hnext =>
    rw [reachLoop, if_pos hnext, searchLoop, if_pos hnext]
    exact ⟨_, rfl⟩
  | case2 g reach frontier depth g' next hnext hdepth =>
    rw [reachLoop, if_neg hnext, if_pos hdepth] at h
    cases h
  | case3 g reach frontier depth g' next hnext hdepth hroom =>
    rw [reachLoop, if_neg hnext, if_neg hdepth, if_pos hroom] at h
    cases h
  | case4 g reach frontier depth g' next hnext hdepth hroom ih =>
    rw [reachLoop, if_neg hnext, if_neg hdepth, if_neg hroom] at h ⊢
    have hcard := mt (lt_card_union rfl hnext).2 hroom
    rw [searchLoop, if_neg hnext, if_neg, if_neg]
    · exact ih h
    · rw [Option.any_some, decide_eq_true_eq]
      exact hcard
    · rw [Option.any_some, decide_eq_true_eq]
      exact hdepth

theorem reachLoop_sound {g : G.Loaded} {reach frontier : Finset ℕ} {depth : ℕ}
    (hfrontier : frontier ⊆ reach) {v : ℕ} (hv : v ∈ (reachLoop cap g reach frontier depth).1) :
    ∃ u ∈ reach, ReflTransGen G.Edge u v := by
  induction g, reach, frontier, depth using reachLoop.induct cap with
  | case1 g reach frontier depth g' next hnext =>
    rw [reachLoop, if_pos hnext] at hv
    exact ⟨v, hv, .refl⟩
  | case2 g reach frontier depth g' next hnext hdepth =>
    rw [reachLoop, if_neg hnext, if_pos hdepth] at hv
    exact ⟨v, hv, .refl⟩
  | case3 g reach frontier depth g' next hnext hdepth hroom =>
    rw [reachLoop, if_neg hnext, if_neg hdepth, if_pos hroom] at hv
    rcases Finset.mem_union.1 hv with hv | hv
    · exact ⟨v, hv, .refl⟩
    · have hv := (Finset.mem_sort _).1 (List.mem_of_mem_take (List.mem_toFinset.1 hv))
      obtain ⟨u, hu, hstep⟩ :=
        EdgeSource.Loaded.step_of_mem_neighbours (Finset.mem_sdiff.1 hv).1
      exact ⟨u, hfrontier hu, .single hstep⟩
  | case4 g reach frontier depth g' next hnext hdepth hroom ih =>
    rw [reachLoop, if_neg hnext, if_neg hdepth, if_neg hroom] at hv
    obtain ⟨u, hu, hreach⟩ := ih Finset.subset_union_right hv
    rcases Finset.mem_union.1 hu with hu | hu
    · exact ⟨u, hu, hreach⟩
    · obtain ⟨w, hw, hstep⟩ :=
        EdgeSource.Loaded.step_of_mem_neighbours (Finset.mem_sdiff.1 hu).1
      exact ⟨w, hfrontier hw, hreach.head hstep⟩

theorem mem_reachLoop {g : G.Loaded} {reach frontier : Finset ℕ} {depth : ℕ} {v : ℕ}
    (hv : v ∈ reach) : v ∈ (reachLoop cap g reach frontier depth).1 := by
  induction g, reach, frontier, depth using reachLoop.induct cap with
  | case1 g reach frontier depth g' next hnext => rwa [reachLoop, if_pos hnext]
  | case2 g reach frontier depth g' next hnext hdepth =>
    rwa [reachLoop, if_neg hnext, if_pos hdepth]
  | case3 g reach frontier depth g' next hnext hdepth hroom =>
    rw [reachLoop, if_neg hnext, if_neg hdepth, if_pos hroom]
    exact Finset.mem_union_left _ hv
  | case4 g reach frontier depth g' next hnext hdepth hroom ih =>
    rw [reachLoop, if_neg hnext, if_neg hdepth, if_neg hroom]
    exact ih (Finset.mem_union_left _ hv)

/-- What the search from a root finds; all of it when it was not cut. -/
theorem reachFrom_spec (G : EdgeSource ℕ) (cap root : ℕ) :
    root ∈ (reachFrom G cap root).1 ∧
      (∀ v ∈ (reachFrom G cap root).1, ReflTransGen G.Edge root v) ∧
        ((reachFrom G cap root).2 = false →
          ∀ u ∈ (reachFrom G cap root).1, ∀ v, G.Edge u v → v ∈ (reachFrom G cap root).1) := by
  refine ⟨mem_reachLoop (Finset.mem_singleton_self root), fun v hv ↦ ?_, fun hcut ↦ ?_⟩
  · obtain ⟨u, hu, hreach⟩ := reachLoop_sound (Finset.Subset.refl _) hv
    rwa [Finset.mem_singleton.1 hu] at hreach
  · obtain ⟨g', hsearch⟩ := search_of_reachLoop hcut
    exact (searchLoop_explored hsearch (Finset.Subset.refl _) fun u hu hnot ↦
      absurd hu hnot).1.closed

/-- What holds of the nodes found while the roots are visited. -/
structure Gathered (G : EdgeSource ℕ) (roots reach : Finset ℕ) (truncated : Bool) : Prop where
  reached : ∀ v ∈ reach, ∃ root ∈ roots, ReflTransGen G.Edge root v
  closed : truncated = false → ∀ u ∈ reach, ∀ v, G.Edge u v → v ∈ reach

theorem Gathered.visit {roots reach : Finset ℕ} {truncated : Bool}
    (h : Gathered G roots reach truncated) (cap : ℕ) {root : ℕ} (hroot : root ∈ roots) :
    Gathered G roots (reach ∪ (reachFrom G cap root).1)
      (truncated || (reachFrom G cap root).2) := by
  obtain ⟨-, hsound, hclosed⟩ := reachFrom_spec G cap root
  refine ⟨fun v hv ↦ ?_, fun huncut u hu v huv ↦ ?_⟩
  · exact (Finset.mem_union.1 hv).elim (h.reached v) fun hv ↦ ⟨root, hroot, hsound v hv⟩
  · rw [Bool.or_eq_false_iff] at huncut
    rcases Finset.mem_union.1 hu with hu | hu
    · exact Finset.mem_union_left _ (h.closed huncut.1 u hu v huv)
    · exact Finset.mem_union_right _ (hclosed huncut.2 u hu v huv)

theorem rootLoop_spec {roots : Finset ℕ} {left : List ℕ} {reach : Finset ℕ} {truncated : Bool}
    (h : Gathered G roots reach truncated) (hleft : ∀ root ∈ left, root ∈ roots)
    (hdone : ∀ root ∈ roots, root ∈ left ∨ root ∈ reach) :
    Gathered G roots (rootLoop G cap left reach truncated).1
        (rootLoop G cap left reach truncated).2 ∧
      roots ⊆ (rootLoop G cap left reach truncated).1 := by
  induction left generalizing reach truncated with
  | nil =>
    exact ⟨h, fun root hroot ↦ (hdone root hroot).resolve_left List.not_mem_nil⟩
  | cons root left ih =>
    have hrest : ∀ root ∈ left, root ∈ roots := fun r hr ↦ hleft r (List.mem_cons_of_mem _ hr)
    rw [rootLoop]
    split
    · next hin =>
      refine ih h hrest fun r hr ↦ ?_
      rcases hdone r hr with hmem | hmem
      · exact (List.mem_cons.1 hmem).elim (fun heq ↦ .inr (heq ▸ hin)) .inl
      · exact .inr hmem
    · have hvisit := h.visit cap (hleft root List.mem_cons_self)
      have hroot := (reachFrom_spec G cap root).1
      have hdone' : ∀ r ∈ roots, r ∈ left ∨ r ∈ reach ∪ (reachFrom G cap root).1 := by
        intro r hr
        rcases hdone r hr with hmem | hmem
        · rcases List.mem_cons.1 hmem with rfl | hmem
          · exact .inr (Finset.mem_union_right _ hroot)
          · exact .inl hmem
        · exact .inr (Finset.mem_union_left _ hmem)
      dsimp only
      split
      · refine ⟨⟨fun v hv ↦ ?_, fun huncut ↦ ?_⟩, fun r hr ↦ ?_⟩
        · rcases Finset.mem_union.1 hv with hv | hv
          · exact hvisit.reached v hv
          · exact ⟨v, hrest v (List.mem_toFinset.1 (Finset.mem_sdiff.1 hv).1), .refl⟩
        · rw [Bool.or_eq_false_iff, decide_eq_false_iff_not, not_ne_iff] at huncut
          rw [huncut.2, Finset.union_empty]
          exact hvisit.closed huncut.1
        · rcases hdone' r hr with hmem | hmem
          · by_cases hin : r ∈ reach ∪ (reachFrom G cap root).1
            · exact Finset.mem_union_left _ hin
            · exact Finset.mem_union_right _
                (Finset.mem_sdiff.2 ⟨List.mem_toFinset.2 hmem, hin⟩)
          · exact Finset.mem_union_left _ hmem
      · exact ih hvisit hrest hdone'

theorem gathered_spec (G : EdgeSource ℕ) (cap : ℕ) (roots : Finset ℕ) :
    Gathered G roots (rootLoop G cap (roots.sort (· ≤ ·)) ∅ false).1
        (rootLoop G cap (roots.sort (· ≤ ·)) ∅ false).2 ∧
      roots ⊆ (rootLoop G cap (roots.sort (· ≤ ·)) ∅ false).1 :=
  rootLoop_spec ⟨fun v hv ↦ absurd hv (Finset.notMem_empty v),
    fun _ u hu ↦ absurd hu (Finset.notMem_empty u)⟩
    (fun _ hr ↦ (Finset.mem_sort _).1 hr) fun _ hr ↦ .inl ((Finset.mem_sort _).2 hr)

/-- The trim keeps the cap, the roots when they fit, and everything when it does not cut. -/
theorem trim_spec (cap : ℕ) {roots reach : Finset ℕ} (truncated : Bool) (hroots : roots ⊆ reach) :
    (trim cap (roots.sort (· ≤ ·)) reach truncated).1.card ≤ cap ∧
      (roots.card ≤ cap → roots ⊆ (trim cap (roots.sort (· ≤ ·)) reach truncated).1) ∧
      (trim cap (roots.sort (· ≤ ·)) reach truncated).1 ⊆ reach ∧
      ((trim cap (roots.sort (· ≤ ·)) reach truncated).2 = false →
        truncated = false ∧ (trim cap (roots.sort (· ≤ ·)) reach truncated).1 = reach) := by
  rw [trim]
  split
  · have hkept : (roots.sort (· ≤ ·)).filter (· ∈ reach) = roots.sort (· ≤ ·) :=
      List.filter_eq_self.2 fun r hr ↦ decide_eq_true (hroots ((Finset.mem_sort _).1 hr))
    dsimp only
    rw [hkept]
    refine ⟨(List.toFinset_card_le _).trans (List.length_take_le _ _), fun hfit r hr ↦ ?_,
      fun v hv ↦ ?_, fun huncut ↦ by cases huncut⟩
    · rw [List.mem_toFinset, List.take_append, List.take_of_length_le
        (by rwa [Finset.length_sort])]
      exact List.mem_append_left _ ((Finset.mem_sort _).2 hr)
    · rcases List.mem_append.1 (List.mem_of_mem_take (List.mem_toFinset.1 hv)) with hv | hv
      · exact hroots ((Finset.mem_sort _).1 hv)
      · exact (Finset.mem_sdiff.1 ((Finset.mem_sort _).1 hv)).1
  · next hfit => exact ⟨not_lt.1 hfit, fun _ ↦ hroots, Finset.Subset.refl _, fun huncut ↦
    ⟨huncut, rfl⟩⟩

variable {cfg : Config} {hasCi : ℕ → Bool} {links : List LinkRow}

theorem mem_affectedServices {ids : Finset ℕ} {service : ℕ} :
    service ∈ affectedServices cfg links ids ↔ ∃ ci ∈ ids, TravelsTo cfg links ci service := by
  simp only [affectedServices, serviceLinks, List.mem_toFinset, List.mem_map, List.mem_filter,
    List.mem_filterMap, decide_eq_true_eq, Option.any_eq_true]
  constructor
  · rintro ⟨⟨ci, svc, name, ciIsSource⟩, ⟨⟨⟨l, hl, hlink⟩, hci⟩, p, hp, hcounts⟩, rfl⟩
    exact ⟨ci, hci, l, hl, name, ciIsSource, hlink, p, hp, hcounts⟩
  · rintro ⟨ci, hci, l, hl, name, ciIsSource, hlink, p, hp, hcounts⟩
    exact ⟨(ci, service, name, ciIsSource), ⟨⟨⟨l, hl, hlink⟩, hci⟩, p, hp, hcounts⟩, rfl⟩

theorem mem_existingRoots {ciIds : List ℕ} {ci : ℕ} :
    ci ∈ existingRoots hasCi ciIds ↔ ci ∈ ciIds ∧ hasCi ci = true := by
  rw [existingRoots, List.mem_toFinset, List.mem_filter]

theorem affectedSet_spec (cfg : Config) (hasCi : ℕ → Bool) (links : List LinkRow)
    (ciIds : List ℕ) :
    (affectedSet cfg hasCi links ciIds).ciIds.card ≤ cfg.propagationNodeCap ∧
      ((existingRoots hasCi ciIds).card ≤ cfg.propagationNodeCap →
        existingRoots hasCi ciIds ⊆ (affectedSet cfg hasCi links ciIds).ciIds) ∧
      (∀ ci ∈ (affectedSet cfg hasCi links ciIds).ciIds,
        ReachedFrom cfg links (existingRoots hasCi ciIds) ci) ∧
      ((affectedSet cfg hasCi links ciIds).truncated = false →
        ∀ ci, ci ∈ (affectedSet cfg hasCi links ciIds).ciIds ↔
          ReachedFrom cfg links (existingRoots hasCi ciIds) ci) := by
  obtain ⟨hgathered, hroots⟩ := gathered_spec (graph cfg links) cfg.propagationNodeCap
    (existingRoots hasCi ciIds)
  obtain ⟨hcap, hkeep, hsub, hall⟩ := trim_spec cfg.propagationNodeCap
    (rootLoop (graph cfg links) cfg.propagationNodeCap
      ((existingRoots hasCi ciIds).sort (· ≤ ·)) ∅ false).2 hroots
  have hsound : ∀ ci ∈ (affectedSet cfg hasCi links ciIds).ciIds,
      ReachedFrom cfg links (existingRoots hasCi ciIds) ci := fun ci hci ↦
    hgathered.reached ci (hsub hci)
  refine ⟨hcap, hkeep, hsound, fun huncut ci ↦ ⟨hsound ci, ?_⟩⟩
  obtain ⟨hloop, hsame⟩ := hall huncut
  rintro ⟨root, hroot, hreach⟩
  have hmem : ci ∈ (rootLoop (graph cfg links) cfg.propagationNodeCap
      ((existingRoots hasCi ciIds).sort (· ≤ ·)) ∅ false).1 := by
    induction hreach with
    | refl => exact hroots hroot
    | tail _ hedge ih => exact hgathered.closed hloop _ ih _ hedge
  exact (Finset.ext_iff.1 hsame ci).2 hmem

theorem reachedFrom_flatten {lists : List (List ℕ)} {ci : ℕ} :
    ReachedFrom cfg links (existingRoots hasCi lists.flatten) ci ↔
      ∃ ciIds ∈ lists, ReachedFrom cfg links (existingRoots hasCi ciIds) ci := by
  constructor
  · rintro ⟨root, hroot, hreach⟩
    obtain ⟨hmem, hci⟩ := mem_existingRoots.1 hroot
    obtain ⟨ciIds, hlist, hmem⟩ := List.mem_flatten.1 hmem
    exact ⟨ciIds, hlist, root, mem_existingRoots.2 ⟨hmem, hci⟩, hreach⟩
  · rintro ⟨ciIds, hlist, root, hroot, hreach⟩
    obtain ⟨hmem, hci⟩ := mem_existingRoots.1 hroot
    exact ⟨root, mem_existingRoots.2 ⟨List.mem_flatten.2 ⟨ciIds, hlist, hmem⟩, hci⟩, hreach⟩

theorem mem_serviceIds {ciIds : List ℕ} {service : ℕ} :
    service ∈ (affectedSet cfg hasCi links ciIds).serviceIds ↔
      ∃ ci ∈ (affectedSet cfg hasCi links ciIds).ciIds, TravelsTo cfg links ci service :=
  mem_affectedServices

/-- A capped impact set is sound, and exact unless it was truncated; then it is also the union of
the sets of any lists that its roots are split into. -/
theorem affectedSet_exact (cfg : Config) (hasCi : ℕ → Bool) (links : List LinkRow)
    (lists : List (List ℕ)) :
    (∀ ciIds, (affectedSet cfg hasCi links ciIds).ciIds.card ≤ cfg.propagationNodeCap ∧
      ((existingRoots hasCi ciIds).card ≤ cfg.propagationNodeCap →
        existingRoots hasCi ciIds ⊆ (affectedSet cfg hasCi links ciIds).ciIds) ∧
      (∀ ci ∈ (affectedSet cfg hasCi links ciIds).ciIds,
        ReachedFrom cfg links (existingRoots hasCi ciIds) ci) ∧
      ((affectedSet cfg hasCi links ciIds).truncated = false →
        (∀ ci, ci ∈ (affectedSet cfg hasCi links ciIds).ciIds ↔
          ReachedFrom cfg links (existingRoots hasCi ciIds) ci) ∧
        ∀ service, service ∈ (affectedSet cfg hasCi links ciIds).serviceIds ↔
          ∃ ci, ReachedFrom cfg links (existingRoots hasCi ciIds) ci ∧
            TravelsTo cfg links ci service)) ∧
    ((∀ ciIds ∈ lists.flatten :: lists, (affectedSet cfg hasCi links ciIds).truncated = false) →
      (∀ ci, ci ∈ (affectedSet cfg hasCi links lists.flatten).ciIds ↔
        ∃ ciIds ∈ lists, ci ∈ (affectedSet cfg hasCi links ciIds).ciIds) ∧
      ∀ service, service ∈ (affectedSet cfg hasCi links lists.flatten).serviceIds ↔
        ∃ ciIds ∈ lists, service ∈ (affectedSet cfg hasCi links ciIds).serviceIds) := by
  refine ⟨fun ciIds ↦ ?_, fun huncut ↦ ?_⟩
  · obtain ⟨hcap, hkeep, hsound, hexact⟩ := affectedSet_spec cfg hasCi links ciIds
    refine ⟨hcap, hkeep, hsound, fun huncut ↦ ⟨hexact huncut, fun service ↦ ?_⟩⟩
    rw [mem_serviceIds]
    exact exists_congr fun ci ↦ and_congr_left' (hexact huncut ci)
  · have hexact : ∀ ciIds ∈ lists.flatten :: lists, ∀ ci,
        ci ∈ (affectedSet cfg hasCi links ciIds).ciIds ↔
          ReachedFrom cfg links (existingRoots hasCi ciIds) ci := fun ciIds hlist ↦
      (affectedSet_spec cfg hasCi links ciIds).2.2.2 (huncut ciIds hlist)
    have hunion : ∀ ci, ci ∈ (affectedSet cfg hasCi links lists.flatten).ciIds ↔
        ∃ ciIds ∈ lists, ci ∈ (affectedSet cfg hasCi links ciIds).ciIds := by
      intro ci
      rw [hexact _ List.mem_cons_self, reachedFrom_flatten]
      exact exists_congr fun ciIds ↦ and_congr_right fun hlist ↦
        (hexact ciIds (List.mem_cons_of_mem _ hlist) ci).symm
    refine ⟨hunion, fun service ↦ ?_⟩
    rw [mem_serviceIds]
    constructor
    · rintro ⟨ci, hci, htravels⟩
      obtain ⟨ciIds, hlist, hci⟩ := (hunion ci).1 hci
      exact ⟨ciIds, hlist, mem_serviceIds.2 ⟨ci, hci, htravels⟩⟩
    · rintro ⟨ciIds, hlist, hservice⟩
      obtain ⟨ci, hci, htravels⟩ := mem_serviceIds.1 hservice
      exact ⟨ci, (hunion ci).2 ⟨ciIds, hlist, hci⟩, htravels⟩

end Proofs

end Tiqora.Cmdb
