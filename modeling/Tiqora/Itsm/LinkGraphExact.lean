import Mathlib.Data.Set.Card
import Tiqora.Foundation.Sorting
import Tiqora.Itsm.LinkGraphWalk

namespace Tiqora.Itsm.Links

open Foundation

variable {db : Database} {ciLinks : ℤ → List CiTicketLink}

namespace Database

/-- The provider answers with the links of the given tickets. -/
def Answers (db : Database) (ciLinks : ℤ → List CiTicketLink) : Prop :=
  ∃ provider, db.ciProvider = some provider ∧ ∀ ids, ∃ links, provider ids = some links ∧
    (∀ p ∈ links, p.1 ∈ ids ∧ p.2 = ciLinks p.1) ∧
      ∀ t ∈ ids, ciLinks t ≠ [] → t ∈ links.map Prod.fst

/-- A valid link between tickets, or between a ticket and a CI as the provider directs it. -/
def Link (db : Database) (ciLinks : ℤ → List CiTicketLink) (a b : NodeKey) (type : Text) : Prop :=
  match a, b with
  | .ticket s, .ticket t => db.TicketLink s t type
  | .ticket t, .ci ref =>
    ∃ link ∈ ciLinks t, link.ci.ref = ref ∧ link.direction ≠ .target ∧ link.linkType = type
  | .ci ref, .ticket t =>
    ∃ link ∈ ciLinks t, link.ci.ref = ref ∧ link.direction = .target ∧ link.linkType = type
  | .ci _, .ci _ => False

variable (db ciLinks) in
/-- The readable tickets within a distance, and the CIs linked to them. -/
def around (root : ℤ) (depth : ℕ) : Set NodeKey
  | .ticket t => db.graph.edist root t ≤ depth
  | .ci ref => ∃ t, db.graph.edist root t ≤ depth ∧ ∃ link ∈ ciLinks t, link.ci.ref = ref

variable (db ciLinks) in
/-- No ticket that a CI hangs on is nearer than the one with the lowest number. -/
def NearestFirst (root : ℤ) (depth : ℕ) : Prop :=
  ∀ t u ref, db.graph.edist root t ≤ depth → (∃ link ∈ ciLinks t, link.ci.ref = ref) →
    db.graph.edist root u ≤ depth → (∃ link ∈ ciLinks u, link.ci.ref = ref) →
      (∀ v, db.graph.edist root v ≤ depth → (∃ link ∈ ciLinks v, link.ci.ref = ref) → t ≤ v) →
        db.graph.edist root t ≤ db.graph.edist root u

/-- The databases differ in tickets that are not readable and in links at them. -/
structure AlikeReadable (db db' : Database) (ciLinks ciLinks' : ℤ → List CiTicketLink) :
    Prop where
  readable : db.readable = db'.readable
  links : ∀ s t type, (db.readable s).isSome → (db.readable t).isSome →
    (db.TicketLink s t type ↔ db'.TicketLink s t type)
  ciLinks : ∀ t, (db.readable t).isSome → ciLinks t = ciLinks' t

end Database

variable (db ciLinks) in
/-- What a link graph says of the neighbourhood of a ticket. -/
structure Neighbourhood (root : ℤ) (depth maxNodes : ℕ) (g : LinkGraph) : Prop where
  distance : ∀ n ∈ g.nodes, ∀ t, n.key = .ticket t →
    db.graph.edist root t = n.depth ∧ ∃ facts, db.readable t = some facts ∧
      n = ticketNode t n.depth facts
  whole : g.truncated = false →
    ∀ key, (∃ n ∈ g.nodes, n.key = key) ↔ key ∈ db.around ciLinks root depth
  nearest : g.truncated = false → ∀ n ∈ g.nodes, ∀ ref, n.key = .ci ref →
    IsLeast {d | ∃ n' ∈ g.nodes, ∃ t, n'.key = .ticket t ∧ n'.depth = d ∧
      ∃ link ∈ ciLinks t, link.ci.ref = ref} n.depth
  edges : g.truncated = false → ∀ a b type, HasEdge g.edges a b type ↔ a ≠ b ∧
    (∃ n ∈ g.nodes, n.key = a) ∧ (∃ n ∈ g.nodes, n.key = b) ∧ db.Link ciLinks a b type
  once : (g.nodes.map (·.key)).Nodup ∧ Distinct g.edges
  bounded : g.nodes.length ≤ maxNodes
  alone : ∀ db' ciLinks', db'.Keyed → db'.Answers ciLinks' →
    db.AlikeReadable db' ciLinks ciLinks' → linkGraph db' root depth maxNodes = .ok g

section Cis

variable {root : ℤ} {depth maxNodes : ℕ} {w w₀ : Walk} {items : List (ℤ × CiTicketLink)}
  {item : ℤ × CiTicketLink}

theorem linksInOrder_eq {ids : List ℤ} {links : List (ℤ × List CiTicketLink)}
    (hsound : ∀ p ∈ links, p.1 ∈ ids ∧ p.2 = ciLinks p.1)
    (hcomplete : ∀ t ∈ ids, ciLinks t ≠ [] → t ∈ links.map Prod.fst) :
    Walk.linksInOrder links =
      (sortedSet ids).flatMap fun t ↦ (ciLinks t).map fun link ↦ (t, link) := by
  have hlookup : ∀ t ∈ links.map Prod.fst, (links.lookup t).getD [] = ciLinks t := by
    intro t ht
    cases hfound : links.lookup t with
    | none =>
      obtain ⟨p, hp, rfl⟩ := List.mem_map.1 ht
      exact absurd (List.lookup_eq_none_iff.1 hfound p hp) (by simp)
    | some found => exact (hsound _ (mem_of_lookup hfound)).2
  rw [Walk.linksInOrder]
  have hkeys : ∀ t ∈ sortedSet (links.map Prod.fst), ((links.lookup t).getD []).map
      (fun link ↦ (t, link)) = (ciLinks t).map fun link ↦ (t, link) := fun t ht ↦ by
    rw [hlookup t (mem_sortedSet.1 ht)]
  rw [List.flatMap_congr hkeys]
  refine flatMap_sortedSet_congr fun t ht ↦ ⟨fun hmem ↦ ?_, fun hmem ↦ ?_⟩
  · obtain ⟨p, hp, rfl⟩ := List.mem_map.1 hmem
    exact (hsound p hp).1
  · refine hcomplete t hmem fun hnil ↦ ht ?_
    rw [hnil, List.map_nil]

variable (maxNodes w₀) in
/-- The walk with the CIs of some links. -/
structure Attached (items : List (ℤ × CiTicketLink)) (w : Walk) : Prop where
  depths : w.ticketDepth = w₀.ticketDepth
  nodes : ∀ n ∈ w.nodes, n ∈ w₀.nodes ∨ ∃ item ∈ items, n.key = .ci item.2.ci.ref
  kept : ∀ n ∈ w₀.nodes, n ∈ w.nodes
  nodup : w.keys.Nodup
  bounded : w.nodes.length ≤ maxNodes
  cut : w.truncated = true → maxNodes ≤ w.nodes.length ∧
    (w₀.truncated = true ∨ ∃ item ∈ items, .ci item.2.ci.ref ∉ w.keys)
  stays : w₀.truncated = true → w.truncated = true
  listed : w.truncated = false → ∀ item ∈ items, .ci item.2.ci.ref ∈ w.keys
  first : w.truncated = false → ∀ n ∈ w.nodes, ∀ ref, n.key = .ci ref → ∃ item,
    items.find? (fun item ↦ item.2.ci.ref = ref) = some item ∧
      n = ciNode item.2.ci ((w₀.ticketDepth.lookup item.1).getD 0)
  distinct : Distinct w.edges
  edges : w.truncated = false → ∀ a b type, HasEdge w.edges a b type ↔
    HasEdge w₀.edges a b type ∨ ∃ item ∈ items, (Walk.ciEdge item.1 item.2).source = a ∧
      (Walk.ciEdge item.1 item.2).target = b ∧ (Walk.ciEdge item.1 item.2).linkType = type

theorem kind_ciEdge (t : ℤ) (link : CiTicketLink) : (Walk.ciEdge t link).kind =
    kindOf (Walk.ciEdge t link).source (Walk.ciEdge t link).target := by
  rw [Walk.ciEdge]
  split <;> rfl

theorem hasEdge_setEdge_snoc {edges : List GraphEdge} {P : NodeKey → NodeKey → Text → Prop}
    (h : ∀ a b type, HasEdge edges a b type ↔ P a b type ∨ ∃ item ∈ items,
      (Walk.ciEdge item.1 item.2).source = a ∧ (Walk.ciEdge item.1 item.2).target = b ∧
        (Walk.ciEdge item.1 item.2).linkType = type) (a b : NodeKey) (type : Text) :
    HasEdge (setEdge edges (Walk.ciEdge item.1 item.2)) a b type ↔ P a b type ∨
      ∃ item' ∈ items ++ [item], (Walk.ciEdge item'.1 item'.2).source = a ∧
        (Walk.ciEdge item'.1 item'.2).target = b ∧
          (Walk.ciEdge item'.1 item'.2).linkType = type := by
  rw [hasEdge_setEdge, h, or_assoc]
  simp only [List.mem_append, List.mem_singleton, or_and_right, exists_or, exists_eq_left]

theorem Attached.addCi (h : Attached maxNodes w₀ items w) :
    Attached maxNodes w₀ (items ++ [item]) (w.addCi maxNodes item.1 item.2) := by
  have hitems : ∀ {p : ℤ × CiTicketLink → Prop}, (∃ i ∈ items, p i) →
      ∃ i ∈ items ++ [item], p i := fun ⟨i, hi, hp⟩ ↦ ⟨i, List.mem_append_left _ hi, hp⟩
  have hlast : item ∈ items ++ [item] := List.mem_append_right _ List.mem_cons_self
  rw [Walk.addCi]
  split
  · next hmem =>
    refine ⟨h.depths, fun n hn ↦ (h.nodes n hn).imp_right hitems, h.kept, h.nodup, h.bounded,
      fun hw ↦ ⟨(h.cut hw).1, (h.cut hw).2.imp_right hitems⟩, h.stays, fun hw i hi ↦ ?_,
      fun hw n hn ref href ↦ ?_, h.distinct.setEdge (kind_ciEdge _ _),
      fun hw ↦ hasEdge_setEdge_snoc (h.edges hw)⟩
    · rcases List.mem_append.1 hi with hi | hi
      · exact h.listed hw i hi
      · exact List.mem_singleton.1 hi ▸ hmem
    · obtain ⟨i, hfind, heq⟩ := h.first hw n hn ref href
      exact ⟨i, by rw [List.find?_append, hfind]; rfl, heq⟩
  · next hmem =>
    split
    · next hfull =>
      exact ⟨h.depths, fun n hn ↦ (h.nodes n hn).imp_right hitems, h.kept, h.nodup, h.bounded,
        fun _ ↦ ⟨hfull, .inr ⟨item, hlast, hmem⟩⟩, fun _ ↦ rfl, nofun, nofun, h.distinct, nofun⟩
    · next hroom =>
      have hkeys : ∀ {n : GraphNode}, ((w.nodes ++ [n]).map (·.key)) = w.keys ++ [n.key] :=
        List.map_append
      have hopen : w.truncated = true → False := fun hw ↦ hroom (h.cut hw).1
      refine ⟨h.depths, fun n hn ↦ ?_, fun n hn ↦ List.mem_append_left _ (h.kept n hn), ?_, ?_,
        fun hw ↦ (hopen hw).elim, h.stays, fun hw i hi ↦ ?_, fun hw n hn ref href ↦ ?_,
        h.distinct.setEdge (kind_ciEdge _ _), fun hw ↦ hasEdge_setEdge_snoc (h.edges hw)⟩
      · rcases List.mem_append.1 hn with hn | hn
        · exact (h.nodes n hn).imp_right hitems
        · exact .inr ⟨item, hlast, by rw [List.mem_singleton.1 hn]; rfl⟩
      · rw [Walk.keys, hkeys, ← List.concat_eq_append, List.nodup_concat]
        exact ⟨hmem, h.nodup⟩
      · rw [List.length_append, List.length_singleton]
        omega
      · rw [Walk.keys, hkeys, List.mem_append]
        rcases List.mem_append.1 hi with hi | hi
        · exact .inl (h.listed hw i hi)
        · exact .inr (List.mem_singleton.1 hi ▸ List.mem_cons_self)
      · rcases List.mem_append.1 hn with hn | hn
        · obtain ⟨i, hfind, heq⟩ := h.first hw n hn ref href
          exact ⟨i, by rw [List.find?_append, hfind]; rfl, heq⟩
        · rw [List.mem_singleton.1 hn] at href ⊢
          have href : item.2.ci.ref = ref := NodeKey.ci.inj href
          have hnone : items.find? (fun i ↦ i.2.ci.ref = ref) = none := by
            refine List.find?_eq_none.2 fun i hi heq ↦ hmem ?_
            rw [decide_eq_true_eq] at heq
            rw [href, ← heq]
            exact h.listed hw i hi
          refine ⟨item, ?_, by rw [h.depths]⟩
          rw [List.find?_append, hnone, Option.none_or, List.find?_singleton, if_pos]
          exact decide_eq_true href

theorem Attached.addCis (h : Attached maxNodes w₀ [] w₀) (items : List (ℤ × CiTicketLink)) :
    Attached maxNodes w₀ items
      (items.foldl (fun w item ↦ w.addCi maxNodes item.1 item.2) w₀) := by
  induction items using List.reverseRecOn with
  | nil => exact h
  | append_singleton items item ih =>
    rw [List.foldl_append]
    exact ih.addCi

/-- The links of the tickets, in the order in which they are attached. -/
def ticketItems (ciLinks : ℤ → List CiTicketLink) (tickets : List ℤ) :
    List (ℤ × CiTicketLink) :=
  (sortedSet tickets).flatMap fun t ↦ (ciLinks t).map fun link ↦ (t, link)

theorem mem_ticketItems {tickets : List ℤ} :
    item ∈ ticketItems ciLinks tickets ↔ item.1 ∈ tickets ∧ item.2 ∈ ciLinks item.1 := by
  simp only [ticketItems, List.mem_flatMap, mem_sortedSet, List.mem_map]
  constructor
  · rintro ⟨t, ht, link, hlink, rfl⟩
    exact ⟨ht, hlink⟩
  · rintro ⟨ht, hlink⟩
    exact ⟨item.1, ht, item.2, hlink, rfl⟩

theorem sorted_ticketItems (tickets : List ℤ) :
    (ticketItems ciLinks tickets).Pairwise fun i i' ↦ i.1 ≤ i'.1 := by
  refine List.pairwise_flatMap.2 ⟨fun t _ ↦ ?_, ?_⟩
  · exact List.pairwise_map.2 (List.pairwise_of_forall fun _ _ ↦ le_rfl)
  · refine (List.pairwise_insertionSort (· ≤ ·) _).imp fun hle i hi i' hi' ↦ ?_
    obtain ⟨_, -, rfl⟩ := List.mem_map.1 hi
    obtain ⟨_, -, rfl⟩ := List.mem_map.1 hi'
    exact hle

theorem attachCis_eq (hanswers : db.Answers ciLinks) (w : Walk) :
    w.attachCis db maxNodes = (ticketItems ciLinks w.tickets).foldl
      (fun w item ↦ w.addCi maxNodes item.1 item.2) w := by
  obtain ⟨provider, hprovider, hanswer⟩ := hanswers
  obtain ⟨links, hlinks, hsound, hcomplete⟩ := hanswer (sortedSet w.tickets)
  have hagain : sortedSet (sortedSet w.tickets) = sortedSet w.tickets :=
    sortedSet_congr fun _ ↦ mem_sortedSet
  simp only [Walk.attachCis, hprovider, hlinks]
  rw [linksInOrder_eq hsound hcomplete, hagain, ticketItems]

theorem Walk.Walked.keys (h : w.Walked db root maxNodes depth) :
    w.keys = w.tickets.map NodeKey.ticket := by
  have hnodes := congrArg (List.map Prod.fst) h.nodes
  rw [List.map_map, List.map_map] at hnodes
  rw [Walk.keys, Walk.tickets, List.map_map]
  exact hnodes

theorem Walk.Walked.mem_keys (h : w.Walked db root maxNodes depth) {t : ℤ} :
    NodeKey.ticket t ∈ w.keys ↔ t ∈ w.tickets := by
  rw [h.keys, List.mem_map_of_injective fun _ _ ↦ NodeKey.ticket.inj]

theorem Walk.Walked.mem_depth (h : w.Walked db root maxNodes depth) {t : ℤ} {d : ℕ} :
    (∃ n ∈ w.nodes, n.key = .ticket t ∧ n.depth = d) ↔ (t, d) ∈ w.ticketDepth := by
  have hpair : (∃ n ∈ w.nodes, n.key = .ticket t ∧ n.depth = d) ↔
      (NodeKey.ticket t, d) ∈ w.nodes.map fun n ↦ (n.key, n.depth) := by
    simp only [List.mem_map, Prod.mk.injEq]
  rw [hpair, h.nodes, List.mem_map]
  constructor
  · rintro ⟨p, hp, heq⟩
    obtain ⟨rfl, rfl⟩ : p.1 = t ∧ p.2 = d := by
      simpa only [Prod.mk.injEq, NodeKey.ticket.injEq] using heq
    exact hp
  · exact fun hp ↦ ⟨_, hp, rfl⟩

theorem Walk.Walked.lookup (h : w.Walked db root maxNodes depth) {t : ℤ} (ht : t ∈ w.tickets) :
    db.graph.edist root t = ((w.ticketDepth.lookup t).getD 0 : ℕ) := by
  obtain ⟨d, hd⟩ := Walk.mem_tickets.1 ht
  rw [lookup_of_mem h.nodup hd]
  exact h.distance _ hd

theorem Attached.start (h : w₀.Walked db root maxNodes depth) (hdistinct : Distinct w₀.edges) :
    Attached maxNodes w₀ [] w₀ where
  depths := rfl
  nodes n hn := .inl hn
  kept n hn := hn
  nodup := by
    rw [h.keys]
    exact h.nodup.map fun _ _ ↦ NodeKey.ticket.inj
  bounded := h.bounded
  cut hw := ⟨(h.cut hw).1, .inl hw⟩
  stays := id
  listed _ item hitem := absurd hitem List.not_mem_nil
  first _ n hn ref href := by
    obtain ⟨t, facts, -, heq⟩ := h.facts n hn
    rw [heq] at href
    cases href
  distinct := hdistinct
  edges _ a b type := by
    simp only [List.not_mem_nil, false_and, exists_false, or_false]

section Whole

variable (h : w₀.Walked db root maxNodes depth) (e : w₀.Edged db root (depth + 1))
  (a : Attached maxNodes w₀ (ticketItems ciLinks w₀.tickets) w)

include h a

theorem Attached.mem_ticket {n : GraphNode} (hn : n ∈ w.nodes) {t : ℤ}
    (hkey : n.key = .ticket t) : n ∈ w₀.nodes ∧ t ∈ w₀.tickets := by
  have hmem : n ∈ w₀.nodes := by
    refine (a.nodes n hn).resolve_right ?_
    rintro ⟨item, -, heq⟩
    rw [hkey] at heq
    cases heq
  exact ⟨hmem, h.mem_keys.1 (hkey ▸ List.mem_map_of_mem hmem)⟩

theorem Attached.around {key : NodeKey} (hkey : key ∈ w.keys) :
    key ∈ db.around ciLinks root depth := by
  obtain ⟨n, hn, rfl⟩ := List.mem_map.1 hkey
  cases hnkey : n.key with
  | ticket t => exact h.edist_le (a.mem_ticket h hn hnkey).2
  | ci ref =>
    rcases a.nodes n hn with hn | ⟨item, hitem, heq⟩
    · obtain ⟨t, facts, -, heq⟩ := h.facts n hn
      rw [heq] at hnkey
      cases hnkey
    · rw [hnkey] at heq
      cases heq
      obtain ⟨ht, hlink⟩ := mem_ticketItems.1 hitem
      exact ⟨item.1, h.edist_le ht, item.2, hlink, rfl⟩

theorem Attached.whole (hw : w.truncated = false) {key : NodeKey} :
    key ∈ w.keys ↔ key ∈ db.around ciLinks root depth := by
  have hw₀ : w₀.truncated = false :=
    Bool.eq_false_iff.2 fun hcut ↦ Bool.false_ne_true (hw.symm.trans (a.stays hcut))
  refine ⟨a.around h, fun hkey ↦ ?_⟩
  cases key with
  | ticket t =>
    obtain ⟨n, hn, heq⟩ := List.mem_map.1 (h.mem_keys.2 (h.whole hw₀ t hkey))
    exact heq ▸ List.mem_map_of_mem (a.kept n hn)
  | ci ref =>
    obtain ⟨t, ht, link, hlink, rfl⟩ := hkey
    exact a.listed hw (t, link) (mem_ticketItems.2 ⟨h.whole hw₀ t ht, hlink⟩)

/-- The graph is cut where there is more around the ticket than it has room for. -/
theorem Attached.truncated : w.truncated = true ↔
    (maxNodes : ℕ∞) < (db.around ciLinks root depth).encard := by
  have hlength : w.keys.toFinset.card = w.nodes.length := by
    rw [List.toFinset_card_of_nodup a.nodup, Walk.keys, List.length_map]
  cases hw : w.truncated with
  | true =>
    refine iff_of_true rfl ?_
    obtain ⟨hfull, hmissing⟩ := a.cut hw
    obtain ⟨key, hkey, hnot⟩ : ∃ key ∈ db.around ciLinks root depth, key ∉ w.keys := by
      rcases hmissing with hw₀ | ⟨item, hitem, hnot⟩
      · obtain ⟨-, t, ht, hnot⟩ := h.cut hw₀
        refine ⟨.ticket t, ht, fun hmem ↦ ?_⟩
        obtain ⟨n, hn, hkey⟩ := List.mem_map.1 hmem
        exact hnot (a.mem_ticket h hn hkey).2
      · obtain ⟨ht, hlink⟩ := mem_ticketItems.1 hitem
        exact ⟨.ci item.2.ci.ref, ⟨item.1, h.edist_le ht, item.2, hlink, rfl⟩, hnot⟩
    have hsub : ((insert key w.keys.toFinset : Finset NodeKey) : Set NodeKey) ⊆
        db.around ciLinks root depth := by
      intro k hk
      rw [Finset.mem_coe, Finset.mem_insert, List.mem_toFinset] at hk
      exact hk.elim (fun heq ↦ heq ▸ hkey) (a.around h)
    have hcard := Set.encard_le_encard hsub
    rw [Set.encard_coe_eq_coe_finsetCard,
      Finset.card_insert_of_notMem (mt List.mem_toFinset.1 hnot), hlength] at hcard
    exact lt_of_lt_of_le (Nat.cast_lt.2 (Nat.lt_succ_of_le hfull)) hcard
  | false =>
    refine iff_of_false Bool.false_ne_true (not_lt.2 ?_)
    have heq : db.around ciLinks root depth = (w.keys.toFinset : Set NodeKey) := by
      ext key
      rw [Finset.mem_coe, List.mem_toFinset, a.whole h hw]
    rw [heq, Set.encard_coe_eq_coe_finsetCard, hlength]
    exact Nat.cast_le.2 a.bounded

/-- A CI has the depth of the ticket with the lowest number that it hangs on. -/
theorem Attached.lowest (hw : w.truncated = false) {n : GraphNode} (hn : n ∈ w.nodes) {ref : CiRef}
    (hkey : n.key = .ci ref) : ∃ t, db.graph.edist root t = n.depth ∧ t ∈ w₀.tickets ∧
      (∃ link ∈ ciLinks t, link.ci.ref = ref) ∧
        ∀ u ∈ w₀.tickets, (∃ link ∈ ciLinks u, link.ci.ref = ref) → t ≤ u := by
  obtain ⟨item, hfind, rfl⟩ := a.first hw n hn ref hkey
  have href := List.find?_some hfind
  rw [decide_eq_true_eq] at href
  obtain ⟨ht, hlink⟩ := mem_ticketItems.1 (List.mem_of_find?_eq_some hfind)
  refine ⟨item.1, h.lookup ht, ht, ⟨item.2, hlink, href⟩, ?_⟩
  rintro u hu ⟨link, hlink, href⟩
  have hmem : (u, link) ∈ ticketItems ciLinks w₀.tickets := mem_ticketItems.2 ⟨hu, hlink⟩
  refine find?_rel (r := fun i i' : ℤ × CiTicketLink ↦ i.1 ≤ i'.1) (fun _ ↦ le_rfl)
    (sorted_ticketItems _) hfind hmem ?_
  exact decide_eq_true href

/-- The depths of the CIs are least where no ticket with a higher number is nearer. -/
theorem Attached.nearest (hw : w.truncated = false) :
    (∀ n ∈ w.nodes, ∀ ref, n.key = .ci ref →
      IsLeast {d | ∃ n' ∈ w.nodes, ∃ t, n'.key = .ticket t ∧ n'.depth = d ∧
        ∃ link ∈ ciLinks t, link.ci.ref = ref} n.depth) ↔ db.NearestFirst ciLinks root depth := by
  have hw₀ : w₀.truncated = false :=
    Bool.eq_false_iff.2 fun hcut ↦ Bool.false_ne_true (hw.symm.trans (a.stays hcut))
  have hnode : ∀ {t : ℤ} {d : ℕ}, t ∈ w₀.tickets → db.graph.edist root t = d →
      ∃ n ∈ w.nodes, n.key = .ticket t ∧ n.depth = d := by
    intro t d ht hd
    obtain ⟨d', hmem⟩ := Walk.mem_tickets.1 ht
    have heq : d' = d := Nat.cast_inj.1 ((h.distance _ hmem).symm.trans hd)
    obtain ⟨n, hn, hkey, hdepth⟩ := h.mem_depth.2 hmem
    exact ⟨n, a.kept n hn, hkey, hdepth.trans heq⟩
  have hdepth : ∀ {n : GraphNode} {t : ℤ}, n ∈ w.nodes → n.key = .ticket t →
      db.graph.edist root t = n.depth ∧ t ∈ w₀.tickets := by
    intro n t hn hkey
    obtain ⟨hn₀, ht⟩ := a.mem_ticket h hn hkey
    exact ⟨h.distance _ (h.mem_depth.1 ⟨n, hn₀, hkey, rfl⟩), ht⟩
  constructor
  · intro hleast t u ref ht htlink hu hulink hlow
    have hci : .ci ref ∈ w.keys := (a.whole h hw).2 ⟨t, ht, htlink⟩
    obtain ⟨n, hn, hkey⟩ := List.mem_map.1 hci
    obtain ⟨v, hv, hvmem, hvlink, hvlow⟩ := a.lowest h hw hn hkey
    obtain rfl : t = v := le_antisymm (hlow v (h.edist_le hvmem) hvlink)
      (hvlow t (h.whole hw₀ t ht) htlink)
    obtain ⟨d, hd⟩ := ENat.ne_top_iff_exists.1 (ne_top_of_le_ne_top (ENat.natCast_ne_top depth) hu)
    obtain ⟨n', hn', hkey', hdepth'⟩ := hnode (h.whole hw₀ u hu) hd.symm
    rw [hv, ← hd, Nat.cast_le, ← hdepth']
    exact (hleast n hn ref hkey).2 ⟨n', hn', u, hkey', rfl, hulink⟩
  · intro hnearest n hn ref hkey
    obtain ⟨t, ht, htmem, htlink, htlow⟩ := a.lowest h hw hn hkey
    obtain ⟨n', hn', hkey', hdepth'⟩ := hnode htmem ht
    refine ⟨⟨n', hn', t, hkey', hdepth', htlink⟩, ?_⟩
    rintro d ⟨m, hm, u, hmkey, rfl, hulink⟩
    obtain ⟨hudist, humem⟩ := hdepth hm hmkey
    have hle := hnearest t u ref (h.edist_le htmem) htlink (h.edist_le humem) hulink
      fun v hv hvlink ↦ htlow v (h.whole hw₀ v hv) hvlink
    rwa [ht, hudist, Nat.cast_le] at hle

include e

theorem Attached.hasEdge (hw : w.truncated = false) (k k' : NodeKey) (type : Text) :
    HasEdge w.edges k k' type ↔ k ≠ k' ∧ k ∈ w.keys ∧ k' ∈ w.keys ∧ db.Link ciLinks k k' type := by
  have hw₀ : w₀.truncated = false :=
    Bool.eq_false_iff.2 fun hcut ↦ Bool.false_ne_true (hw.symm.trans (a.stays hcut))
  have hticket : ∀ {t}, NodeKey.ticket t ∈ w.keys ↔ t ∈ w₀.tickets := by
    intro t
    rw [a.whole h hw]
    exact ⟨h.whole hw₀ t, h.edist_le⟩
  rw [a.edges hw]
  constructor
  · rintro (hedge | ⟨item, hitem, hsource, htarget, htype⟩)
    · obtain ⟨s, t, rfl, rfl, hs, ht, hne, hlink⟩ := e.sound _ _ _ hedge
      exact ⟨fun heq ↦ hne (NodeKey.ticket.inj heq), hticket.2 hs, hticket.2 ht, hlink⟩
    · obtain ⟨ht, hlink⟩ := mem_ticketItems.1 hitem
      have hci := a.listed hw item hitem
      rw [Walk.ciEdge] at hsource htarget htype
      split at hsource <;> rename_i hdirection
      · rw [if_pos hdirection] at htarget htype
        subst hsource htarget
        exact ⟨nofun, hci, hticket.2 ht, item.2, hlink, rfl, hdirection, htype⟩
      · rw [if_neg hdirection] at htarget htype
        subst hsource htarget
        exact ⟨nofun, hticket.2 ht, hci, item.2, hlink, rfl, hdirection, htype⟩
  · rintro ⟨hne, hk, hk', hlink⟩
    match k, k' with
    | .ticket s, .ticket t =>
      rw [hticket] at hk hk'
      exact .inl (e.complete hw₀ s t type hlink (fun heq ↦ hne (heq ▸ rfl)) hk hk'
        (.inl ((h.edist_le hk).trans_lt (Nat.cast_lt.2 depth.lt_succ_self))))
    | .ticket t, .ci ref =>
      obtain ⟨link, hmem, rfl, hdirection, rfl⟩ := hlink
      refine .inr ⟨(t, link), mem_ticketItems.2 ⟨hticket.1 hk, hmem⟩, ?_⟩
      rw [Walk.ciEdge, if_neg hdirection]
      exact ⟨rfl, rfl, rfl⟩
    | .ci ref, .ticket t =>
      obtain ⟨link, hmem, rfl, hdirection, rfl⟩ := hlink
      refine .inr ⟨(t, link), mem_ticketItems.2 ⟨hticket.1 hk', hmem⟩, ?_⟩
      rw [Walk.ciEdge, if_pos hdirection]
      exact ⟨rfl, rfl, rfl⟩
    | .ci _, .ci _ => exact hlink.elim

end Whole

end Cis

section Alone

variable {db' : Database} {ciLinks' : ℤ → List CiTicketLink} {root : ℤ} {w : Walk}

/-- A walk that differs in the tickets that were looked up in vain. -/
structure Hiding (db : Database) (w : Walk) (unreadable : List ℤ) : Prop where
  readable : ∀ t ∈ w.tickets, (db.readable t).isSome
  frontier : ∀ t ∈ w.frontier, t ∈ w.tickets
  hidden : ∀ t ∈ w.unreadable, db.readable t = none
  hidden' : ∀ t ∈ unreadable, db.readable t = none

variable (hkeyed : db.Keyed) (hkeyed' : db'.Keyed)
  (halike : db.AlikeReadable db' ciLinks ciLinks') {unreadable : List ℤ}

include hkeyed hkeyed' halike

theorem mem_relations_alike {ids : List ℤ} {r : Relation} (hs : (db.readable r.source).isSome)
    (ht : (db.readable r.target).isSome) : r ∈ db.relations ids ↔ r ∈ db'.relations ids := by
  rw [Database.mem_relations hkeyed, Database.mem_relations hkeyed',
    halike.links _ _ _ hs ht]

theorem Hiding.found (h : Hiding db w unreadable) :
    ({ w with unreadable } : Walk).found db' = w.found db := by
  have hends : ∀ {r : Relation} {o}, (r.source ∈ w.frontier ∨ r.target ∈ w.frontier) →
      (db.readable o).isSome → o ∉ w.tickets → o = r.source ∨ o = r.target →
        (db.readable r.source).isSome ∧ (db.readable r.target).isSome := by
    intro r o hfrontier ho hnot hend
    have hready := fun t ht ↦ h.readable t (h.frontier t ht)
    rcases hend with rfl | rfl
    · exact ⟨ho, hready _ (hfrontier.resolve_left fun hmem ↦ hnot (h.frontier _ hmem))⟩
    · exact ⟨hready _ (hfrontier.resolve_right fun hmem ↦ hnot (h.frontier _ hmem)), ho⟩
  rw [Walk.found, Walk.found, ← halike.readable, List.filterMap_eq_flatMap_toList,
    List.filterMap_eq_flatMap_toList]
  refine flatMap_sortedSet_congr fun o ho ↦ ?_
  obtain ⟨facts, hfacts⟩ : ∃ facts, db.readable o = some facts := by
    cases hread : db.readable o with
    | none => exact absurd (by rw [hread]; rfl) ho
    | some facts => exact ⟨facts, rfl⟩
  have hread : (db.readable o).isSome := hfacts ▸ rfl
  have hvisible : ∀ {hidden : List ℤ}, (∀ t ∈ hidden, db.readable t = none) → o ∉ hidden := by
    intro hidden hnone hmem
    rw [hnone o hmem] at hfacts
    cases hfacts
  rw [List.mem_filter, List.mem_filter, decide_eq_true_eq, decide_eq_true_eq, List.mem_flatMap,
    List.mem_flatMap]
  simp only [List.mem_cons, List.not_mem_nil, or_false]
  constructor
  · rintro ⟨⟨r, hr, hend⟩, hnot, -⟩
    obtain ⟨hs, ht⟩ := hends ((Database.mem_relations hkeyed').1 hr).2 hread hnot hend
    exact ⟨⟨r, (mem_relations_alike hkeyed hkeyed' halike hs ht).2 hr, hend⟩, hnot,
      hvisible h.hidden⟩
  · rintro ⟨⟨r, hr, hend⟩, hnot, -⟩
    obtain ⟨hs, ht⟩ := hends ((Database.mem_relations hkeyed).1 hr).2 hread hnot hend
    exact ⟨⟨r, (mem_relations_alike hkeyed hkeyed' halike hs ht).1 hr, hend⟩, hnot,
      hvisible h.hidden'⟩

omit hkeyed hkeyed' halike in
/-- Only links between tickets of the walk become edges. -/
theorem foldl_addRelation_filter (tickets : List ℤ) (relations : List Relation)
    (edges : List GraphEdge) : relations.foldl (addRelation tickets) edges =
      (relations.filter fun r ↦ r.source ∈ tickets ∧ r.target ∈ tickets).foldl
        (addRelation tickets) edges := by
  induction relations generalizing edges with
  | nil => rfl
  | cons r relations ih =>
    rw [List.filter_cons]
    split
    · exact ih _
    · next hnot =>
      rw [decide_eq_true_eq] at hnot
      have hskip : addRelation tickets edges r = edges :=
        if_neg fun h ↦ hnot ⟨h.1, h.2.1⟩
      rw [List.foldl_cons, hskip, ih]

theorem foldl_relations_alike {ids tickets : List ℤ}
    (htickets : ∀ t ∈ tickets, (db.readable t).isSome) (edges : List GraphEdge) :
    (db'.relations ids).foldl (addRelation tickets) edges =
      (db.relations ids).foldl (addRelation tickets) edges := by
  have hfilter : ((db'.relations ids).filter fun r ↦ r.source ∈ tickets ∧ r.target ∈ tickets) =
      (db.relations ids).filter fun r ↦ r.source ∈ tickets ∧ r.target ∈ tickets := by
    refine filter_sortedSet_congr fun r hr ↦ ?_
    rw [decide_eq_true_eq] at hr
    have hmem : r ∈ db.relations ids ↔ r ∈ db'.relations ids :=
      mem_relations_alike hkeyed hkeyed' halike (htickets _ hr.1) (htickets _ hr.2)
    rw [Database.relations, Database.relations, mem_sortedSet, mem_sortedSet] at hmem
    exact hmem.symm
  rw [foldl_addRelation_filter, hfilter, ← foldl_addRelation_filter]

theorem Hiding.next (maxNodes level : ℕ) (h : Hiding db w unreadable) : ∃ unreadable',
    ({ w with unreadable } : Walk).next db' maxNodes level =
      { w.next db maxNodes level with unreadable := unreadable' } ∧
        Hiding db (w.next db maxNodes level) unreadable' := by
  refine ⟨({ w with unreadable } : Walk).lookedUp db', ?_, ?_, ?_, ?_, ?_⟩
  · rw [Walk.next, h.found hkeyed hkeyed' halike]
    rfl
  · intro t ht
    rw [Walk.tickets_next, List.mem_append] at ht
    rcases ht with ht | ht
    · exact h.readable t ht
    · obtain ⟨p, hp, rfl⟩ := List.mem_map.1 ht
      rw [(Walk.mem_found.1 (List.mem_of_mem_take hp)).1]
      rfl
  · intro t ht
    rw [Walk.tickets_next]
    exact List.mem_append_right _ ht
  · exact fun t ht ↦ (Walk.mem_lookedUp ht).elim (h.hidden t) id
  · intro t ht
    refine (Walk.mem_lookedUp ht).elim (h.hidden' t) fun hnone ↦ ?_
    rwa [halike.readable]

theorem Hiding.expand (maxNodes level : ℕ) (h : Hiding db w unreadable) : ∃ unreadable',
    ({ w with unreadable } : Walk).expand db' maxNodes level =
      { w.expand db maxNodes level with unreadable := unreadable' } ∧
        Hiding db (w.expand db maxNodes level) unreadable' := by
  obtain ⟨unreadable', hnext, h'⟩ := h.next hkeyed hkeyed' halike maxNodes level
  refine ⟨unreadable', ?_, ?_⟩
  · rw [Walk.expand_eq, Walk.expand_eq, hnext]
    simp only [Walk.mk.injEq, true_and, and_true]
    exact foldl_relations_alike hkeyed hkeyed' halike h'.readable _
  · rw [Walk.expand_eq]
    exact ⟨h'.readable, h'.frontier, h'.hidden, h'.hidden'⟩

theorem Hiding.levels (maxNodes n level : ℕ) (h : Hiding db w unreadable) : ∃ unreadable',
    ({ w with unreadable } : Walk).levels db' maxNodes n level =
      { w.levels db maxNodes n level with unreadable := unreadable' } ∧
        Hiding db (w.levels db maxNodes n level) unreadable' := by
  induction n generalizing w unreadable level with
  | zero => exact ⟨unreadable, rfl, h⟩
  | succ n ih =>
    rw [Walk.levels, Walk.levels]
    split
    · exact ⟨unreadable, rfl, h⟩
    · obtain ⟨unreadable', hexpand, h'⟩ := h.expand hkeyed hkeyed' halike maxNodes level
      rw [hexpand]
      exact ih (level + 1) h'

theorem Hiding.close (h : Hiding db w unreadable) :
    ({ w with unreadable } : Walk).close db' = { w.close db with unreadable } := by
  rw [Walk.close, Walk.close]
  split
  · simp only [Walk.mk.injEq, true_and, and_true]
    exact foldl_relations_alike hkeyed hkeyed' halike h.readable _
  · rfl

omit hkeyed hkeyed' halike in
theorem addCi_unreadable (maxNodes : ℕ) (w : Walk) (t : ℤ) (link : CiTicketLink) :
    ({ w with unreadable } : Walk).addCi maxNodes t link =
      { w.addCi maxNodes t link with unreadable } := by
  change (if NodeKey.ci link.ci.ref ∈ w.keys then _ else if maxNodes ≤ w.nodes.length then _
    else _) = _
  rw [Walk.addCi]
  split
  · rfl
  · split <;> rfl

omit hkeyed hkeyed' halike in
theorem addCis_unreadable (maxNodes : ℕ) (items : List (ℤ × CiTicketLink)) (w : Walk) :
    items.foldl (fun w item ↦ w.addCi maxNodes item.1 item.2) { w with unreadable } =
      { items.foldl (fun w item ↦ w.addCi maxNodes item.1 item.2) w with unreadable } := by
  induction items generalizing w with
  | nil => rfl
  | cons item items ih => rw [List.foldl_cons, List.foldl_cons, ← ih, addCi_unreadable]

omit hkeyed hkeyed' halike in
theorem tickets_close : (w.close db).tickets = w.tickets := by
  rw [Walk.close]
  split <;> rfl

theorem Hiding.attachCis (hanswers : db.Answers ciLinks) (hanswers' : db'.Answers ciLinks')
    (maxNodes : ℕ) (h : Hiding db w unreadable) :
    (({ w with unreadable } : Walk).close db').attachCis db' maxNodes =
      { (w.close db).attachCis db maxNodes with unreadable } := by
  have hitems : ticketItems ciLinks' (w.close db).tickets =
      ticketItems ciLinks (w.close db).tickets := by
    refine List.flatMap_congr fun t ht ↦ ?_
    rw [mem_sortedSet, tickets_close] at ht
    rw [halike.ciLinks t (h.readable t ht)]
  rw [h.close hkeyed hkeyed' halike, attachCis_eq hanswers, attachCis_eq hanswers', ← hitems]
  exact addCis_unreadable maxNodes _ (w.close db)

/-- What a user may not read leaves no trace. -/
theorem linkGraph_alike (hanswers : db.Answers ciLinks) (hanswers' : db'.Answers ciLinks')
    (depth maxNodes : ℤ) :
    linkGraph db' root depth maxNodes = linkGraph db root depth maxNodes := by
  have hreadable : db'.readableTickets [root] = db.readableTickets [root] := by
    rw [Database.readableTickets, Database.readableTickets, halike.readable]
  simp only [linkGraph, hreadable]
  cases hroot : (db.readableTickets [root]).lookup root with
  | none => rfl
  | some facts =>
    have hread : (db.readable root).isSome := by
      rw [Database.lookup_readableTickets List.mem_cons_self] at hroot
      exact hroot ▸ rfl
    have hstart : Hiding db (.start root facts) [] := by
      refine ⟨fun t ht ↦ ?_, fun t ht ↦ ht, List.forall_mem_nil _, List.forall_mem_nil _⟩
      rwa [List.mem_singleton.1 ht]
    obtain ⟨unreadable, hlevels, h⟩ := hstart.levels hkeyed hkeyed' halike (max 2 maxNodes).toNat
      (max 1 (min depth maxDepth)).toNat 1
    have hattached : (((Walk.start root facts).levels db' (max 2 maxNodes).toNat
        (max 1 (min depth maxDepth)).toNat 1).close db').attachCis db' (max 2 maxNodes).toNat =
          { (((Walk.start root facts).levels db (max 2 maxNodes).toNat
              (max 1 (min depth maxDepth)).toNat 1).close db).attachCis db (max 2 maxNodes).toNat
            with unreadable } :=
      (congrArg (fun w : Walk ↦ (w.close db').attachCis db' (max 2 maxNodes).toNat) hlevels).trans
        (h.attachCis hkeyed hkeyed' halike hanswers hanswers' _)
    simp only [hattached]

end Alone

section Graph

variable {root : ℤ} {depth maxNodes : ℕ}

theorem Distinct.perm {edges edges' : List GraphEdge} (h : Distinct edges)
    (hperm : edges'.Perm edges) : Distinct edges' where
  kind e he := h.kind e (hperm.mem_iff.1 he)
  nodup := (hperm.map _).nodup_iff.2 h.nodup

theorem Attached.neighbourhood {w₀ w : Walk} {g : LinkGraph}
    (h : w₀.Walked db root maxNodes depth) (e : w₀.Edged db root (depth + 1))
    (a : Attached maxNodes w₀ (ticketItems ciLinks w₀.tickets) w)
    (hnodes : g.nodes.Perm w.nodes) (hedges : g.edges.Perm w.edges)
    (htruncated : g.truncated = w.truncated)
    (halone : ∀ db' ciLinks', db'.Keyed → db'.Answers ciLinks' →
      db.AlikeReadable db' ciLinks ciLinks' → linkGraph db' root depth maxNodes = .ok g) :
    Neighbourhood db ciLinks root depth maxNodes g ↔
      (maxNodes : ℕ∞) < (db.around ciLinks root depth).encard ∨
        db.NearestFirst ciLinks root depth := by
  have hmem : ∀ {n : GraphNode}, n ∈ g.nodes ↔ n ∈ w.nodes := hnodes.mem_iff
  have hkey : ∀ {k : NodeKey}, (∃ n ∈ g.nodes, n.key = k) ↔ k ∈ w.keys := by
    intro k
    simp only [hmem, Walk.keys, List.mem_map]
  have hedge : ∀ {k k' : NodeKey} {type : Text}, HasEdge g.edges k k' type ↔
      HasEdge w.edges k k' type := by
    intro k k' type
    simp only [HasEdge, hedges.mem_iff]
  constructor
  · intro hneighbourhood
    cases hw : w.truncated with
    | true => exact .inl ((a.truncated h).1 hw)
    | false =>
      refine .inr ((a.nearest h hw).1 ?_)
      have hnearest := hneighbourhood.nearest (htruncated.trans hw)
      simp only [hmem] at hnearest
      exact hnearest
  · intro hcondition
    refine ⟨fun n hn t hnkey ↦ ?_, fun hw key ↦ ?_, fun hw ↦ ?_, fun hw k k' type ↦ ?_, ⟨?_, ?_⟩,
      ?_, halone⟩
    · obtain ⟨hn₀, ht⟩ := a.mem_ticket h (hmem.1 hn) hnkey
      refine ⟨h.distance _ (h.mem_depth.1 ⟨n, hn₀, hnkey, rfl⟩), ?_⟩
      obtain ⟨t', facts, hfacts, heq⟩ := h.facts n hn₀
      obtain rfl : t' = t := by
        rw [heq] at hnkey
        exact NodeKey.ticket.inj hnkey
      exact ⟨facts, hfacts, heq⟩
    · rw [hkey]
      exact a.whole h (htruncated.symm.trans hw)
    · rw [htruncated] at hw
      have hroom : ¬ (maxNodes : ℕ∞) < (db.around ciLinks root depth).encard := fun hless ↦
        Bool.false_ne_true (hw.symm.trans ((a.truncated h).2 hless))
      simp only [hmem]
      exact (a.nearest h hw).2 (hcondition.resolve_left hroom)
    · rw [hedge, hkey, hkey]
      exact a.hasEdge h e (htruncated.symm.trans hw) k k' type
    · exact (hnodes.map _).nodup_iff.2 a.nodup
    · exact a.distinct.perm hedges
    · rw [hnodes.length_eq]
      exact a.bounded

/-- The graph is that of a walk through the levels, with the CIs of its tickets. -/
theorem exists_attached (hkeyed : db.Keyed) (hanswers : db.Answers ciLinks)
    (hroot : (db.readable root).isSome) (hdepth : 1 ≤ depth) (hdepth' : depth ≤ 3)
    (hmax : 2 ≤ maxNodes) : ∃ w₀ w : Walk, w₀.Walked db root maxNodes depth ∧
      w₀.Edged db root (depth + 1) ∧ Attached maxNodes w₀ (ticketItems ciLinks w₀.tickets) w ∧
        linkGraph db root depth maxNodes = .ok ⟨.ticket root,
          w.nodes.mergeSort fun n n' ↦ n.sortKey ≤ n'.sortKey,
          w.edges.mergeSort fun e e' ↦ e.sortKey ≤ e'.sortKey, w.truncated⟩ := by
  obtain ⟨facts, hfacts⟩ := Option.isSome_iff_exists.1 hroot
  have hlevels : (max 1 (min (depth : ℤ) maxDepth)).toNat = depth := by
    rw [maxDepth]
    omega
  have hslots : (max 2 (maxNodes : ℤ)).toNat = maxNodes := by omega
  have hlookup : (db.readableTickets [root]).lookup root = some facts := by
    rw [Database.lookup_readableTickets List.mem_cons_self, hfacts]
  have hstart := Walk.Walked.start (by omega : 1 ≤ maxNodes) hfacts
  obtain ⟨h, e⟩ := hstart.levels (n := depth) hkeyed hroot Walk.Edged.start
  rw [Nat.zero_add] at h e
  obtain ⟨h, e⟩ := e.close h hkeyed
  have a := (Attached.start h e.distinct).addCis
    (ticketItems ciLinks (((Walk.start root facts).levels db maxNodes depth 1).close db).tickets)
  rw [← attachCis_eq hanswers] at a
  refine ⟨_, _, h, e, a, ?_⟩
  simp only [linkGraph, hlevels, hslots, hlookup, Nat.zero_add]

/-- The graph is the readable neighbourhood of the ticket, unless there is room for all of it and a
CI hangs on a ticket nearer than the one with the lowest number. -/
theorem linkGraph_neighbourhood (hkeyed : db.Keyed) (hanswers : db.Answers ciLinks)
    (hroot : (db.readable root).isSome) (hdepth : 1 ≤ depth) (hdepth' : depth ≤ 3)
    (hmax : 2 ≤ maxNodes) : ∃ g, linkGraph db root depth maxNodes = .ok g ∧
      (Neighbourhood db ciLinks root depth maxNodes g ↔
        (maxNodes : ℕ∞) < (db.around ciLinks root depth).encard ∨
          db.NearestFirst ciLinks root depth) := by
  obtain ⟨w₀, w, h, e, a, hg⟩ := exists_attached hkeyed hanswers hroot hdepth hdepth' hmax
  refine ⟨_, hg, a.neighbourhood h e (List.mergeSort_perm _ _) (List.mergeSort_perm _ _) rfl ?_⟩
  intro db' ciLinks' hkeyed' hanswers' halike
  exact (linkGraph_alike hkeyed hkeyed' halike hanswers hanswers' depth maxNodes).trans hg

/-- Ticket 3 is linked to ticket 5, and both to a CI. -/
def sampleLinks (t : ℤ) : List CiTicketLink :=
  if t = 3 ∨ t = 5 then
    [⟨⟨⟨.znuny, 21⟩, "C21".toList, "srv".toList, "Computer".toList, none⟩, "RelevantTo".toList,
      .both⟩]
  else []

def sampleDb : Database where
  linkRelation := [⟨1, "3".toList, 1, "5".toList, 1, 1⟩]
  objectName id := if id = 1 then some "Ticket".toList else none
  stateName id := if id = 1 then some "Valid".toList else none
  typeName id := if id = 1 then some "Normal".toList else none
  readable t := if t = 3 ∨ t = 5 then some ⟨intText t, [], "new".toList, "new".toList⟩ else none
  ciProvider := some fun ids ↦ some (ids.map fun t ↦ (t, sampleLinks t))

theorem sampleDb_keyed : sampleDb.Keyed := by
  intro row hrow _ _
  rw [List.mem_singleton.1 hrow]
  exact ⟨3, 5, by decide, by decide⟩

theorem sampleDb_answers : sampleDb.Answers sampleLinks := by
  refine ⟨_, rfl, fun ids ↦ ⟨_, rfl, fun p hp ↦ ?_, fun t ht _ ↦ ?_⟩⟩
  · obtain ⟨t, ht, rfl⟩ := List.mem_map.1 hp
    exact ⟨ht, rfl⟩
  · rw [List.map_map]
    exact List.mem_map.2 ⟨t, ht, rfl⟩

theorem linkGraph_neighbourhood_sample : ∃ g, linkGraph sampleDb 5 (1 : ℕ) (60 : ℕ) = .ok g ∧
    (Neighbourhood sampleDb sampleLinks 5 1 60 g ↔
      ((60 : ℕ) : ℕ∞) < (sampleDb.around sampleLinks 5 1).encard ∨
        sampleDb.NearestFirst sampleLinks 5 1) :=
  linkGraph_neighbourhood sampleDb_keyed sampleDb_answers (by decide) le_rfl (by decide) (by decide)

def sampleWalk : Walk :=
  (((Walk.start 5 ⟨['5'], [], "new".toList, "new".toList⟩).levels sampleDb 60 1 1).close
    sampleDb).attachCis sampleDb 60

/-- The CI hangs on the root, but it gets the depth of the other ticket, whose number is lower. -/
theorem lowest_number_not_nearest : ∃ g, linkGraph sampleDb 5 1 60 = .ok g ∧
    ¬ Neighbourhood sampleDb sampleLinks 5 1 60 g := by
  have hgraph : linkGraph sampleDb 5 1 60 = .ok ⟨.ticket 5,
      sampleWalk.nodes.mergeSort fun n n' ↦ n.sortKey ≤ n'.sortKey,
      sampleWalk.edges.mergeSort fun e e' ↦ e.sortKey ≤ e'.sortKey, sampleWalk.truncated⟩ := rfl
  have hnodes : sampleWalk.nodes.map (fun n ↦ (n.key, n.depth)) =
      [(.ticket 5, 0), (.ticket 3, 1), (.ci ⟨.znuny, 21⟩, 1)] := by decide +kernel
  have hfind : ∀ (key : NodeKey) (d : ℕ),
      (key, d) ∈ sampleWalk.nodes.map (fun n ↦ (n.key, n.depth)) →
        ∃ n ∈ sampleWalk.nodes.mergeSort (fun n n' ↦ n.sortKey ≤ n'.sortKey),
          n.key = key ∧ n.depth = d := by
    intro key d hmem
    obtain ⟨n, hn, heq⟩ := List.mem_map.1 hmem
    cases heq
    exact ⟨n, List.mem_mergeSort.2 hn, rfl, rfl⟩
  rw [hnodes] at hfind
  refine ⟨_, hgraph, fun h ↦ ?_⟩
  obtain ⟨n, hn, hkey, hdepth⟩ := hfind (.ci ⟨.znuny, 21⟩) 1 (by decide)
  obtain ⟨n', hn', hkey', hdepth'⟩ := hfind (.ticket 5) 0 (by decide)
  have hle := (h.nearest (by decide +kernel) n hn _ hkey).2
    ⟨n', hn', 5, hkey', hdepth', by decide⟩
  rw [hdepth] at hle
  exact absurd hle (by decide)

end Graph

end Tiqora.Itsm.Links
