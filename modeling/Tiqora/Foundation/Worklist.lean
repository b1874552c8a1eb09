import Mathlib.Data.Finset.Card
import Mathlib.Data.Finset.SDiff
import Mathlib.Data.Finset.Lattice.Basic

namespace Tiqora.Foundation

universe u

variable {α : Type u} [DecidableEq α]

/-- What is found next to the nodes that are known. -/
structure Expansion (α : Type u) [DecidableEq α] where
  next : α → Option (List α)
  known : Finset α
  known_of_next : ∀ a cs, next a = some cs → a ∈ known

namespace Expansion

variable (E : Expansion α)

/-- A stack of nodes, the last pushed first, is worked off; each is expanded once. -/
def run (pending : List α) (visited : Finset α) : Finset α :=
  match pending with
  | [] => visited
  | a :: rest =>
    if a ∈ visited then run rest visited
    else
      match _h : E.next a with
      | none => run rest visited
      | some cs => run (cs.reverse ++ rest) (insert a visited)
termination_by ((E.known \ visited).card, pending.length)
decreasing_by
  · exact Prod.Lex.right _ (Nat.lt_succ_self _)
  · exact Prod.Lex.right _ (Nat.lt_succ_self _)
  · refine Prod.Lex.left _ _ (Finset.card_lt_card ⟨?_, fun hsub ↦ ?_⟩)
    · exact Finset.sdiff_subset_sdiff (Finset.Subset.refl _) (Finset.subset_insert _ _)
    · have ha := hsub (Finset.mem_sdiff.2 ⟨E.known_of_next a cs ‹_›, ‹a ∉ visited›⟩)
      exact (Finset.mem_sdiff.1 ha).2 (Finset.mem_insert_self _ _)

/-- What is visited has been expanded, and what that found is visited or waits. -/
structure Covers (pending : List α) (visited : Finset α) : Prop where
  expanded : ∀ a ∈ visited, ∃ cs, E.next a = some cs
  next : ∀ a ∈ visited, ∀ cs, E.next a = some cs → ∀ c ∈ cs, (∃ ds, E.next c = some ds) →
    c ∈ visited ∨ c ∈ pending

variable {E} {pending : List α} {visited : Finset α}

theorem covers_empty : E.Covers pending ∅ :=
  ⟨fun a ha ↦ absurd ha (Finset.notMem_empty a), fun a ha ↦ absurd ha (Finset.notMem_empty a)⟩

theorem Covers.skip {a : α} (h : E.Covers (a :: pending) visited)
    (ha : (∃ cs, E.next a = some cs) → a ∈ visited) : E.Covers pending visited := by
  refine ⟨h.expanded, fun b hb cs hcs c hc hknown ↦ ?_⟩
  obtain hvisited | hpending := h.next b hb cs hcs c hc hknown
  · exact .inl hvisited
  · rcases List.mem_cons.1 hpending with rfl | hrest
    · exact .inl (ha hknown)
    · exact .inr hrest

theorem Covers.push {a : α} {cs : List α} (h : E.Covers (a :: pending) visited)
    (ha : E.next a = some cs) : E.Covers (cs.reverse ++ pending) (insert a visited) := by
  refine ⟨fun b hb ↦ ?_, fun b hb ds hds c hc hknown ↦ ?_⟩
  · rcases Finset.mem_insert.1 hb with rfl | hb
    · exact ⟨cs, ha⟩
    · exact h.expanded b hb
  · rw [Finset.mem_insert, List.mem_append, List.mem_reverse]
    rcases Finset.mem_insert.1 hb with rfl | hb
    · rw [ha] at hds
      cases hds
      exact .inr (.inl hc)
    · obtain hvisited | hpending := h.next b hb ds hds c hc hknown
      · exact .inl (.inr hvisited)
      · rcases List.mem_cons.1 hpending with rfl | hrest
        · exact .inl (.inl rfl)
        · exact .inr (.inr hrest)

/-- The work ends with a closed set that has all that waited. -/
theorem run_covers (h : E.Covers pending visited) :
    E.Covers [] (E.run pending visited) ∧ visited ⊆ E.run pending visited ∧
      ∀ a ∈ pending, (∃ cs, E.next a = some cs) → a ∈ E.run pending visited := by
  induction pending, visited using Expansion.run.induct E with
  | case1 visited =>
    rw [run]
    exact ⟨h, Finset.Subset.refl _, fun a ha ↦ absurd ha List.not_mem_nil⟩
  | case2 visited a rest ha ih =>
    obtain ⟨hcovers, hsub, hrest⟩ := ih (h.skip fun _ ↦ ha)
    rw [run, if_pos ha]
    refine ⟨hcovers, hsub, fun b hb hknown ↦ ?_⟩
    rcases List.mem_cons.1 hb with rfl | hb
    · exact hsub ha
    · exact hrest b hb hknown
  | case3 visited a rest ha hnext ih =>
    have hskip : (∃ cs, E.next a = some cs) → a ∈ visited := fun ⟨cs, hcs⟩ ↦ by
      rw [hnext] at hcs
      cases hcs
    obtain ⟨hcovers, hsub, hrest⟩ := ih (h.skip hskip)
    have hrun : E.run (a :: rest) visited = E.run rest visited := by
      rw [run, if_neg ha]
      split
      · rfl
      · next cs hcs => rw [hnext] at hcs; cases hcs
    rw [hrun]
    refine ⟨hcovers, hsub, fun b hb hknown ↦ ?_⟩
    rcases List.mem_cons.1 hb with rfl | hb
    · exact hsub (hskip hknown)
    · exact hrest b hb hknown
  | case4 visited a rest ha cs hnext ih =>
    rw [List.unattach_reverse, List.unattach_attach] at ih
    obtain ⟨hcovers, hsub, hrest⟩ := ih (h.push hnext)
    have hrun : E.run (a :: rest) visited = E.run (cs.reverse ++ rest) (insert a visited) := by
      rw [run, if_neg ha]
      split
      · next hnone => rw [hnext] at hnone; cases hnone
      · next cs' hcs =>
        rw [hnext] at hcs
        cases hcs
        rfl
    rw [hrun]
    refine ⟨hcovers, (Finset.subset_insert _ _).trans hsub, fun b hb hknown ↦ ?_⟩
    rcases List.mem_cons.1 hb with rfl | hb
    · exact hsub (Finset.mem_insert_self _ _)
    · exact hrest b (List.mem_append_right _ hb) hknown

end Expansion

end Tiqora.Foundation
