import Mathlib.Combinatorics.SimpleGraph.Metric

namespace Tiqora.Foundation

universe u

variable {V : Type u} {G : SimpleGraph V} {c x y : V} {n : ℕ}

theorem edist_le_of_adj (h : G.Adj y x) (hy : G.edist c y ≤ n) : G.edist c x ≤ (n + 1 : ℕ) := by
  have htriangle : G.edist c x ≤ G.edist c y + G.edist y x := SimpleGraph.edist_triangle
  rw [SimpleGraph.edist_eq_one_iff_adj.2 h] at htriangle
  rw [Nat.cast_add, Nat.cast_one]
  exact htriangle.trans (by gcongr)

/-- A vertex is found one level behind a neighbour, unless it was found before. -/
theorem edist_eq_succ_iff : G.edist c x = (n + 1 : ℕ) ↔
    ¬ G.edist c x ≤ n ∧ ∃ y, G.edist c y = n ∧ G.Adj y x := by
  constructor
  · intro h
    refine ⟨fun hle ↦ ?_, ?_⟩
    · rw [h, Nat.cast_le] at hle
      omega
    · obtain ⟨p, hp⟩ := SimpleGraph.exists_walk_of_edist_eq_coe h
      rw [← SimpleGraph.Walk.length_reverse] at hp
      cases hrev : p.reverse with
      | nil =>
        rw [hrev] at hp
        cases hp
      | @cons _ y _ hadj q =>
        rw [hrev, SimpleGraph.Walk.length_cons, Nat.add_right_cancel_iff] at hp
        have hle : G.edist c y ≤ n := by
          rw [← hp, ← SimpleGraph.Walk.length_reverse]
          exact SimpleGraph.edist_le _
        refine ⟨y, le_antisymm hle (not_lt.1 fun hlt ↦ ?_), hadj.symm⟩
        obtain ⟨m, hm⟩ := ENat.ne_top_iff_exists.1 (ne_top_of_lt hlt)
        rw [← hm, Nat.cast_lt] at hlt
        have hx := edist_le_of_adj hadj.symm hm.ge
        rw [h, Nat.cast_le] at hx
        omega
  · rintro ⟨hnot, y, hy, hadj⟩
    refine le_antisymm (edist_le_of_adj hadj hy.le) ?_
    rw [Nat.cast_add, Nat.cast_one]
    exact Order.add_one_le_of_lt (not_le.1 hnot)

end Tiqora.Foundation
