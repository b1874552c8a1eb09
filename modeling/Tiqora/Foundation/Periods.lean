import Mathlib.Order.Monotone.Basic
import Mathlib.Order.Interval.Set.Basic

namespace Tiqora.Foundation

/-- Days in periods, one after the other. -/
structure Periods where
  start : ℕ → ℕ
  index : ℕ → ℕ
  mono : StrictMono start
  start_index : ∀ d, start (index d) ≤ d
  lt_next : ∀ d, d < start (index d + 1)

namespace Periods

variable (P : Periods) {d k : ℕ}

theorem le_index : k ≤ P.index d ↔ P.start k ≤ d := by
  constructor
  · intro h
    exact (P.mono.monotone h).trans (P.start_index d)
  · intro h
    exact Nat.lt_succ_iff.1 (P.mono.lt_iff_lt.1 (h.trans_lt (P.lt_next d)))

theorem index_lt : P.index d < k ↔ d < P.start k := by
  rw [← not_le, ← not_le, P.le_index]

@[simp] theorem index_start (k : ℕ) : P.index (P.start k) = k := by
  refine le_antisymm ?_ (P.le_index.2 le_rfl)
  exact Nat.lt_succ_iff.1 (P.index_lt.2 (P.mono (Nat.lt_succ_self k)))

theorem index_eq : P.index d = k ↔ P.start k ≤ d ∧ d < P.start (k + 1) := by
  rw [← P.le_index, ← P.index_lt]
  omega

/-- Several periods as one. -/
def group (size : ℕ) (hsize : 0 < size) : Periods where
  start k := P.start (size * k)
  index d := P.index d / size
  mono := P.mono.comp fun _ _ h ↦ Nat.mul_lt_mul_of_pos_left h hsize
  start_index d := (P.mono.monotone (Nat.mul_div_le _ _)).trans (P.start_index d)
  lt_next _ := P.index_lt.1 (Nat.lt_mul_div_succ _ hsize)

/-- Each day for itself. -/
def days : Periods where
  start k := k
  index day := day
  mono := strictMono_id
  start_index _ := le_rfl
  lt_next d := Nat.lt_succ_self d

end Periods

end Tiqora.Foundation
