import Mathlib.Data.Int.Interval

namespace Tiqora.Foundation

/-- How many instants of `[a, b)` meet a condition. -/
def countIn (p : ℤ → Bool) (a b : ℤ) : ℕ :=
  ((@Finset.Ico ℤ _ Int.instLocallyFiniteOrder a b).filter fun t ↦ p t = true).card

variable {p : ℤ → Bool} {a b c : ℤ}

theorem countIn_of_ge (h : b ≤ a) : countIn p a b = 0 := by
  rw [countIn, Finset.Ico_eq_empty (not_lt.2 h), Finset.filter_empty, Finset.card_empty]

theorem countIn_add (h : a ≤ b) (h' : b ≤ c) : countIn p a b + countIn p b c = countIn p a c := by
  have hdisjoint : Disjoint (Finset.Ico a b) (Finset.Ico b c) :=
    Finset.Ico_disjoint_Ico_consecutive a b c
  rw [countIn, countIn, countIn, ← Finset.Ico_union_Ico_eq_Ico h h', Finset.filter_union,
    Finset.card_union_of_disjoint (Finset.disjoint_filter_filter hdisjoint)]

theorem countIn_mono (h : a ≤ b) (h' : b ≤ c) : countIn p a b ≤ countIn p a c := by
  rw [← countIn_add (p := p) h h']
  exact Nat.le_add_right _ _

theorem countIn_all (h : ∀ t, a ≤ t → t < b → p t = true) : countIn p a b = (b - a).toNat := by
  rw [countIn, Finset.filter_true_of_mem, Int.card_Ico]
  intro t ht
  exact h t (Finset.mem_Ico.1 ht).1 (Finset.mem_Ico.1 ht).2

theorem countIn_none (h : ∀ t, a ≤ t → t < b → p t = false) : countIn p a b = 0 := by
  rw [countIn, Finset.card_eq_zero, Finset.filter_eq_empty_iff]
  intro t ht
  rw [h t (Finset.mem_Ico.1 ht).1 (Finset.mem_Ico.1 ht).2]
  exact Bool.false_ne_true

theorem countIn_le (p : ℤ → Bool) (a b : ℤ) : countIn p a b ≤ (b - a).toNat := by
  rw [← Int.card_Ico]
  exact Finset.card_filter_le _ _

/-- Over consecutive stretches of one length, on each of which the condition is constant, the
count is the length times the number of stretches that meet it. -/
theorem countIn_stretches {length : ℕ} {q : ℕ → Bool} {n : ℕ}
    (h : ∀ k < n, ∀ t, a + length * k ≤ t → t < a + length * k + length → p t = q k) :
    countIn p a (a + length * n) = length * ((List.range n).filter q).length := by
  induction n with
  | zero => exact countIn_of_ge (by omega)
  | succ n ih =>
    have hstep : a + length * ((n + 1 : ℕ) : ℤ) = a + length * (n : ℤ) + length := by
      rw [Int.natCast_add, Int.mul_add, Int.natCast_one, Int.mul_one, Int.add_assoc]
    have hfirst := ih fun k hk ↦ h k (Nat.lt_succ_of_lt hk)
    have hlast : countIn p (a + length * n) (a + length * n + length) =
        if q n then length else 0 := by
      have hn := h n (Nat.lt_succ_self n)
      cases hq : q n with
      | true =>
        rw [countIn_all fun t ht ht' ↦ (hn t ht ht').trans hq, if_pos rfl]
        omega
      | false => exact countIn_none fun t ht ht' ↦ (hn t ht ht').trans hq
    have hpos : 0 ≤ (length : ℤ) * n := Int.mul_nonneg (by omega) (by omega)
    rw [hstep, ← countIn_add (p := p) (b := a + length * n) (by omega) (by omega), hfirst, hlast,
      List.range_succ, List.filter_append, List.length_append, Nat.mul_add]
    cases hq : q n with
    | true => rw [List.filter_cons_of_pos hq, if_pos rfl, List.filter_nil, List.length_singleton,
        Nat.mul_one]
    | false =>
      rw [List.filter_cons_of_neg (by rw [hq]; exact Bool.false_ne_true), List.filter_nil,
        List.length_nil, Nat.mul_zero, if_neg Bool.false_ne_true]

end Tiqora.Foundation
