import Mathlib.Tactic.Ring
import Tiqora.Foundation.Guarded

namespace Tiqora.Foundation

variable {ε α : Type}

/-- The point half way between two others, in whole units from the first. -/
def halfway (unit : ℕ) (lo hi : ℤ) : ℤ := lo + (hi - lo) / unit / 2 * unit

theorem halfway_bounds {unit : ℕ} (hunit : 0 < unit) {lo hi : ℤ} (hfar : ¬hi - lo ≤ unit) :
    lo ≤ halfway unit lo hi ∧ halfway unit lo hi < hi := by
  have hunit' : (0 : ℤ) < unit := by exact_mod_cast hunit
  have hmul : (hi - lo) / unit * unit ≤ hi - lo := Int.ediv_mul_le _ hunit'.ne'
  have hquot : 0 ≤ (hi - lo) / (unit : ℤ) := Int.ediv_nonneg (by omega) hunit'.le
  have hhalf : (hi - lo) / (unit : ℤ) / 2 * unit ≤ (hi - lo) / unit * unit :=
    Int.mul_le_mul_of_nonneg_right (by omega) hunit'.le
  have hlow : 0 ≤ (hi - lo) / (unit : ℤ) / 2 * unit := Int.mul_nonneg (by omega) hunit'.le
  refine ⟨by rw [halfway]; omega, ?_⟩
  rw [halfway]
  by_cases hzero : (hi - lo) / (unit : ℤ) / 2 = 0
  · simp only [hzero, zero_mul, add_zero]
    omega
  · have hless : (hi - lo) / (unit : ℤ) / 2 * unit < (hi - lo) / unit * unit :=
      Int.mul_lt_mul_of_pos_right (by omega) hunit'
    omega

/-- Halves an interval until a unit is left of it, and stays where the test fails at its end. A
loop whose test holds half way, and half way is its start, never ends. -/
def bisect (unit : ℕ) (hunit : 0 < unit) (endless : ε) (test : ℤ → Except ε Bool) (lo hi : ℤ) :
    Except ε ℤ :=
  if _ : hi - lo ≤ unit then .ok hi
  else do
    if ← test (halfway unit lo hi) then
      if _ : halfway unit lo hi = lo then .error endless
      else bisect unit hunit endless test (halfway unit lo hi) hi
    else bisect unit hunit endless test lo (halfway unit lo hi)
termination_by (hi - lo).toNat
decreasing_by
  · have hmid := halfway_bounds hunit ‹¬hi - lo ≤ unit›
    omega
  · have hmid := halfway_bounds hunit ‹¬hi - lo ≤ unit›
    omega

section Bisect

variable {unit : ℕ} {hunit : 0 < unit} {endless : ε} {test : ℤ → Except ε Bool} {p : ℤ → Bool}
  {lo hi : ℤ}

theorem halfway_lattice (hlattice : (unit : ℤ) ∣ hi - lo) :
    (unit : ℤ) ∣ halfway unit lo hi - lo ∧ (unit : ℤ) ∣ hi - halfway unit lo hi := by
  have hmid : (unit : ℤ) ∣ halfway unit lo hi - lo :=
    ⟨(hi - lo) / unit / 2, by rw [halfway]; ring⟩
  refine ⟨hmid, ?_⟩
  have hrest : hi - halfway unit lo hi = (hi - lo) - (halfway unit lo hi - lo) := by ring
  rw [hrest]
  exact Int.dvd_sub hlattice hmid

theorem lt_halfway (hunit : 0 < unit) (hlattice : (unit : ℤ) ∣ hi - lo) (hfar : ¬hi - lo ≤ unit) :
    lo < halfway unit lo hi := by
  obtain ⟨k, hk⟩ := hlattice
  have hunit' : (0 : ℤ) < unit := by exact_mod_cast hunit
  have hk' : 2 ≤ k := by
    by_contra hlt
    have hle : (unit : ℤ) * k ≤ unit * 1 := Int.mul_le_mul_of_nonneg_left (by omega) hunit'.le
    omega
  have hquot : (hi - lo) / (unit : ℤ) = k := by rw [hk, Int.mul_ediv_cancel_left _ hunit'.ne']
  have hpos : 0 < k / 2 * (unit : ℤ) := Int.mul_pos (by omega) hunit'
  rw [halfway, hquot]
  omega

/-- Between a point where the test holds and a later one, whole units away, where it fails, the
halving ends, and one unit after a point where the test holds. -/
theorem bisect_spec (htest : ∀ t, lo ≤ t → t ≤ hi → test t = .ok (p t))
    (hlattice : (unit : ℤ) ∣ hi - lo) (hlt : lo < hi) (hlo : p lo = true) (hhi : p hi = false) :
    ∃ c, bisect unit hunit endless test lo hi = .ok c ∧ lo < c ∧ c ≤ hi ∧ (unit : ℤ) ∣ c - lo ∧
      p (c - unit) = true ∧ p c = false := by
  have hunit' : (0 : ℤ) < unit := by exact_mod_cast hunit
  fun_induction bisect unit hunit endless test lo hi with
  | case1 lo hi hnear =>
    obtain ⟨k, hk⟩ := hlattice
    obtain rfl : k = 1 := by
      have hpos : 0 < k := by
        by_contra hle
        have hneg : (unit : ℤ) * k ≤ unit * 0 := Int.mul_le_mul_of_nonneg_left (by omega) hunit'.le
        omega
      by_contra hne
      have hge : (unit : ℤ) * 2 ≤ unit * k := Int.mul_le_mul_of_nonneg_left (by omega) hunit'.le
      omega
    obtain rfl : lo = hi - unit := by omega
    exact ⟨hi, rfl, hlt, le_rfl, ⟨1, by omega⟩, hlo, hhi⟩
  | case2 lo hi hfar ihhigh ihlow =>
    have hbounds := halfway_bounds hunit hfar
    have hfirst := lt_halfway hunit hlattice hfar
    obtain ⟨hleft, hright⟩ := halfway_lattice hlattice
    rw [htest _ hbounds.1 hbounds.2.le, ok_bind]
    cases hmid : p (halfway unit lo hi) with
    | true =>
      simp only [if_true, dif_neg hfirst.ne']
      obtain ⟨c, heq, hlow, hle, hdvd, hbefore, hat⟩ := ihhigh hfirst.ne'
        (fun t hge hle ↦ htest t (hbounds.1.trans hge) hle) hright hbounds.2 hmid hhi
      refine ⟨c, heq, hfirst.trans hlow, hle, ?_, hbefore, hat⟩
      have hsum : c - lo = (c - halfway unit lo hi) + (halfway unit lo hi - lo) := by ring
      rw [hsum]
      exact Int.dvd_add hdvd hleft
    | false =>
      simp only [Bool.false_eq_true, if_false]
      obtain ⟨c, heq, hlow, hle, hdvd, hbefore, hat⟩ := ihlow
        (fun t hge hle ↦ htest t hge (hle.trans hbounds.2.le)) hleft hfirst hlo hmid
      exact ⟨c, heq, hlow, hle.trans hbounds.2.le, hdvd, hbefore, hat⟩

end Bisect

section Changes

variable {f : ℤ → α} {a b b' c : ℤ}

/-- A function that has one value up to a point of an interval and one from there on. -/
structure ChangesOnce (f : ℤ → α) (a b c : ℤ) : Prop where
  after : a < c
  upTo : c ≤ b
  before_eq : ∀ t, a ≤ t → t < c → f t = f a
  from_eq : ∀ t, c ≤ t → t ≤ b → f t = f b

theorem ChangesOnce.restrict (h : ChangesOnce f a b c) (hlt : a < b') (hle : b' ≤ b) :
    ChangesOnce f a b' (min c b') := by
  by_cases hc : c ≤ b'
  · rw [min_eq_left hc]
    refine ⟨h.after, hc, h.before_eq, fun t hge hle' ↦ ?_⟩
    rw [h.from_eq t hge (hle'.trans hle), h.from_eq b' hc hle]
  · rw [min_eq_right (not_le.1 hc).le]
    refine ⟨hlt, le_rfl, fun t hge hlt' ↦ h.before_eq t hge (hlt'.trans (not_le.1 hc)), ?_⟩
    intro t hge hle'
    rw [le_antisymm hle' hge]

theorem ChangesOnce.const (h : ChangesOnce f a b c) (heq : f b = f a) {t : ℤ} (hge : a ≤ t)
    (hle : t ≤ b) : f t = f a := by
  by_cases hlt : t < c
  · exact h.before_eq t hge hlt
  · rw [h.from_eq t (not_lt.1 hlt) hle, heq]

/-- Where the ends differ, the function is that of the start just before its change. -/
theorem ChangesOnce.eq_start_iff (h : ChangesOnce f a b c) (hne : f b ≠ f a) {t : ℤ} (hge : a ≤ t)
    (hle : t ≤ b) : f t = f a ↔ t < c := by
  refine ⟨fun heq ↦ ?_, h.before_eq t hge⟩
  by_contra hnot
  exact hne ((h.from_eq t (not_lt.1 hnot) hle).symm.trans heq)

theorem ChangesOnce.unique (h : ChangesOnce f a b c) {t : ℤ} (hlt : a < t) (hle : t ≤ b)
    (hne : f t ≠ f (t - 1)) : t = c := by
  rcases lt_trichotomy t c with hbefore | heq | hafter
  · refine absurd ?_ hne
    rw [h.before_eq t hlt.le hbefore, h.before_eq (t - 1) (by omega) (by omega)]
  · exact heq
  · refine absurd ?_ hne
    rw [h.from_eq t hafter.le hle, h.from_eq (t - 1) (by omega) (by omega)]

theorem ChangesOnce.change (h : ChangesOnce f a b c) (hne : f b ≠ f a) : f c ≠ f (c - 1) := by
  have hafter := h.after
  rw [h.from_eq c le_rfl h.upTo, h.before_eq (c - 1) (by omega) (by omega)]
  exact hne

end Changes

end Tiqora.Foundation
