import Mathlib.Data.List.Basic

namespace Tiqora.Foundation

variable {α β : Type}

/-- What follows a pattern at the head of a text, where characters are compared by `same`. -/
def stripPrefix (same : α → α → Bool) : List α → List α → Option (List α)
  | [], s => some s
  | _ :: _, [] => none
  | p :: ps, c :: s => if same p c then stripPrefix same ps s else none

/-- The match that starts leftmost. -/
def firstMatch (m : List α → Option β) : List α → Option β
  | [] => m []
  | c :: s =>
    match m (c :: s) with
    | some r => some r
    | none => firstMatch m s

variable {same : α → α → Bool} {p s t : List α} {m : List α → Option β}

theorem stripPrefix_append (hsame : ∀ c, same c c = true) (p s : List α) :
    stripPrefix same p (p ++ s) = some s := by
  induction p with
  | nil => rfl
  | cons c p ih => rw [List.cons_append, stripPrefix, if_pos (hsame c), ih]

theorem stripPrefix_eq_none (h : s.length < p.length) : stripPrefix same p s = none := by
  induction p generalizing s with
  | nil => cases h
  | cons d p ih =>
    cases s with
    | nil => rfl
    | cons c s =>
      rw [stripPrefix, ih (Nat.lt_of_succ_lt_succ h), ite_self]

theorem stripPrefix_append_right (h : p.length ≤ s.length) (t : List α) :
    stripPrefix same p (s ++ t) = (stripPrefix same p s).map (· ++ t) := by
  induction p generalizing s with
  | nil => rfl
  | cons d p ih =>
    cases s with
    | nil => cases h
    | cons c s =>
      rw [List.cons_append, stripPrefix, stripPrefix, ih (Nat.le_of_succ_le_succ h)]
      cases same d c <;> rfl

theorem stripPrefix_eq_some {r : List α} (h : stripPrefix same p s = some r) :
    r = s.drop p.length ∧ ∀ i c, i < p.length → s[i]? = some c → ∃ d, p[i]? = some d ∧
      same d c = true := by
  induction p generalizing s with
  | nil =>
    cases h
    exact ⟨rfl, fun i _ hi ↦ absurd hi (Nat.not_lt_zero i)⟩
  | cons d p ih =>
    cases s with
    | nil => cases h
    | cons c s =>
      rw [stripPrefix] at h
      split at h
      · next hhead =>
        obtain ⟨hdrop, hsame⟩ := ih h
        refine ⟨hdrop, fun i e hi he ↦ ?_⟩
        cases i with
        | zero =>
          cases he
          exact ⟨d, rfl, hhead⟩
        | succ i => exact hsame i e (Nat.lt_of_succ_lt_succ hi) he
      · cases h

theorem firstMatch_head {r : β} (h : m s = some r) : firstMatch m s = some r := by
  cases s with
  | nil => exact h
  | cons c s => rw [firstMatch, h]

theorem firstMatch_eq_none (h : ∀ u v, s = u ++ v → m v = none) : firstMatch m s = none := by
  induction s with
  | nil => exact h [] [] rfl
  | cons c s ih =>
    rw [firstMatch, h [] (c :: s) rfl]
    exact ih fun u v huv ↦ h (c :: u) v (congrArg (c :: ·) huv)

/-- Where the matches that start in `s` do not depend on what follows `s`, the leftmost match is the
one of `s ++ t`, or else the one of what follows. -/
theorem firstMatch_append {t t' : List α} (hnone : firstMatch m t = none)
    (h : ∀ u v, s = u ++ v → v ≠ [] → m (v ++ t') = m (v ++ t)) :
    firstMatch m (s ++ t') = (firstMatch m (s ++ t)).or (firstMatch m t') := by
  induction s with
  | nil => rw [List.nil_append, List.nil_append, hnone, Option.none_or]
  | cons c s ih =>
    have hhead := h [] (c :: s) rfl (List.cons_ne_nil c s)
    rw [List.cons_append, List.cons_append, firstMatch, firstMatch] at *
    rw [hhead, ih fun u v huv ↦ h (c :: u) v (congrArg (c :: ·) huv)]
    cases m (c :: (s ++ t)) <;> rfl

end Tiqora.Foundation
