import Mathlib.Data.Nat.Notation
import Mathlib.Data.Option.Basic

namespace Tiqora.Foundation

/-- A value in a store that drops it at a given time. -/
structure Expiring (α : Type) where
  value : α
  expires : ℕ

namespace Expiring

variable {α : Type} {k : Option (Expiring α)} {now : ℕ} {a : α}

/-- What a reader finds under a key. -/
def get (k : Option (Expiring α)) (now : ℕ) : Option α :=
  match k with
  | some e => if now < e.expires then some e.value else none
  | none => none

theorem get_eq_some : get k now = some a ↔ ∃ e, k = some e ∧ now < e.expires ∧ e.value = a := by
  cases k with
  | none => simp [get]
  | some e => by_cases h : now < e.expires <;> simp [get, h]

theorem get_eq_none : get k now = none ↔ ∀ e, k = some e → e.expires ≤ now := by
  cases k with
  | none => simp [get]
  | some e => by_cases h : now < e.expires <;> simp [get, h] <;> omega

end Expiring

end Tiqora.Foundation
