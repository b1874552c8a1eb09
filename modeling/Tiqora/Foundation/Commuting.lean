import Mathlib.Data.List.Perm.Basic

namespace Tiqora.Foundation

variable {ε σ α β : Type}

theorem toOption_bind (x : Except ε α) (f : α → Except ε β) :
    (x >>= f).toOption = x.toOption.bind fun a ↦ (f a).toOption := by
  cases x <;> rfl

theorem toOption_eq_iff {x y : Except ε α} : x.toOption = y.toOption ↔
    (∃ e e', x = .error e ∧ y = .error e') ∨ ∃ a, x = .ok a ∧ y = .ok a := by
  cases x <;> cases y <;> simp [Except.toOption, eq_comm]

theorem eq_ok_of_toOption {x : Except ε α} {a : α} (h : x.toOption = some a) : x = .ok a := by
  cases x with
  | error e => cases h
  | ok b => exact congrArg Except.ok (Option.some.inj h)

/-- Steps that commute, up to which of them fails, run in any order. -/
theorem foldlM_perm {f : σ → α → Except ε σ}
    (hcomm : ∀ s a b, (f s a >>= fun t ↦ f t b).toOption = (f s b >>= fun t ↦ f t a).toOption)
    {l l' : List α} (h : l.Perm l') (s : σ) :
    (l.foldlM f s).toOption = (l'.foldlM f s).toOption := by
  induction h generalizing s with
  | nil => rfl
  | cons a _ ih =>
    rw [List.foldlM_cons, List.foldlM_cons, toOption_bind, toOption_bind]
    exact congrArg _ (funext ih)
  | swap a b l =>
    have hassoc : ∀ c d, ((c :: d :: l).foldlM f s).toOption =
        (f s c >>= fun t ↦ f t d).toOption.bind fun t ↦ (l.foldlM f t).toOption := by
      intro c d
      rw [List.foldlM_cons, toOption_bind, toOption_bind]
      simp only [List.foldlM_cons, toOption_bind, Option.bind_assoc]
    rw [hassoc, hassoc, hcomm]
  | trans _ _ ih ih' => exact (ih s).trans (ih' s)

end Tiqora.Foundation
