import Mathlib.Data.List.Basic
import Mathlib.Logic.Relation

namespace Tiqora.Foundation

universe u v

/-- A labelled transition system: where runs start, and what one operation may do. -/
structure Machine (σ : Type u) (α : Type v) where
  init : σ → Prop
  step : σ → α → σ → Prop

namespace Machine

variable {σ τ : Type u} {α : Type v} {M : Machine σ α}

inductive Run (M : Machine σ α) : σ → List α → σ → Prop
  | nil (s : σ) : Run M s [] s
  | cons {s t u : σ} {a : α} {as : List α} : M.step s a t → Run M t as u → Run M s (a :: as) u

theorem Run.one {s t : σ} {a : α} (h : M.step s a t) : M.Run s [a] t := .cons h (.nil t)

theorem Run.append {s t u : σ} {as bs : List α} (h : M.Run s as t) (h' : M.Run t bs u) :
    M.Run s (as ++ bs) u := by
  induction h with
  | nil => exact h'
  | cons hs _ ih => exact .cons hs (ih h')

/-- What one step preserves, a whole run preserves. -/
theorem Run.invariant {I : σ → Prop} (hI : ∀ s a t, I s → M.step s a t → I t)
    {s t : σ} {as : List α} (h : M.Run s as t) (hs : I s) : I t := by
  induction h with
  | nil => exact hs
  | cons hst _ ih => exact ih (hI _ _ _ hs hst)

/-- A reflexive and transitive relation that every step from a good state respects
holds between the ends of a run. -/
theorem Run.relates {I : σ → Prop} {R : σ → σ → Prop} (hI : ∀ s a t, I s → M.step s a t → I t)
    (hrefl : ∀ s, R s s) (htrans : ∀ s t u, R s t → R t u → R s u)
    (hR : ∀ s a t, I s → M.step s a t → R s t)
    {s t : σ} {as : List α} (h : M.Run s as t) (hs : I s) : R s t := by
  induction h with
  | nil => exact hrefl _
  | cons hst _ ih => exact htrans _ _ _ (hR _ _ _ hs hst) (ih (hI _ _ _ hs hst))

def Reachable (M : Machine σ α) (s : σ) : Prop := ∃ s₀ as, M.init s₀ ∧ M.Run s₀ as s

theorem Reachable.start {s : σ} (h : M.init s) : M.Reachable s := ⟨s, [], h, .nil s⟩

theorem Reachable.run {s t : σ} {as : List α} (h : M.Reachable s) (hr : M.Run s as t) :
    M.Reachable t := by
  obtain ⟨s₀, bs, h₀, hb⟩ := h
  exact ⟨s₀, bs ++ as, h₀, hb.append hr⟩

theorem Reachable.step {s t : σ} {a : α} (h : M.Reachable s) (hst : M.step s a t) :
    M.Reachable t := h.run (.one hst)

theorem Reachable.invariant {I : σ → Prop} (h₀ : ∀ s, M.init s → I s)
    (hI : ∀ s a t, I s → M.step s a t → I t) {s : σ} (h : M.Reachable s) : I s := by
  obtain ⟨s₀, as, hs, hr⟩ := h
  exact hr.invariant hI (h₀ _ hs)

/-- The runs all of whose steps meet a condition on the state before the step. -/
def restrict (M : Machine σ α) (C : σ → α → Prop) : Machine σ α where
  init := M.init
  step s a t := C s a ∧ M.step s a t

theorem Run.of_restrict {C : σ → α → Prop} {s t : σ} {as : List α}
    (h : (M.restrict C).Run s as t) : M.Run s as t := by
  induction h with
  | nil => exact .nil _
  | cons hs _ ih => exact .cons hs.2 ih

theorem Run.weaken {C D : σ → α → Prop} (hCD : ∀ s a, C s a → D s a) {s t : σ} {as : List α}
    (h : (M.restrict C).Run s as t) : (M.restrict D).Run s as t := by
  induction h with
  | nil => exact .nil _
  | cons hs _ ih => exact .cons ⟨hCD _ _ hs.1, hs.2⟩ ih

/-- The machine of a partial step function. -/
def ofNext (init : σ → Prop) (next : σ → α → Option σ) : Machine σ α where
  init := init
  step s a t := next s a = some t

theorem run_of_foldlM {init : σ → Prop} {next : σ → α → Option σ} {C : σ → α → Prop}
    [∀ s a, Decidable (C s a)] {s t : σ} (as : List α)
    (h : as.foldlM (fun s a ↦ if C s a then next s a else none) s = some t) :
    ((ofNext init next).restrict C).Run s as t := by
  induction as generalizing s with
  | nil =>
    rw [List.foldlM_nil] at h
    cases h
    exact .nil _
  | cons a as ih =>
    rw [List.foldlM_cons, Option.bind_eq_bind, Option.bind_eq_some_iff] at h
    obtain ⟨u, hu, h⟩ := h
    by_cases hC : C s a
    · rw [if_pos hC] at hu
      exact .cons ⟨hC, hu⟩ (ih h)
    · rw [if_neg hC] at hu
      cases hu

/-- Actions that meet the condition in every state need no look at the states. -/
theorem run_of_foldlM_forall {init : σ → Prop} {next : σ → α → Option σ} {C : σ → α → Prop}
    {s t : σ} (as : List α) (hC : ∀ a ∈ as, ∀ s, C s a) (h : as.foldlM next s = some t) :
    ((ofNext init next).restrict C).Run s as t := by
  induction as generalizing s with
  | nil =>
    rw [List.foldlM_nil] at h
    cases h
    exact .nil _
  | cons a as ih =>
    rw [List.foldlM_cons, Option.bind_eq_bind, Option.bind_eq_some_iff] at h
    obtain ⟨u, hu, h⟩ := h
    rw [List.forall_mem_cons] at hC
    exact .cons ⟨hC.1 s, hu⟩ (ih hC.2 h)

theorem exists_reachable {init : σ → Prop} {next : σ → α → Option σ} {C : σ → α → Prop}
    [∀ s a, Decidable (C s a)] {β : Type} {f : σ → β} {b : β} {s₀ : σ} (as : List α)
    (h₀ : init s₀)
    (h : (as.foldlM (fun s a ↦ if C s a then next s a else none) s₀).map f = some b) :
    ∃ s, ((ofNext init next).restrict C).Reachable s ∧ f s = b := by
  obtain ⟨s, hs, hb⟩ := Option.map_eq_some_iff.1 h
  exact ⟨s, ⟨s₀, as, h₀, run_of_foldlM as hs⟩, hb⟩

theorem exists_reachable_of_foldlM {init : σ → Prop} {next : σ → α → Option σ} {β : Type}
    {f : σ → β} {b : β} {s₀ : σ} (as : List α) (h₀ : init s₀)
    (h : (as.foldlM next s₀).map f = some b) :
    ∃ s, (ofNext init next).Reachable s ∧ f s = b := by
  obtain ⟨s, hs, hb⟩ := Option.map_eq_some_iff.1 h
  have hrun : ((ofNext init next).restrict fun _ _ ↦ True).Run s₀ as s :=
    run_of_foldlM_forall as (fun _ _ _ ↦ trivial) hs
  exact ⟨s, ⟨s₀, as, h₀, hrun.of_restrict⟩, hb⟩

end Machine

end Tiqora.Foundation
