import Mathlib.Data.List.Basic
import Mathlib.Order.Defs.LinearOrder

namespace Tiqora.Foundation

variable {α : Type} {le : α → α → Bool}

/-- A stable sort leaves the elements of a kind that is in order as they were. -/
theorem filter_mergeSort (htrans : ∀ a b c, le a b = true → le b c = true → le a c = true)
    (htotal : ∀ a b, (le a b || le b a) = true) {l : List α} {p : α → Bool}
    (h : (l.filter p).Pairwise fun a b ↦ le a b = true) :
    (l.mergeSort le).filter p = l.filter p := by
  have hsub := (List.sublist_mergeSort htrans htotal h List.filter_sublist).filter p
  rw [List.filter_filter] at hsub
  simp only [Bool.and_self] at hsub
  exact (hsub.eq_of_length ((List.mergeSort_perm l le).filter p).length_eq.symm).symm

/-- The head of a list sorted by a key has everything up to its last element. -/
theorem mem_take_of_le_getLast {β γ : Type} [PartialOrder γ] {f : β → γ} {l : List β} {n : ℕ}
    {x y : β} (hl : l.Pairwise fun a b ↦ f a ≤ f b)
    (hinj : ∀ a ∈ l, ∀ b ∈ l, f a = f b → a = b) (hx : x ∈ l)
    (hlast : (l.take n).getLast? = some y) (hle : f x ≤ f y) : x ∈ l.take n := by
  have hy : y ∈ l.take n := List.mem_of_getLast? hlast
  have hmem := hx
  rw [← List.take_append_drop n l] at hl hmem
  rcases List.mem_append.1 hmem with hmem | hmem
  · exact hmem
  · have hge : f y ≤ f x := (List.pairwise_append.1 hl).2.2 y hy x hmem
    rwa [hinj x hx y (List.mem_of_mem_take hy) (le_antisymm hle hge)]

/-- A search finds an element that the list puts before all others searched for. -/
theorem find?_rel {β : Type} {r : β → β → Prop} (hrefl : ∀ a, r a a) {l : List β}
    (hl : l.Pairwise r) {p : β → Bool} {a b : β} (h : l.find? p = some a) (hb : b ∈ l)
    (hp : p b = true) : r a b := by
  induction l with
  | nil => cases hb
  | cons c l ih =>
    obtain ⟨hc, hl⟩ := List.pairwise_cons.1 hl
    rcases List.find?_cons_eq_some.1 h with ⟨-, rfl⟩ | ⟨hnot, h⟩
    · rcases List.mem_cons.1 hb with rfl | hb
      · exact hrefl b
      · exact hc b hb
    · rcases List.mem_cons.1 hb with rfl | hb
      · simp [hp] at hnot
      · exact ih hl h hb

/-- A search of a sorted list finds the least element. -/
theorem find?_le {β : Type} [Preorder β] {l : List β} (hl : l.Pairwise fun a b ↦ a ≤ b)
    {p : β → Bool} {a b : β} (h : l.find? p = some a) (hb : b ∈ l) (hp : p b = true) : a ≤ b :=
  find?_rel le_refl hl h hb hp

/-- A condition that holds of a head of the list holds of as many as there are in all. -/
theorem take_length_filter {β : Type} {p : β → Bool} {l : List β}
    (hl : l.Pairwise fun a b ↦ p b = true → p a = true) :
    l.take (l.filter p).length = l.filter p ∧
      l.drop (l.filter p).length = l.filter fun a ↦ !p a := by
  induction l with
  | nil => exact ⟨rfl, rfl⟩
  | cons a l ih =>
    obtain ⟨ha, hl⟩ := List.pairwise_cons.1 hl
    cases hp : p a with
    | true =>
      obtain ⟨htake, hdrop⟩ := ih hl
      simp only [List.filter_cons, hp, if_true, List.length_cons, List.take_succ_cons,
        List.drop_succ_cons, htake, hdrop, Bool.not_true, Bool.false_eq_true, if_false, and_self]
    | false =>
      have hnone : ∀ b ∈ l, p b = false := fun b hb ↦ Bool.eq_false_iff.2 fun hpb ↦ by
        rw [ha b hb hpb] at hp
        cases hp
      have hfilter : l.filter p = [] := List.filter_eq_nil_iff.2 fun b hb ↦ by simp [hnone b hb]
      have hself : l.filter (fun b ↦ !p b) = l := List.filter_eq_self.2 fun b hb ↦ by
        simp [hnone b hb]
      simp [hp, hfilter, hself]

end Tiqora.Foundation
