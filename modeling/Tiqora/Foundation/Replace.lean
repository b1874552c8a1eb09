import Mathlib.Data.List.Infix
import Mathlib.Data.Nat.Notation

namespace Tiqora.Foundation

universe u

variable {α : Type u}

def replaceFrom [DecidableEq α] (old new : List α) : ℕ → List α → List α
  | _, [] => []
  | skip + 1, _ :: s => replaceFrom old new skip s
  | 0, c :: s =>
    if old.isPrefixOf (c :: s) then new ++ replaceFrom old new (old.length - 1) s
    else c :: replaceFrom old new 0 s

/-- Every occurrence of a pattern that is not empty, from the left on, is replaced. -/
def replaceAll [DecidableEq α] (old new s : List α) : List α := replaceFrom old new 0 s

variable {old new s r : List α}

/-- No element of the text stands in the replacement. -/
def Clear (new s : List α) : Prop := ∀ c ∈ new, c ∉ s

theorem prefix_of_clear {u : List α} (hclear : Clear new u) (hnew : new ≠ [])
    (h : u <+: new ++ r) : u = [] := by
  cases u with
  | nil => rfl
  | cons c u =>
    obtain ⟨d, new, rfl⟩ := List.exists_cons_of_ne_nil hnew
    obtain ⟨rfl, -⟩ := List.cons_prefix_cons.1 h
    exact absurd List.mem_cons_self (hclear c List.mem_cons_self)

theorem infix_of_clear {u : List α} (hclear : Clear new u) (h : u <:+: new ++ r) :
    u <:+: r := by
  induction new with
  | nil => exact h
  | cons d new ih =>
    rcases List.infix_cons_iff.1 h with h | h
    · have hnil := prefix_of_clear hclear (List.cons_ne_nil _ _) h
      exact hnil ▸ List.nil_infix
    · exact ih (fun c hc ↦ hclear c (List.mem_cons_of_mem _ hc)) h

section Replace

variable [DecidableEq α]

theorem replaceFrom_eq (skip : ℕ) : replaceFrom old new skip s =
    replaceAll old new (s.drop skip) := by
  induction s generalizing skip with
  | nil =>
    rw [List.drop_nil]
    cases skip <;> rfl
  | cons c s ih =>
    cases skip with
    | zero => rfl
    | succ skip => exact ih skip

theorem replaceAll_nil : replaceAll old new [] = [] := rfl

theorem replaceAll_hit (hold : old ≠ []) :
    replaceAll old new (old ++ s) = new ++ replaceAll old new s := by
  cases old with
  | nil => exact absurd rfl hold
  | cons c old =>
    have hprefix : (c :: old).isPrefixOf (c :: (old ++ s)) = true :=
      List.isPrefixOf_iff_prefix.2 ⟨s, rfl⟩
    rw [replaceAll, List.cons_append, replaceFrom, if_pos hprefix, replaceFrom_eq,
      List.length_cons, Nat.add_sub_cancel, List.drop_left]

theorem replaceAll_miss {c : α} (h : ¬ old <+: c :: s) :
    replaceAll old new (c :: s) = c :: replaceAll old new s := by
  rw [replaceAll, replaceFrom, if_neg (mt List.isPrefixOf_iff_prefix.1 h)]
  rfl

theorem replaceAll_single (c : α) : replaceAll [c] new s =
    s.flatMap fun d ↦ if d = c then new else [d] := by
  induction s with
  | nil => rfl
  | cons d s ih =>
    rw [List.flatMap_cons, ← ih]
    by_cases h : d = c
    · rw [if_pos h, h]
      exact replaceAll_hit (s := s) (List.cons_ne_nil c [])
    · rw [if_neg h]
      refine replaceAll_miss fun hprefix ↦ h ?_
      exact (List.cons_prefix_cons.1 hprefix).1.symm

/-- A text is read from the left: behind an occurrence, or behind one element. -/
theorem replaceAll_induct (hold : old ≠ []) {P : List α → Prop} (nil : P [])
    (hit : ∀ s, P s → P (old ++ s)) (miss : ∀ c s, ¬ old <+: c :: s → P s → P (c :: s)) (s :
      List α) :
    P s := by
  induction hlen : s.length using Nat.strongRecOn generalizing s with
  | ind n ih =>
    cases s with
    | nil => exact nil
    | cons c s =>
      by_cases h : old <+: c :: s
      · obtain ⟨t, ht⟩ := h
        have hpos := List.length_pos_iff.2 hold
        have hlen' := congrArg List.length ht
        rw [List.length_append] at hlen'
        rw [← ht]
        exact hit t (ih t.length (by omega) t rfl)
      · refine miss c s h (ih s.length ?_ s rfl)
        rw [← hlen, List.length_cons]
        exact Nat.lt_succ_self _

theorem prefix_of_prefix_replaceAll (hold : old ≠ []) (hnew : new ≠ []) {u : List α}
    (hclear : Clear new u) (h : u <+: replaceAll old new s) : u <+: s := by
  induction s using replaceAll_induct hold generalizing u with
  | nil => exact h
  | hit s ih =>
    rw [replaceAll_hit hold] at h
    exact prefix_of_clear hclear hnew h ▸ List.nil_prefix
  | miss c s hmiss ih =>
    rw [replaceAll_miss hmiss] at h
    cases u with
    | nil => exact List.nil_prefix
    | cons d u =>
      obtain ⟨hd, htail⟩ := List.cons_prefix_cons.1 h
      exact List.cons_prefix_cons.2
        ⟨hd, ih (fun c hc hu ↦ hclear c hc (List.mem_cons_of_mem _ hu)) htail⟩

/-- A replacement makes no new occurrence of a text that is clear of it. -/
theorem infix_of_infix_replaceAll (hold : old ≠ []) (hnew : new ≠ []) {u : List α}
    (hclear : Clear new u) (h : u <:+: replaceAll old new s) : u <:+: s := by
  induction s using replaceAll_induct hold with
  | nil => exact h
  | hit s ih =>
    rw [replaceAll_hit hold] at h
    exact (ih (infix_of_clear hclear h)).trans (List.suffix_append _ _).isInfix
  | miss c s hmiss ih =>
    have hcons := h
    rw [replaceAll_miss hmiss] at hcons
    rcases List.infix_cons_iff.1 hcons with hprefix | hinfix
    · rw [← replaceAll_miss hmiss] at hprefix
      exact (prefix_of_prefix_replaceAll hold hnew hclear hprefix).isInfix
    · exact List.infix_cons_iff.2 (.inr (ih hinfix))

/-- The pattern does not occur any more. -/
theorem not_infix_replaceAll (hold : old ≠ []) (hnew : new ≠ []) (hclear : Clear new old) :
    ¬ old <:+: replaceAll old new s := by
  induction s using replaceAll_induct hold with
  | nil => exact fun h ↦ hold (List.infix_nil.1 h)
  | hit s ih =>
    rw [replaceAll_hit hold]
    exact fun h ↦ ih (infix_of_clear hclear h)
  | miss c s hmiss ih =>
    intro h
    have hcons := h
    rw [replaceAll_miss hmiss] at hcons
    rcases List.infix_cons_iff.1 hcons with hprefix | hinfix
    · rw [← replaceAll_miss hmiss] at hprefix
      exact hmiss (prefix_of_prefix_replaceAll hold hnew hclear hprefix)
    · exact ih hinfix

theorem replaceAll_clear (hold : old ≠ []) {m : List α} (hclear : Clear m old) :
    replaceAll old new (m ++ s) = m ++ replaceAll old new s := by
  induction m with
  | nil => rfl
  | cons c m ih =>
    have hmiss : ¬ old <+: c :: (m ++ s) := by
      obtain ⟨d, old, rfl⟩ := List.exists_cons_of_ne_nil hold
      intro h
      obtain ⟨rfl, -⟩ := List.cons_prefix_cons.1 h
      exact hclear d List.mem_cons_self List.mem_cons_self
    rw [List.cons_append, replaceAll_miss hmiss,
      ih fun c hc ↦ hclear c (List.mem_cons_of_mem _ hc), List.cons_append]

end Replace

/-- The second text is the first with some parts of it covered by the mask. -/
inductive Covers (hidden : List α → Prop) (mask : List α) : List α → List α → Prop
  | nil : Covers hidden mask [] []
  | keep {c : α} {s r : List α} : Covers hidden mask s r → Covers hidden mask (c :: s) (c :: r)
  | cover {h s r : List α} : hidden h → Covers hidden mask s r →
      Covers hidden mask (h ++ s) (mask ++ r)

namespace Covers

variable {hidden : List α → Prop} {mask : List α}

theorem refl (s : List α) : Covers hidden mask s s := by
  induction s with
  | nil => exact .nil
  | cons c s ih => exact .keep ih

theorem uncovered {u : List α} (hclear : Clear mask u) (hmask : mask ≠ [])
    (h : Covers hidden mask s (u ++ r)) : ∃ t, s = u ++ t ∧ Covers hidden mask t r := by
  induction u generalizing s with
  | nil => exact ⟨s, rfl, h⟩
  | cons c u ih =>
    rw [List.cons_append] at h
    generalize hr : c :: (u ++ r) = whole at h
    cases h with
    | nil => cases hr
    | keep h =>
      obtain ⟨rfl, rfl⟩ := List.cons.inj hr
      obtain ⟨t, rfl, ht⟩ := ih (fun c hc hu ↦ hclear c hc (List.mem_cons_of_mem _ hu)) h
      exact ⟨t, rfl, ht⟩
    | cover _ _ =>
      have hprefix : c :: u <+: mask ++ _ := ⟨r, hr⟩
      cases prefix_of_clear hclear hmask hprefix

theorem replaceAll [DecidableEq α] (h : Covers hidden mask s r) (hold : old ≠ []) (hhidden :
    hidden old)
    (hmask : mask ≠ []) (hclear : Clear mask old) :
    Covers hidden mask s (replaceAll old mask r) := by
  induction hlen : r.length using Nat.strongRecOn generalizing s r with
  | ind n ih =>
    cases h with
    | nil => exact .nil
    | @keep c s r h =>
      rw [List.length_cons] at hlen
      by_cases hprefix : old <+: c :: r
      · obtain ⟨t, ht⟩ := hprefix
        have hpos := List.length_pos_iff.2 hold
        have hlen' := congrArg List.length ht
        rw [List.length_append, List.length_cons] at hlen'
        have hkeep : Covers hidden mask (c :: s) (old ++ t) := ht ▸ .keep h
        obtain ⟨s', hs, hcovers⟩ := hkeep.uncovered hclear hmask
        rw [← ht, replaceAll_hit hold, hs]
        exact .cover hhidden (ih t.length (by omega) hcovers rfl)
      · rw [replaceAll_miss hprefix]
        exact .keep (ih r.length (by omega) h rfl)
    | @cover h' s r hh h =>
      have hpos := List.length_pos_iff.2 hmask
      rw [List.length_append] at hlen
      rw [replaceAll_clear hold hclear]
      exact .cover hh (ih r.length (by omega) h rfl)

/-- The parts that are not covered, in their order, with what was covered between them. -/
theorem parts (h : Covers hidden mask s r) :
    ∃ (first : List α) (rest : List (List α × List α)),
      s = first ++ rest.flatMap (fun p ↦ p.1 ++ p.2) ∧
        r = first ++ rest.flatMap (fun p ↦ mask ++ p.2) ∧ ∀ p ∈ rest, hidden p.1 := by
  induction h with
  | nil => exact ⟨[], [], rfl, rfl, fun _ hp ↦ absurd hp List.not_mem_nil⟩
  | @keep c s r _ ih =>
    obtain ⟨first, rest, rfl, rfl, hrest⟩ := ih
    exact ⟨c :: first, rest, rfl, rfl, hrest⟩
  | @cover h s r hh _ ih =>
    obtain ⟨first, rest, rfl, rfl, hrest⟩ := ih
    refine ⟨[], (h, first) :: rest, ?_, ?_, List.forall_mem_cons.2 ⟨hh, hrest⟩⟩
    · rw [List.nil_append, List.flatMap_cons, List.append_assoc]
    · rw [List.nil_append, List.flatMap_cons, List.append_assoc]

end Covers

end Tiqora.Foundation
