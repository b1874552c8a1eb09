import Mathlib.Data.List.Nodup

namespace Tiqora.Foundation

section Dicts

variable {κ ν α : Type} [DecidableEq κ]

/-- The assignment `d[key] = value`: a key keeps its place. -/
def setItem : List (κ × ν) → κ → ν → List (κ × ν)
  | [], key, value => [(key, value)]
  | item :: d, key, value =>
    if item.1 = key then (key, value) :: d else item :: setItem d key value

variable {d : List (κ × ν)} {key other : κ} {value : ν} {item : κ × ν}

theorem mem_setItem (h : item ∈ setItem d key value) : item ∈ d ∨ item = (key, value) := by
  induction d with
  | nil => exact .inr (List.mem_singleton.1 h)
  | cons first d ih =>
    rw [setItem] at h
    split at h
    · rcases List.mem_cons.1 h with rfl | h
      · exact .inr rfl
      · exact .inl (List.mem_cons_of_mem _ h)
    · rcases List.mem_cons.1 h with rfl | h
      · exact .inl List.mem_cons_self
      · exact (ih h).imp_left (List.mem_cons_of_mem _)

theorem lookup_setItem_self [BEq κ] [LawfulBEq κ] : (setItem d key value).lookup key =
    some value := by
  induction d with
  | nil => exact List.lookup_cons_self
  | cons item d ih =>
    rw [setItem]
    split
    · exact List.lookup_cons_self
    · next hne =>
      rw [List.lookup_cons, beq_false_of_ne (Ne.symm hne)]
      exact ih

theorem lookup_setItem_of_ne [BEq κ] [LawfulBEq κ] (h : other ≠ key) :
    (setItem d key value).lookup other = d.lookup other := by
  induction d with
  | nil =>
    rw [setItem, List.lookup_cons, beq_false_of_ne h]
  | cons item d ih =>
    rw [setItem]
    split
    · next heq =>
      rw [List.lookup_cons, List.lookup_cons, heq, beq_false_of_ne h]
    · rw [List.lookup_cons, List.lookup_cons, ih]

/-- The items that are made of keys. -/
theorem lookup_filterMap [BEq κ] [LawfulBEq κ] (f : κ → Option ν) (keys : List κ) :
    (keys.filterMap fun k ↦ (f k).map fun v ↦ (k, v)).lookup key =
      if key ∈ keys then f key else none := by
  induction keys with
  | nil => rfl
  | cons k keys ih =>
    cases hk : f k with
    | none =>
      rw [List.filterMap_cons_none (by rw [hk]; rfl), ih]
      by_cases heq : key = k
      · rw [heq, hk, ite_self, ite_self]
      · simp only [List.mem_cons, heq, false_or]
    | some v =>
      rw [List.filterMap_cons_some (by rw [hk]; rfl), List.lookup_cons]
      by_cases heq : key = k
      · rw [heq, if_pos List.mem_cons_self, hk, beq_self_eq_true]
      · rw [beq_false_of_ne heq, ih]
        simp only [List.mem_cons, heq, false_or]

omit [DecidableEq κ] in
theorem mem_of_lookup [BEq κ] [LawfulBEq κ] (h : d.lookup key = some value) :
    (key, value) ∈ d := by
  induction d with
  | nil => cases h
  | cons item d ih =>
    rw [List.lookup_cons] at h
    split at h
    · next heq =>
      rw [beq_iff_eq] at heq
      rw [heq, ← Option.some.inj h]
      exact List.mem_cons_self
    · exact List.mem_cons_of_mem _ (ih h)

omit [DecidableEq κ] in
theorem lookup_of_mem [BEq κ] [LawfulBEq κ] (hd : (d.map Prod.fst).Nodup) (h : item ∈ d) :
    d.lookup item.1 = some item.2 := by
  induction d with
  | nil => cases h
  | cons first d ih =>
    rw [List.map_cons, List.nodup_cons] at hd
    rcases List.mem_cons.1 h with rfl | h
    · exact List.lookup_cons_self
    · have hne : item.1 ≠ first.1 := fun heq ↦ hd.1 (heq ▸ List.mem_map.2 ⟨item, h, rfl⟩)
      rw [List.lookup_cons, beq_false_of_ne hne]
      exact ih hd.2 h

theorem setItem_new (h : key ∉ d.map Prod.fst) : setItem d key value = d ++ [(key, value)] := by
  induction d with
  | nil => rfl
  | cons item d ih =>
    rw [List.map_cons, List.mem_cons, not_or] at h
    rw [setItem, if_neg (Ne.symm h.1), ih h.2, List.cons_append]

/-- The keys stay distinct. -/
theorem nodup_setItem (h : (d.map Prod.fst).Nodup) :
    ((setItem d key value).map Prod.fst).Nodup := by
  induction d with
  | nil => exact List.nodup_singleton key
  | cons item d ih =>
    rw [List.map_cons, List.nodup_cons] at h
    rw [setItem]
    split
    · next heq =>
      rw [List.map_cons, List.nodup_cons]
      exact ⟨heq ▸ h.1, h.2⟩
    · next hne =>
      rw [List.map_cons, List.nodup_cons]
      refine ⟨fun hmem ↦ ?_, ih h.2⟩
      obtain ⟨other, hother, heq⟩ := List.mem_map.1 hmem
      rcases mem_setItem hother with hother | rfl
      · exact h.1 (heq ▸ List.mem_map.2 ⟨other, hother, rfl⟩)
      · exact hne heq.symm

/-- After assignments that agree, a key has the value that was assigned to it. -/
theorem lookup_foldl_setItem [BEq κ] [LawfulBEq κ] {pairs : List (κ × ν)}
    (h : ∀ k v w, (k, v) ∈ pairs → (k, w) ∈ pairs → v = w) :
    (pairs.foldl (fun d pair ↦ setItem d pair.1 pair.2) d).lookup key = some value ↔
      (key, value) ∈ pairs ∨ (∀ v, (key, v) ∉ pairs) ∧ d.lookup key = some value := by
  induction pairs generalizing d with
  | nil => simp
  | cons pair pairs ih =>
    have hrest : ∀ k v w, (k, v) ∈ pairs → (k, w) ∈ pairs → v = w := fun k v w hv hw ↦
      h k v w (List.mem_cons_of_mem _ hv) (List.mem_cons_of_mem _ hw)
    obtain ⟨first, given⟩ := pair
    rw [List.foldl_cons, ih hrest]
    by_cases heq : key = first
    · subst heq
      rw [lookup_setItem_self]
      constructor
      · rintro (hmem | ⟨-, hvalue⟩)
        · exact .inl (List.mem_cons_of_mem _ hmem)
        · cases hvalue
          exact .inl List.mem_cons_self
      · rintro (hmem | ⟨hnone, -⟩)
        · by_cases hfound : ∃ v, (key, v) ∈ pairs
          · obtain ⟨v, hv⟩ := hfound
            have hsame := h key v value (List.mem_cons_of_mem _ hv) hmem
            exact .inl (hsame ▸ hv)
          · rcases List.mem_cons.1 hmem with hmem | hmem
            · cases hmem
              exact .inr ⟨fun v hv ↦ hfound ⟨v, hv⟩, rfl⟩
            · exact .inl hmem
        · exact absurd List.mem_cons_self (hnone given)
    · have hmem : ∀ v, (key, v) ∈ (first, given) :: pairs ↔ (key, v) ∈ pairs := by
        intro v
        rw [List.mem_cons, Prod.mk.injEq]
        exact or_iff_right fun hpair ↦ heq hpair.1
      simp only [lookup_setItem_of_ne heq, hmem]

variable (f : α → Option (κ × ν)) {as : List α}

/-- Assignments to keys that are all new. -/
theorem foldl_setItem (hd : ∀ a ∈ as, ∀ item, f a = some item → item.1 ∉ d.map Prod.fst)
    (has : as.Pairwise fun a b ↦ ∀ x y, f a = some x → f b = some y → x.1 ≠ y.1) :
    as.foldl (fun d a ↦ (f a).elim d fun item ↦ setItem d item.1 item.2) d =
      d ++ as.filterMap f := by
  induction as generalizing d with
  | nil => exact (List.append_nil d).symm
  | cons a as ih =>
    rw [List.pairwise_cons] at has
    rw [List.foldl_cons, List.filterMap_cons]
    cases ha : f a with
    | none => exact ih (fun b hb ↦ hd b (List.mem_cons_of_mem _ hb)) has.2
    | some item =>
      have hnew : setItem d item.1 item.2 = d ++ [(item.1, item.2)] :=
        setItem_new (hd a List.mem_cons_self item ha)
      dsimp only [Option.elim_some]
      rw [hnew, ih _ has.2, List.append_assoc]
      · rfl
      · intro b hb other hother hmem
        rw [List.map_append, List.mem_append] at hmem
        rcases hmem with hmem | hmem
        · exact hd b (List.mem_cons_of_mem _ hb) other hother hmem
        · exact has.1 b hb item other ha hother (List.mem_singleton.1 hmem).symm

end Dicts

end Tiqora.Foundation
