import Mathlib.Data.List.Nodup

namespace Tiqora.Foundation

variable {κ α : Type} [DecidableEq κ]

/-- A dictionary of sets, as `defaultdict(set)`, in the order of insertion. -/
abbrev KeySets (κ α : Type) := List (κ × List α)

namespace KeySets

def get (d : KeySets κ α) (key : κ) : List α := (d.lookup key).getD []

def keys (d : KeySets κ α) : List κ := d.map (·.1)

/-- An entry holds the set of its key. -/
theorem get_of_mem {d : KeySets κ α} (h : d.keys.Nodup) {key : κ} {values : List α}
    (hmem : (key, values) ∈ d) : d.get key = values := by
  induction d with
  | nil => cases hmem
  | cons entry rest ih =>
    obtain ⟨hnot, hrest⟩ := List.nodup_cons.1 h
    rw [get, List.lookup_cons]
    rcases List.mem_cons.1 hmem with rfl | htail
    · rw [beq_self_eq_true]
      rfl
    · have hne : (key == entry.1) = false := by
        refine beq_false_of_ne fun heq ↦ hnot ?_
        have hkey : entry.1 ∈ rest.map (·.1) := heq ▸ List.mem_map_of_mem htail
        exact hkey
      rw [hne]
      exact ih hrest htail

theorem mem_of_get {d : KeySets κ α} {key : κ} {v : α} (h : v ∈ d.get key) :
    (key, d.get key) ∈ d := by
  rw [get] at *
  cases hl : d.lookup key with
  | none =>
    rw [hl] at h
    cases h
  | some values =>
    obtain ⟨before, after, heq, _⟩ := List.lookup_eq_some_iff.1 hl
    rw [Option.getD_some]
    rw [heq]
    exact List.mem_append_right _ List.mem_cons_self

variable [DecidableEq α]

/-- `d[key].add(value)`. -/
def add : KeySets κ α → κ → α → KeySets κ α
  | [], key, value => [(key, [value])]
  | (key', values) :: rest, key, value =>
    if key' = key then (key', values.insert value) :: rest else (key', values) :: add rest key value

def ofPairs (pairs : List (κ × α)) : KeySets κ α := pairs.foldl (fun d p ↦ d.add p.1 p.2) []

theorem keys_add (d : KeySets κ α) (key : κ) (value : α) :
    (d.add key value).keys = if key ∈ d.keys then d.keys else d.keys ++ [key] := by
  induction d with
  | nil => rfl
  | cons entry rest ih =>
    obtain ⟨key', values⟩ := entry
    by_cases hkey : key' = key
    · rw [add, if_pos hkey, if_pos (by rw [keys, List.map_cons, hkey]; exact List.mem_cons_self)]
      rfl
    · rw [add, if_neg hkey, keys, List.map_cons, ← keys, ih]
      by_cases hmem : key ∈ keys rest
      · rw [if_pos hmem, if_pos]
        · rfl
        · exact List.mem_cons_of_mem _ hmem
      · rw [if_neg hmem, if_neg]
        · rfl
        · rintro (_ | ⟨_, hrest⟩)
          · exact hkey rfl
          · exact hmem hrest

theorem get_add (d : KeySets κ α) (key key' : κ) (value v : α) :
    v ∈ (d.add key value).get key' ↔ v ∈ d.get key' ∨ key' = key ∧ v = value := by
  induction d with
  | nil =>
    rw [add, get, get, List.lookup_cons]
    by_cases hkey : key' = key
    · subst hkey
      simp
    · simp [hkey, beq_false_of_ne hkey]
  | cons entry rest ih =>
    obtain ⟨k, values⟩ := entry
    rw [get, get] at ih
    rw [add]
    by_cases hkey : k = key
    · subst hkey
      rw [if_pos rfl, get, get, List.lookup_cons, List.lookup_cons]
      by_cases hk : key' = k
      · subst hk
        simp [or_comm]
      · simp [hk, beq_false_of_ne hk]
    · rw [if_neg hkey, get, get, List.lookup_cons, List.lookup_cons]
      by_cases hk : key' = k
      · subst hk
        simp [hkey]
      · simpa [beq_false_of_ne hk] using ih

theorem nodup_add {d : KeySets κ α} (h : d.keys.Nodup) (key : κ) (value : α) :
    (d.add key value).keys.Nodup := by
  rw [keys_add]
  split
  · exact h
  · next hmem =>
    refine List.nodup_append.2 ⟨h, List.nodup_singleton key, fun a ha b hb hab ↦ ?_⟩
    rw [List.mem_singleton.1 hb] at hab
    exact hmem (hab ▸ ha)

theorem ofPairs_spec (pairs : List (κ × α)) (d : KeySets κ α) (h : d.keys.Nodup) :
    (pairs.foldl (fun d p ↦ d.add p.1 p.2) d).keys.Nodup ∧
      ∀ key v, v ∈ (pairs.foldl (fun d p ↦ d.add p.1 p.2) d).get key ↔
        v ∈ d.get key ∨ (key, v) ∈ pairs := by
  induction pairs generalizing d with
  | nil => exact ⟨h, fun key v ↦ ⟨.inl, fun hv ↦ hv.resolve_right List.not_mem_nil⟩⟩
  | cons p pairs ih =>
    obtain ⟨hnodup, hget⟩ := ih (d.add p.1 p.2) (nodup_add h p.1 p.2)
    refine ⟨hnodup, fun key v ↦ ?_⟩
    rw [List.foldl_cons, hget, get_add, List.mem_cons, or_assoc, Prod.ext_iff]

/-- A value is in the set of a key if and only if the pair was added. -/
theorem mem_get_ofPairs {pairs : List (κ × α)} {key : κ} {v : α} :
    v ∈ (ofPairs pairs).get key ↔ (key, v) ∈ pairs := by
  rw [ofPairs, (ofPairs_spec pairs [] List.nodup_nil).2]
  exact ⟨fun h ↦ h.resolve_left List.not_mem_nil, .inr⟩

/-- The entries of the dictionary of some pairs: one for each key, with the values of its pairs. -/
theorem exists_entry_iff {pairs : List (κ × α)} {key : κ} {p : List α → Prop}
    (hp : p [] → False) :
    (∃ values, (key, values) ∈ ofPairs pairs ∧ p values) ↔ p ((ofPairs pairs).get key) := by
  have hnodup : (ofPairs pairs).keys.Nodup := (ofPairs_spec pairs [] List.nodup_nil).1
  constructor
  · rintro ⟨values, hmem, hvalues⟩
    rwa [get_of_mem hnodup hmem]
  · intro h
    cases hv : (ofPairs pairs).get key with
    | nil =>
      rw [hv] at h
      exact (hp h).elim
    | cons v vs =>
      have hmem : v ∈ (ofPairs pairs).get key := hv ▸ List.mem_cons_self
      exact ⟨_, mem_of_get hmem, h⟩

end KeySets

end Tiqora.Foundation
