import Mathlib.Data.List.Dedup
import Mathlib.Data.List.Sort
import Mathlib.Data.List.Range

namespace Tiqora.Foundation

universe u v

variable {κ : Type u} {ρ : Type v}

/-- The slices `xs[start : start + n]` for `start` in `range(0, len(xs), n)`. -/
def chunks (n : ℕ) (xs : List κ) : List (List κ) :=
  (List.range ((xs.length + n - 1) / n)).map fun i ↦ (xs.drop (i * n)).take n

theorem mem_flatten_chunks {n : ℕ} (hn : 0 < n) {xs : List κ} {x : κ} :
    x ∈ (chunks n xs).flatten ↔ x ∈ xs := by
  simp only [chunks, List.mem_flatten, List.mem_map, List.mem_range, exists_exists_and_eq_and]
  constructor
  · rintro ⟨i, -, hx⟩
    exact List.mem_of_mem_drop (List.mem_of_mem_take hx)
  · intro hx
    obtain ⟨j, hj, rfl⟩ := List.mem_iff_getElem.1 hx
    have hmod := Nat.mod_lt j hn
    have hsplit := Nat.div_add_mod' j n
    refine ⟨j / n, ?_, ?_⟩
    · rw [Nat.lt_div_iff_mul_lt hn]
      omega
    · rw [List.mem_take_iff_getElem]
      refine ⟨j % n, by rw [List.length_drop]; omega, ?_⟩
      rw [List.getElem_drop]
      congr 1

theorem flatten_chunks {n : ℕ} (hn : 0 < n) (xs : List κ) : (chunks n xs).flatten = xs := by
  have htake : ∀ m, ((List.range m).map fun i ↦ (xs.drop (i * n)).take n).flatten =
      xs.take (m * n) := by
    intro m
    induction m with
    | zero => simp
    | succ m ih =>
      rw [List.range_succ, List.map_append, List.flatten_append, ih, Nat.succ_mul, List.take_add]
      simp
  have hlength : xs.length ≤ (xs.length + n - 1) / n * n := by
    have hdiv := Nat.div_add_mod' (xs.length + n - 1) n
    have hmod := Nat.mod_lt (xs.length + n - 1) hn
    omega
  rw [chunks, htake, List.take_of_length_le hlength]

theorem nodup_of_mem_chunks {n : ℕ} {xs c : List κ} (hxs : xs.Nodup) (hc : c ∈ chunks n xs) :
    c.Nodup := by
  obtain ⟨i, -, rfl⟩ := List.mem_map.1 hc
  exact hxs.sublist ((List.take_sublist _ _).trans (List.drop_sublist _ _))

section SortedSet

variable {α : Type u} [LinearOrder α]

/-- `sorted(set(xs))`. -/
def sortedSet (xs : List α) : List α := xs.dedup.insertionSort (· ≤ ·)

@[simp] theorem mem_sortedSet {xs : List α} {x : α} : x ∈ sortedSet xs ↔ x ∈ xs := by
  rw [sortedSet, List.mem_insertionSort, List.mem_dedup]

theorem nodup_sortedSet (xs : List α) : (sortedSet xs).Nodup :=
  (List.perm_insertionSort _ _).nodup_iff.2 (List.nodup_dedup xs)

theorem sortedSet_congr {xs ys : List α} (h : ∀ x, x ∈ xs ↔ x ∈ ys) :
    sortedSet xs = sortedSet ys := by
  have hperm : (sortedSet xs).Perm (sortedSet ys) := by
    refine (List.perm_ext_iff_of_nodup (nodup_sortedSet xs) (nodup_sortedSet ys)).2 fun x ↦ ?_
    rw [mem_sortedSet, mem_sortedSet, h]
  exact hperm.eq_of_pairwise' (List.pairwise_insertionSort _ _) (List.pairwise_insertionSort _ _)

theorem filter_sortedSet (p : α → Bool) (xs : List α) :
    (sortedSet xs).filter p = sortedSet (xs.filter p) := by
  have hperm : ((sortedSet xs).filter p).Perm (sortedSet (xs.filter p)) := by
    refine (List.perm_ext_iff_of_nodup ((nodup_sortedSet xs).filter p) (nodup_sortedSet _)).2
      fun x ↦ ?_
    rw [List.mem_filter, mem_sortedSet, mem_sortedSet, List.mem_filter]
  exact hperm.eq_of_pairwise' ((List.pairwise_insertionSort _ _).filter p)
    (List.pairwise_insertionSort _ _)

theorem filter_sortedSet_congr {p : α → Bool} {xs ys : List α}
    (h : ∀ x, p x = true → (x ∈ xs ↔ x ∈ ys)) :
    (sortedSet xs).filter p = (sortedSet ys).filter p := by
  rw [filter_sortedSet, filter_sortedSet]
  refine sortedSet_congr fun x ↦ ?_
  rw [List.mem_filter, List.mem_filter]
  exact and_congr_left (h x)

/-- Elements that nothing comes of may be left out. -/
theorem flatMap_sortedSet_congr {β : Type v} {f : α → List β} {xs ys : List α}
    (h : ∀ x, f x ≠ [] → (x ∈ xs ↔ x ∈ ys)) :
    (sortedSet xs).flatMap f = (sortedSet ys).flatMap f := by
  have hfilter : ∀ l : List α, l.flatMap f = (l.filter fun x ↦ !(f x).isEmpty).flatMap f := by
    intro l
    induction l with
    | nil => rfl
    | cons x l ih =>
      rw [List.flatMap_cons, List.filter_cons]
      split
      · rw [List.flatMap_cons, ih]
      · next hnil =>
        rw [Bool.not_eq_true', Bool.not_eq_false, List.isEmpty_iff] at hnil
        rw [hnil, List.nil_append, ih]
  rw [hfilter, hfilter (sortedSet ys), filter_sortedSet_congr]
  intro x hx
  rw [Bool.not_eq_true', List.isEmpty_eq_false_iff] at hx
  exact h x hx

end SortedSet

/-- The committed rows of a table under its primary key. -/
structure Table (κ : Type u) (ρ : Type v) where
  rows : List (κ × ρ)
  keyed : rows.Pairwise fun r r' ↦ r.1 ≠ r'.1
  deriving DecidableEq

namespace Table

def empty : Table κ ρ := ⟨[], .nil⟩

def Has (T : Table κ ρ) (k : κ) : Prop := ∃ v, (k, v) ∈ T.rows

theorem value_unique (T : Table κ ρ) {k : κ} {v w : ρ} (hv : (k, v) ∈ T.rows)
    (hw : (k, w) ∈ T.rows) : v = w := by
  have hsymm : Std.Symm fun r r' : κ × ρ ↦ r.1 ≠ r'.1 := ⟨fun _ _ h ↦ h.symm⟩
  by_contra hne
  exact T.keyed.forall hv hw (fun h ↦ hne (Prod.mk.inj h).2) rfl

def delete (T : Table κ ρ) (p : κ × ρ → Bool) : Table κ ρ :=
  ⟨T.rows.filter fun r ↦ !p r, T.keyed.filter _⟩

theorem mem_delete {T : Table κ ρ} {p : κ × ρ → Bool} {r : κ × ρ} :
    r ∈ (T.delete p).rows ↔ r ∈ T.rows ∧ p r = false := by
  simp only [delete, List.mem_filter, Bool.not_eq_true']

/-- One `DELETE` for each chunk of keys. -/
theorem mem_foldl_delete {p : List κ → κ × ρ → Bool} {cs : List (List κ)} {T : Table κ ρ}
    {r : κ × ρ} :
    r ∈ (cs.foldl (fun T c ↦ T.delete (p c)) T).rows ↔
      r ∈ T.rows ∧ ∀ c ∈ cs, p c r = false := by
  induction cs generalizing T with
  | nil => simp
  | cons c cs ih =>
    rw [List.foldl_cons, ih, mem_delete, List.forall_mem_cons, and_assoc]

theorem mem_delete_key {T : Table κ ρ} [DecidableEq κ] {keys : List κ} {k : κ} {v : ρ} :
    (k, v) ∈ (T.delete fun r ↦ r.1 ∈ keys).rows ↔ (k, v) ∈ T.rows ∧ k ∉ keys := by
  rw [mem_delete, decide_eq_false_iff_not]

/-- An `UPDATE` that leaves the keys alone. -/
def update (T : Table κ ρ) (f : κ → ρ → ρ) : Table κ ρ :=
  ⟨T.rows.map fun r ↦ (r.1, f r.1 r.2), List.pairwise_map.2 T.keyed⟩

theorem mem_update {T : Table κ ρ} {f : κ → ρ → ρ} {k : κ} {v : ρ} :
    (k, v) ∈ (T.update f).rows ↔ ∃ w, (k, w) ∈ T.rows ∧ v = f k w := by
  simp only [update, List.mem_map, Prod.mk.injEq]
  constructor
  · rintro ⟨r, hr, rfl, rfl⟩
    exact ⟨r.2, hr, rfl⟩
  · rintro ⟨w, hw, rfl⟩
    exact ⟨(k, w), hw, rfl, rfl⟩

variable [DecidableEq κ]

/-- An `INSERT`, which a primary key that is there already makes fail. -/
def insert (T : Table κ ρ) (new : List (κ × ρ)) : Option (Table κ ρ) :=
  if h : (T.rows ++ new).Pairwise fun r r' ↦ r.1 ≠ r'.1 then some ⟨T.rows ++ new, h⟩ else none

theorem rows_of_insert {T T' : Table κ ρ} {new : List (κ × ρ)} (h : T.insert new = some T') :
    T'.rows = T.rows ++ new := by
  rw [insert] at h
  split at h
  · cases h
    rfl
  · cases h

/-- The row of a key, written whether or not there is one; without a value it is deleted. -/
def set (T : Table κ ρ) (k : κ) (value : Option ρ) : Table κ ρ where
  rows := (T.delete fun r ↦ r.1 ∈ [k]).rows ++ (value.map fun v ↦ (k, v)).toList
  keyed := by
    refine List.pairwise_append.2 ⟨(T.delete _).keyed, ?_, ?_⟩
    · cases value with
      | none => exact .nil
      | some v => exact List.pairwise_singleton _ _
    · rintro ⟨k', v'⟩ hr r' hr' heq
      obtain ⟨v, -, rfl⟩ := Option.map_eq_some_iff.1 (Option.mem_toList.1 hr')
      exact (mem_delete_key.1 hr).2 (List.mem_singleton.2 heq)

theorem mem_set {T : Table κ ρ} {k k' : κ} {value : Option ρ} {v : ρ} :
    (k', v) ∈ (T.set k value).rows ↔
      ((k', v) ∈ T.rows ∧ k' ≠ k) ∨ (k' = k ∧ value = some v) := by
  rw [set, List.mem_append, mem_delete_key, List.mem_singleton, Option.mem_toList,
    Option.map_eq_some_iff]
  refine or_congr_right ?_
  constructor
  · rintro ⟨w, rfl, heq⟩
    cases heq
    exact ⟨rfl, rfl⟩
  · rintro ⟨rfl, rfl⟩
    exact ⟨v, rfl, rfl⟩

def find (T : Table κ ρ) (k : κ) : Option ρ := (T.rows.find? fun r ↦ r.1 = k).map (·.2)

theorem find_eq_some {T : Table κ ρ} {k : κ} {v : ρ} : T.find k = some v ↔ (k, v) ∈ T.rows := by
  rw [find, Option.map_eq_some_iff]
  constructor
  · rintro ⟨r, hr, rfl⟩
    have hk := List.find?_some hr
    rw [decide_eq_true_eq] at hk
    exact hk ▸ List.mem_of_find?_eq_some hr
  · intro hv
    cases hr : T.rows.find? fun r ↦ r.1 = k with
    | none => exact absurd (decide_eq_true rfl) (List.find?_eq_none.1 hr _ hv)
    | some r =>
      have hk := List.find?_some hr
      rw [decide_eq_true_eq] at hk
      have hr := List.mem_of_find?_eq_some hr
      exact ⟨r, rfl, T.value_unique (hk ▸ hr) hv⟩

theorem rows_set {T : Table κ ρ} {k : κ} {v : ρ} :
    (T.set k (some v)).rows = T.rows.filter (fun r ↦ !decide (r.1 = k)) ++ [(k, v)] := by
  simp only [set, delete, List.mem_singleton, Option.map_some, Option.toList_some]

theorem find_set_self {T : Table κ ρ} {k : κ} {value : Option ρ} : (T.set k value).find k = value := by
  refine Option.ext fun v ↦ ?_
  rw [find_eq_some, mem_set]
  constructor
  · rintro (⟨-, hne⟩ | ⟨-, hv⟩)
    · exact absurd rfl hne
    · exact hv
  · exact fun hv ↦ .inr ⟨rfl, hv⟩

theorem filter_key {T : Table κ ρ} {k : κ} {v : ρ} (h : (k, v) ∈ T.rows) :
    T.rows.filter (fun r ↦ r.1 = k) = [(k, v)] := by
  obtain ⟨before, after, hrows⟩ := List.append_of_mem h
  have hkeyed := T.keyed
  rw [hrows, List.pairwise_append, List.pairwise_cons] at hkeyed
  obtain ⟨-, ⟨hafter, -⟩, hbefore⟩ := hkeyed
  have hnot : ∀ r ∈ before, ¬ r.1 = k := fun r hr ↦ hbefore r hr _ List.mem_cons_self
  have hnot' : ∀ r ∈ after, ¬ r.1 = k := fun r hr heq ↦ hafter r hr heq.symm
  have hpos : ((k, v) :: after).filter (fun r ↦ r.1 = k) =
      (k, v) :: after.filter fun r ↦ r.1 = k := List.filter_cons_of_pos (decide_eq_true rfl)
  rw [hrows, List.filter_append, hpos,
    List.filter_eq_nil_iff.2 fun r hr ↦ by rw [decide_eq_true_eq]; exact hnot r hr,
    List.filter_eq_nil_iff.2 fun r hr ↦ by rw [decide_eq_true_eq]; exact hnot' r hr]
  rfl

/-- How a count over the rows changes with one row. -/
theorem countP_set {T : Table κ ρ} {k : κ} {v v' : ρ} (p : ρ → Bool) (h : T.find k = some v) :
    (T.set k (some v')).rows.countP (fun r ↦ p r.2) + (if p v then 1 else 0) =
      T.rows.countP (fun r ↦ p r.2) + (if p v' then 1 else 0) := by
  have hsplit := List.countP_eq_countP_filter_add T.rows (fun r ↦ p r.2) fun r ↦ r.1 = k
  rw [filter_key (find_eq_some.1 h), List.countP_singleton] at hsplit
  rw [rows_set, List.countP_append, List.countP_singleton, hsplit]
  dsimp only
  omega

theorem countP_set_new {T : Table κ ρ} {k : κ} {v : ρ} (p : ρ → Bool) (h : T.find k = none) :
    (T.set k (some v)).rows.countP (fun r ↦ p r.2) =
      T.rows.countP (fun r ↦ p r.2) + (if p v then 1 else 0) := by
  have hrows : T.rows.filter (fun r ↦ !decide (r.1 = k)) = T.rows := by
    refine List.filter_eq_self.2 fun r hr ↦ ?_
    rw [Bool.not_eq_true', decide_eq_false_iff_not]
    intro heq
    rw [find, Option.map_eq_none_iff, List.find?_eq_none] at h
    exact h r hr (decide_eq_true heq)
  rw [rows_set, hrows, List.countP_append, List.countP_singleton]

theorem find_set_of_ne {T : Table κ ρ} {k k' : κ} {value : Option ρ} (h : k' ≠ k) :
    (T.set k value).find k' = T.find k' := by
  refine Option.ext fun v ↦ ?_
  rw [find_eq_some, find_eq_some, mem_set]
  constructor
  · rintro (⟨hv, -⟩ | ⟨heq, -⟩)
    · exact hv
    · exact absurd heq h
  · exact fun hv ↦ .inl ⟨hv, h⟩

/-- Delete-then-insert of the rows of some keys. -/
def replace (T : Table κ ρ) (keys : List κ) (value : κ → ρ) : Option (Table κ ρ) :=
  (T.delete fun r ↦ r.1 ∈ keys).insert (keys.map fun k ↦ (k, value k))

theorem mem_replace {T T' : Table κ ρ} {keys : List κ} {value : κ → ρ}
    (h : T.replace keys value = some T') {k : κ} {v : ρ} :
    (k, v) ∈ T'.rows ↔ (k ∈ keys ∧ v = value k) ∨ ((k, v) ∈ T.rows ∧ k ∉ keys) := by
  rw [rows_of_insert h, List.mem_append, mem_delete_key, or_comm]
  refine or_congr_left ?_
  simp only [List.mem_map, Prod.mk.injEq]
  constructor
  · rintro ⟨k', hk', rfl, rfl⟩
    exact ⟨hk', rfl⟩
  · rintro ⟨hk, rfl⟩
    exact ⟨k, hk, rfl, rfl⟩

/-- The call never raises on an existing row. -/
theorem exists_replace (T : Table κ ρ) {keys : List κ} (hkeys : keys.Nodup) (value : κ → ρ) :
    ∃ T', T.replace keys value = some T' := by
  rw [replace, insert, dif_pos]
  · exact ⟨_, rfl⟩
  · refine List.pairwise_append.2 ⟨(T.delete _).keyed, ?_, ?_⟩
    · exact List.pairwise_map.2 hkeys
    · intro r hr r' hr' heq
      obtain ⟨-, hr⟩ := mem_delete.1 hr
      obtain ⟨k, hk, rfl⟩ := List.mem_map.1 hr'
      exact (decide_eq_false_iff_not.1 hr) (heq ▸ hk)

theorem mem_foldlM_replace {cs : List (List κ)} {value : κ → ρ} {T T' : Table κ ρ}
    (h : cs.foldlM (fun T c ↦ T.replace c value) T = some T') {k : κ} {v : ρ} :
    (k, v) ∈ T'.rows ↔ (k ∈ cs.flatten ∧ v = value k) ∨ ((k, v) ∈ T.rows ∧ k ∉ cs.flatten) := by
  induction cs generalizing T with
  | nil =>
    rw [List.foldlM_nil] at h
    cases h
    simp
  | cons c cs ih =>
    rw [List.foldlM_cons, Option.bind_eq_bind, Option.bind_eq_some_iff] at h
    obtain ⟨T₁, h₁, h⟩ := h
    rw [ih h, mem_replace h₁, List.flatten_cons, List.mem_append]
    by_cases hc : k ∈ c <;> by_cases hcs : k ∈ cs.flatten <;> simp [hc, hcs]

theorem exists_foldlM_replace {cs : List (List κ)} (hcs : ∀ c ∈ cs, c.Nodup) (value : κ → ρ)
    (T : Table κ ρ) : ∃ T', cs.foldlM (fun T c ↦ T.replace c value) T = some T' := by
  induction cs generalizing T with
  | nil => exact ⟨T, rfl⟩
  | cons c cs ih =>
    rw [List.forall_mem_cons] at hcs
    obtain ⟨T₁, h₁⟩ := T.exists_replace hcs.1 value
    obtain ⟨T', h'⟩ := ih hcs.2 T₁
    refine ⟨T', ?_⟩
    rw [List.foldlM_cons, h₁]
    exact h'

end Table

/-- What a plain read sees: the rows committed by then, or those that the transaction's first plain
read saw. Locking reads and updates see the committed rows. -/
inductive Isolation
  | readCommitted | snapshot
  deriving DecidableEq

def Isolation.visible {α : Type} (view committed : α) : Isolation → α
  | .readCommitted => committed
  | .snapshot => view

end Tiqora.Foundation
