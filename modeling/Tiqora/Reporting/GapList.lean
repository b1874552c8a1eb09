import Tiqora.Reporting.Follower
import Mathlib.Data.List.Perm.Subperm

namespace Tiqora.Reporting

instance : Std.Total HistoryRow.Before := ⟨fun row row' ↦ Nat.le_total row.id row'.id⟩

instance : IsTrans HistoryRow HistoryRow.Before := ⟨fun _ _ _ h h' ↦ Nat.le_trans h h'⟩

theorem mem_insertRow {row row' : HistoryRow} {history : List HistoryRow} :
    row ∈ insertRow row' history ↔ row = row' ∨ row ∈ history :=
  List.mem_orderedInsert HistoryRow.Before

theorem pairwise_insertRow (row : HistoryRow) {history : List HistoryRow}
    (h : history.Pairwise HistoryRow.Before) : (insertRow row history).Pairwise HistoryRow.Before :=
  h.orderedInsert row history

theorem rowsAbove_sorted {history : List HistoryRow} (h : history.Pairwise HistoryRow.Before)
    (watermark : ℕ) : (rowsAbove history watermark).Pairwise HistoryRow.Before :=
  (h.filter _).sublist (List.take_sublist _ _)

theorem mem_of_mem_rowsAbove {history : List HistoryRow} {watermark : ℕ} {row : HistoryRow}
    (h : row ∈ rowsAbove history watermark) : row ∈ history ∧ watermark < row.id := by
  obtain ⟨hr, hlt⟩ := List.mem_filter.1 (List.mem_of_mem_take h)
  exact ⟨hr, of_decide_eq_true hlt⟩

/-- A row above the watermark is read, or a full batch of rows before it is. -/
theorem mem_rowsAbove {history : List HistoryRow} (h : history.Pairwise HistoryRow.Before)
    {watermark : ℕ} {row : HistoryRow} (hr : row ∈ history) (hlt : watermark < row.id) :
    row ∈ rowsAbove history watermark ∨ historyBatch ≤ (rowsAbove history watermark).length ∧
      ∀ r ∈ rowsAbove history watermark, r.id ≤ row.id := by
  have hmem : row ∈ history.filter fun r ↦ watermark < r.id :=
    List.mem_filter.2 ⟨hr, decide_eq_true hlt⟩
  have hsorted := h.filter fun r ↦ watermark < r.id
  rw [← List.take_append_drop historyBatch (history.filter fun r ↦ watermark < r.id)] at hmem hsorted
  rcases List.mem_append.1 hmem with hin | hin
  · exact .inl hin
  · refine .inr ⟨?_, fun r hr' ↦ (List.pairwise_append.1 hsorted).2.2 r hr' row hin⟩
    by_contra hlen
    rw [rowsAbove, List.length_take] at hlen
    rw [List.drop_eq_nil_of_le (by omega)] at hin
    cases hin

theorem le_getLast_of_sorted {rows : List HistoryRow} (h : rows.Pairwise HistoryRow.Before)
    {last row : HistoryRow} (hl : rows.getLast? = some last) (hr : row ∈ rows) :
    row.id ≤ last.id := by
  rw [← List.dropLast_append_getLast? last hl] at h hr
  rcases List.mem_append.1 hr with hin | hin
  · exact (List.pairwise_append.1 h).2.2 row hin last (List.mem_singleton.2 rfl)
  · rw [List.mem_singleton.1 hin]

theorem le_maxHistoryId {history : List HistoryRow} {row : HistoryRow} (h : row ∈ history) :
    row.id ≤ maxHistoryId history := by
  induction history with
  | nil => cases h
  | cons r history ih =>
    rw [maxHistoryId, List.map_cons, List.foldr_cons]
    rcases List.mem_cons.1 h with rfl | h
    · exact Nat.le_max_left _ _
    · exact Nat.le_trans (ih h) (Nat.le_max_right _ _)

theorem maxHistoryId_le {history : List HistoryRow} {bound : ℕ}
    (h : ∀ row ∈ history, row.id ≤ bound) : maxHistoryId history ≤ bound := by
  induction history with
  | nil => exact Nat.zero_le _
  | cons r history ih =>
    rw [maxHistoryId, List.map_cons, List.foldr_cons]
    exact Nat.max_le.2 ⟨h r List.mem_cons_self, ih fun row hr ↦ h row (List.mem_cons_of_mem _ hr)⟩

theorem mem_setDefault {gaps : Gaps} {seenAt id : ℕ} {g : ℕ × ℕ}
    (h : g ∈ gaps.setDefault seenAt id) : g ∈ gaps ∨ g = (id, seenAt) := by
  rw [Gaps.setDefault] at h
  split at h
  · exact .inl h
  · rcases List.mem_append.1 h with h | h
    · exact .inl h
    · exact .inr (List.mem_singleton.1 h)

theorem mem_setDefault_ids {gaps : Gaps} {seenAt id id' : ℕ} :
    id' ∈ (gaps.setDefault seenAt id).ids ↔ id' ∈ gaps.ids ∨ id' = id := by
  rw [Gaps.setDefault]
  split
  · next h =>
    constructor
    · exact .inl
    · rintro (h' | rfl)
      · exact h'
      · exact h
  · rw [Gaps.ids, List.map_append, List.mem_append, List.map_singleton, List.mem_singleton]
    rfl

theorem mem_foldl_setDefault {seenAt : ℕ} {new : List ℕ} {gaps : Gaps} {g : ℕ × ℕ}
    (h : g ∈ new.foldl (Gaps.setDefault seenAt) gaps) :
    g ∈ gaps ∨ g.1 ∈ new ∧ g.2 = seenAt := by
  induction new generalizing gaps with
  | nil => exact .inl h
  | cons id new ih =>
    rcases ih h with h | ⟨h, ht⟩
    · rcases mem_setDefault h with h | rfl
      · exact .inl h
      · exact .inr ⟨List.mem_cons_self, rfl⟩
    · exact .inr ⟨List.mem_cons_of_mem _ h, ht⟩

theorem mem_foldl_setDefault_ids {seenAt : ℕ} {new : List ℕ} {gaps : Gaps} {id : ℕ}
    (h : id ∈ gaps.ids ∨ id ∈ new) : id ∈ (new.foldl (Gaps.setDefault seenAt) gaps).ids := by
  induction new generalizing gaps with
  | nil =>
    rcases h with h | h
    · exact h
    · cases h
  | cons id' new ih =>
    apply ih
    rcases h with h | h
    · exact .inl (mem_setDefault_ids.2 (.inl h))
    · rcases List.mem_cons.1 h with rfl | h
      · exact .inl (mem_setDefault_ids.2 (.inr rfl))
      · exact .inr h

theorem mem_dumpGaps {gaps : Gaps} {g : ℕ × ℕ} : g ∈ dumpGaps gaps ↔ g ∈ gaps :=
  List.mem_insertionSort _

theorem mem_dumpGaps_ids {gaps : Gaps} {id : ℕ} : id ∈ (dumpGaps gaps).ids ↔ id ∈ gaps.ids := by
  constructor
  · intro h
    obtain ⟨g, hg, rfl⟩ := List.mem_map.1 h
    exact List.mem_map_of_mem (mem_dumpGaps.1 hg)
  · intro h
    obtain ⟨g, hg, rfl⟩ := List.mem_map.1 h
    exact List.mem_map_of_mem (mem_dumpGaps.2 hg)

theorem mem_dropExpired {now : ℕ} {gaps : Gaps} {g : ℕ × ℕ} :
    g ∈ dropExpired now gaps ↔ g ∈ gaps ∧ now ≤ g.2 + gapTtlSeconds := by
  rw [dropExpired, List.mem_filter]
  simp only [Nat.not_lt, decide_eq_true_eq]

theorem evictGaps_of_le {gaps : Gaps} (h : gaps.length ≤ maxGaps) : evictGaps gaps = gaps :=
  if_neg (Nat.not_lt.2 h)

/-- The expected ids of a range that were not returned, all of them. -/
def outstanding (ids : IdSequence) (oldWatermark batchMax : ℕ) (returned : List ℕ) : List ℕ :=
  (List.range (batchMax + 1)).filter fun id ↦
    oldWatermark < id ∧ ids.Expects id ∧ id ∉ returned

/-- The walk without a budget. -/
def skipped (ids : IdSequence) (oldWatermark : ℕ) (returned : List ℕ) : ℕ → ℕ → List ℕ
  | 0, _ => []
  | fuel + 1, id =>
    if oldWatermark < id then
      if id ∈ returned then skipped ids oldWatermark returned fuel (id - ids.step)
      else id :: skipped ids oldWatermark returned fuel (id - ids.step)
    else []

theorem missingFrom_eq_take (ids : IdSequence) (oldWatermark : ℕ) (returned : List ℕ)
    (fuel budget id : ℕ) : missingFrom ids oldWatermark returned fuel budget id =
      (skipped ids oldWatermark returned fuel id).take budget := by
  induction fuel generalizing budget id with
  | zero => rw [missingFrom, skipped, List.take_nil]
  | succ fuel ih =>
    cases budget with
    | zero => rw [missingFrom, List.take_zero]
    | succ budget =>
      rw [missingFrom, skipped]
      split
      · split
        · exact ih _ _
        · rw [ih, List.take_succ_cons]
      · rw [List.take_nil]

theorem mem_skipped {ids : IdSequence} {oldWatermark : ℕ} {returned : List ℕ} {fuel id j : ℕ}
    (hfuel : id ≤ fuel) (hmod : j % ids.step = id % ids.step) (hle : j ≤ id)
    (hlt : oldWatermark < j) (hj : j ∉ returned) : j ∈ skipped ids oldWatermark returned fuel id := by
  induction fuel generalizing id with
  | zero => omega
  | succ fuel ih =>
    have hpos := ids.pos
    rw [skipped, if_pos (by omega)]
    rcases Nat.eq_or_lt_of_le hle with rfl | hlt'
    · rw [if_neg hj]
      exact List.mem_cons_self
    · have hstep : j + ids.step ≤ id := by
        have hdvd : ids.step ∣ id - j :=
          Nat.dvd_of_mod_eq_zero (Nat.sub_mod_eq_zero_of_mod_eq hmod.symm)
        have := Nat.le_of_dvd (by omega) hdvd
        omega
      have hin : j ∈ skipped ids oldWatermark returned fuel (id - ids.step) := by
        refine ih (by omega) ?_ (by omega)
        rw [hmod]
        exact Nat.mod_eq_sub_mod (by omega)
      split
      · exact hin
      · exact List.mem_cons_of_mem _ hin

theorem skipped_spec {ids : IdSequence} {oldWatermark : ℕ} {returned : List ℕ} {fuel id : ℕ} :
    (skipped ids oldWatermark returned fuel id).Pairwise (· > ·) ∧
      ∀ j ∈ skipped ids oldWatermark returned fuel id,
        oldWatermark < j ∧ j ≤ id ∧ j % ids.step = id % ids.step ∧ j ∉ returned := by
  induction fuel generalizing id with
  | zero => exact ⟨.nil, fun _ hj ↦ nomatch hj⟩
  | succ fuel ih =>
    rw [skipped]
    by_cases hlt : oldWatermark < id
    · have hpos := ids.pos
      have hsorted : (skipped ids oldWatermark returned fuel (id - ids.step)).Pairwise (· > ·) :=
        ih.1
      have hbelow : ∀ j ∈ skipped ids oldWatermark returned fuel (id - ids.step),
          oldWatermark < j ∧ j < id ∧ j % ids.step = id % ids.step ∧ j ∉ returned := by
        intro j hj
        obtain ⟨h₁, h₂, h₃, h₄⟩ := ih.2 j hj
        refine ⟨h₁, by omega, ?_, h₄⟩
        rw [h₃, ← Nat.mod_eq_sub_mod (by omega)]
      rw [if_pos hlt]
      split
      · exact ⟨hsorted, fun j hj ↦
          ⟨(hbelow j hj).1, Nat.le_of_lt (hbelow j hj).2.1, (hbelow j hj).2.2⟩⟩
      · next hid =>
        refine ⟨List.pairwise_cons.2 ⟨fun j hj ↦ (hbelow j hj).2.1, hsorted⟩, fun j hj ↦ ?_⟩
        rcases List.mem_cons.1 hj with rfl | hj
        · exact ⟨hlt, Nat.le_refl _, rfl, hid⟩
        · exact ⟨(hbelow j hj).1, Nat.le_of_lt (hbelow j hj).2.1, (hbelow j hj).2.2⟩
    · rw [if_neg hlt]
      exact ⟨.nil, fun _ hj ↦ nomatch hj⟩

theorem alignedMax_le (ids : IdSequence) (batchMax : ℕ) : alignedMax ids batchMax ≤ batchMax := by
  have hpos : (0 : ℤ) < ids.step := by exact_mod_cast ids.pos
  have := Int.emod_nonneg ((batchMax : ℤ) - ids.offset) (Int.ne_of_gt hpos)
  rw [alignedMax]
  omega

theorem alignedMax_expects {ids : IdSequence} {batchMax : ℕ} (h : 0 < alignedMax ids batchMax) :
    ids.Expects (alignedMax ids batchMax) := by
  have hcast : ((alignedMax ids batchMax : ℕ) : ℤ) =
      (batchMax : ℤ) - ((batchMax : ℤ) - ids.offset) % ids.step := by
    rw [alignedMax] at h ⊢
    omega
  have hmod : ((alignedMax ids batchMax : ℕ) : ℤ) % ids.step = (ids.offset : ℤ) % ids.step := by
    rw [hcast, Int.sub_emod, Int.emod_emod, ← Int.sub_emod]
    congr 1
    omega
  exact_mod_cast hmod

theorem le_alignedMax {ids : IdSequence} {batchMax j : ℕ} (hj : ids.Expects j)
    (hle : j ≤ batchMax) : j ≤ alignedMax ids batchMax := by
  have hpos : (0 : ℤ) < ids.step := by exact_mod_cast ids.pos
  have hmod : ((batchMax : ℤ) - ids.offset) % ids.step = ((batchMax : ℤ) - j) % ids.step := by
    have hj' : (j : ℤ) % ids.step = (ids.offset : ℤ) % ids.step := by exact_mod_cast hj
    rw [Int.sub_emod, ← hj', ← Int.sub_emod]
  have hle' : ((batchMax : ℤ) - j) % ids.step ≤ (batchMax : ℤ) - j := by
    have hdiv := Int.mul_ediv_add_emod ((batchMax : ℤ) - j) ids.step
    have hnonneg : 0 ≤ ids.step * (((batchMax : ℤ) - j) / ids.step) :=
      Int.mul_nonneg (by omega) (Int.ediv_nonneg (by omega) (by omega))
    omega
  rw [alignedMax, hmod]
  omega

theorem skipped_length_le (ids : IdSequence) (oldWatermark batchMax : ℕ) (returned : List ℕ)
    (fuel : ℕ) : (skipped ids oldWatermark returned fuel (alignedMax ids batchMax)).length ≤
      (outstanding ids oldWatermark batchMax returned).length := by
  have hnodup : (skipped ids oldWatermark returned fuel (alignedMax ids batchMax)).Nodup :=
    skipped_spec.1.imp fun h ↦ Nat.ne_of_gt h
  refine (List.subperm_of_subset hnodup fun j hj ↦ ?_).length_le
  obtain ⟨hlt, hle, hmod, hret⟩ := skipped_spec.2 j hj
  have hexp : ids.Expects j := hmod.trans (alignedMax_expects (by omega))
  have := alignedMax_le ids batchMax
  exact List.mem_filter.2 ⟨List.mem_range.2 (by omega), decide_eq_true ⟨hlt, hexp, hret⟩⟩

/-- Every outstanding id is noticed while there are at most `MAX_GAPS` of them. -/
theorem mem_missingIds {ids : IdSequence} {oldWatermark batchMax j : ℕ} {returned : List ℕ}
    (hcap : (outstanding ids oldWatermark batchMax returned).length ≤ maxGaps)
    (hexp : ids.Expects j) (hlt : oldWatermark < j) (hle : j ≤ batchMax) (hj : j ∉ returned) :
    j ∈ missingIds ids oldWatermark batchMax returned := by
  have hle' := le_alignedMax hexp hle
  have hmax := alignedMax_le ids batchMax
  have hmod : j % ids.step = alignedMax ids batchMax % ids.step :=
    hexp.trans (alignedMax_expects (by omega)).symm
  rw [missingIds, missingFrom_eq_take, List.take_of_length_le
    (Nat.le_trans (skipped_length_le ids oldWatermark batchMax returned _) hcap)]
  exact mem_skipped (by omega) hmod hle' hlt hj

theorem missingIds_le {ids : IdSequence} {oldWatermark batchMax j : ℕ} {returned : List ℕ}
    (hj : j ∈ missingIds ids oldWatermark batchMax returned) : j ≤ batchMax ∧ j ∉ returned := by
  rw [missingIds, missingFrom_eq_take] at hj
  obtain ⟨_, hle, _, hret⟩ := skipped_spec.2 j (List.mem_of_mem_take hj)
  exact ⟨Nat.le_trans hle (alignedMax_le ids batchMax), hret⟩

end Tiqora.Reporting
