import Tiqora.Reporting.Steps

namespace Tiqora.Reporting

open Foundation

variable {ids : IdSequence} {s : FollowerState}

theorem mem_gap_ids {gaps : Gaps} {id : ℕ} : id ∈ gaps.ids ↔ ∃ g ∈ gaps, g.1 = id := List.mem_map

theorem getLast_maxHistoryId {rows : List HistoryRow} (h : rows.Pairwise HistoryRow.Before)
    {last : HistoryRow} (hl : rows.getLast? = some last) : maxHistoryId rows = last.id :=
  Nat.le_antisymm (maxHistoryId_le fun _ hr ↦ le_getLast_of_sorted h hl hr)
    (le_maxHistoryId (List.mem_of_getLast? hl))

theorem readGaps_holds {b : Batch} (h : TickHolds s (.begun b)) (ht : HistoryTable ids s) :
    TickHolds s (.gapsRead (b.readGaps s.history)) := by
  have hsub : ∀ row ∈ (b.readGaps s.history).gapRows, row ∈ s.history := by
    intro row hr
    simp only [Batch.readGaps] at hr
    split at hr
    · exact (List.mem_filter.1 hr).1
    · cases hr
  refine ⟨⟨h.covers, h.saved, fun row hr hold ↦ ?_⟩, hsub⟩
  rcases h.opening row hr hold with hp | hin | hg | hw
  · exact .inl hp
  · cases hin
  · by_cases hn : b.number = 0
    · rw [if_pos hn] at hg
      refine .inr (.inl ?_)
      simp only [Batch.readGaps, if_pos hn]
      exact List.mem_filter.2 ⟨ht.opening row hr, decide_eq_true hg⟩
    · rw [if_neg hn] at hg
      cases hg
  · exact .inr (.inr (.inr hw))

theorem readRows_holds {b : Batch} (h : TickHolds s (.gapsRead b)) (ht : HistoryTable ids s)
    {t : FollowerState} (hl : Later s t) (hhistory : t.history = s.history) (hs : t.saved = s.saved)
    (ho : t.opening = s.opening) (hold : t.old = s.old)
    (hsaw : t.saw = s.sees (maxHistoryId (rowsAbove s.history b.watermark))) :
    TickHolds t (.rowsRead (b.readRows s.history)) := by
  obtain ⟨hsweep, hgap⟩ := h
  refine ⟨hsweep.covers.later hl, hs ▸ hsweep.saved, fun row hr ↦ hhistory ▸ hgap row hr,
    fun row hr ↦ ?_, rowsAbove_sorted ht.sorted _, fun row hr id hlt ↦ ?_,
    fun row hr hnot ↦ ?_⟩
  · rw [hhistory]
    exact mem_of_mem_rowsAbove hr
  · rw [hsaw]
    exact sees_of_lt (Nat.lt_of_lt_of_le hlt (le_maxHistoryId hr))
  · rw [ho] at hr
    rw [hold] at hnot
    rcases hsweep.opening row hr hnot with hp | hin | hg | ⟨_, hw⟩
    · exact .inl (hl.picked row hp)
    · exact .inr (.inl (List.mem_append_left _ hin))
    · cases hg
    · rcases mem_rowsAbove ht.sorted (ht.opening row hr) hw with hin | ⟨hlen, hle⟩
      · exact .inr (.inl (List.mem_append_right _ hin))
      · by_cases hin : row ∈ rowsAbove s.history b.watermark
        · exact .inr (.inl (List.mem_append_right _ hin))
        · refine .inr (.inr ⟨decide_eq_false (Nat.not_lt.2 hlen), fun r hr' ↦ ?_⟩)
          refine Nat.lt_of_le_of_ne (hle r hr') fun hid ↦ hin ?_
          have heq := ht.eq_of_id (List.mem_append_right _ (mem_of_mem_rowsAbove hr').1)
            (List.mem_append_right _ (ht.opening row hr)) hid
          rwa [← heq]

theorem Fetched.mem_popped {b : Batch} (h : Fetched s b) (ht : HistoryTable ids s)
    {row : HistoryRow} (hr : row ∈ s.pending ++ s.history) (hg : row.id ∈ b.gaps.ids) :
    row.id ∈ b.popped.ids ∨ row ∈ b.gapRows := by
  by_cases hin : row.id ∈ b.gapRows.map (·.id)
  · obtain ⟨r, hr', hid⟩ := List.mem_map.1 hin
    have heq := ht.eq_of_id (List.mem_append_right _ (h.gapRows r hr')) hr hid
    exact .inr (heq ▸ hr')
  · obtain ⟨g, hg, hid⟩ := mem_gap_ids.1 hg
    exact .inl (mem_gap_ids.2 ⟨g, List.mem_filter.2 ⟨hg, decide_eq_true (hid ▸ hin)⟩, hid⟩)

theorem note_holds {b : Batch} (h : Fetched s b) (ht : HistoryTable ids s)
    (hcap : (b.outstanding ids).length ≤ maxGaps) :
    TickHolds s (.noted (b.note ids s.clock)) := by
  have hpend : ∀ row ∈ s.pending, row.id ∈ b.gaps.ids → row.id ∈ b.popped.ids := by
    intro row hr hg
    rcases h.mem_popped ht (List.mem_append_left _ hr) hg with hg | hin
    · exact hg
    · exact absurd rfl (ht.ne_id hr (h.gapRows row hin))
  have hread : ∀ row ∈ b.gapRows, row ∈ b.read := fun row hr ↦ List.mem_append_left _ hr
  cases hlast : b.rows.getLast? with
  | none =>
    have hempty : b.rows = [] := List.getLast?_eq_none_iff.1 hlast
    have hnote : b.note ids s.clock = { b with gaps := b.popped } := by
      rw [Batch.note, hlast]
    rw [hnote]
    refine ⟨⟨h.covers.bound, fun row hr hold ↦ ?_, fun row hr ↦ ?_, fun g hg ↦ ?_⟩, h.saved,
      fun row hr hold ↦ ?_⟩
    · rcases h.covers.found row hr hold with hp | hw | hg | hin
      · exact .inl hp
      · exact .inr (.inl hw)
      · rcases h.mem_popped ht (List.mem_append_right _ hr) hg with hg | hin
        · exact .inr (.inr (.inl hg))
        · exact .inr (.inr (.inr (hread row hin)))
      · cases hin
    · rcases h.covers.pending row hr with hw | hg | hd
      · exact .inl hw
      · exact .inr (.inl (hpend row hr hg))
      · exact .inr (.inr hd)
    · exact h.covers.timed g (List.mem_filter.1 hg).1
    · rcases h.opening row hr hold with hp | hin | ⟨hc, _⟩
      · exact .inl hp
      · exact .inr (.inl hin)
      · rw [Batch.complete, hempty] at hc
        cases hc
  | some last =>
    have hmem : last ∈ b.rows := List.mem_of_getLast? hlast
    have hnote : b.note ids s.clock =
        { b with
          gaps := (missingIds ids b.watermark last.id (b.rows.map (·.id))).foldl
            (Gaps.setDefault s.clock) b.popped
          watermark := last.id } := by
      rw [Batch.note, hlast]
    rw [Batch.outstanding, getLast_maxHistoryId h.sorted hlast] at hcap
    -- a row that the batch skips is noticed as missing
    have hskip : ∀ row : HistoryRow, ids.Expects row.id → b.watermark < row.id →
        row.id ∉ b.rows.map (·.id) → last.id < row.id ∨
          row.id ∈ missingIds ids b.watermark last.id (b.rows.map (·.id)) := by
      intro row hexp hw hret
      rcases Nat.lt_or_ge last.id row.id with hlt | hle
      · exact .inl hlt
      · exact .inr (mem_missingIds hcap hexp hw hle hret)
    rw [hnote]
    refine ⟨⟨(ht.allocated last (List.mem_append_right _ (h.rows last hmem).1)).2,
      fun row hr hold ↦ ?_, fun row hr ↦ ?_, fun g hg ↦ ?_⟩,
      Nat.le_trans h.saved (Nat.le_of_lt (h.rows last hmem).2), fun row hr hold ↦ ?_⟩
    · rcases h.covers.found row hr hold with hp | hw | hg | hin
      · exact .inl hp
      · by_cases hret : row.id ∈ b.rows.map (·.id)
        · obtain ⟨r, hr', hid⟩ := List.mem_map.1 hret
          have heq := ht.eq_of_id (List.mem_append_right _ (h.rows r hr').1)
            (List.mem_append_right _ hr) hid
          exact .inr (.inr (.inr (heq ▸ List.mem_append_right _ hr')))
        · rcases hskip row (ht.late row hr hold) hw hret with hlt | hmiss
          · exact .inr (.inl hlt)
          · exact .inr (.inr (.inl (mem_foldl_setDefault_ids (.inr hmiss))))
      · rcases h.mem_popped ht (List.mem_append_right _ hr) hg with hg | hin
        · exact .inr (.inr (.inl (mem_foldl_setDefault_ids (.inl hg))))
        · exact .inr (.inr (.inr (hread row hin)))
      · cases hin
    · rcases h.covers.pending row hr with hw | hg | hd
      · have hret : row.id ∉ b.rows.map (·.id) := by
          intro hret
          obtain ⟨r, hr', hid⟩ := List.mem_map.1 hret
          exact ht.ne_id hr (h.rows r hr').1 hid.symm
        rcases hskip row (ht.expected row hr) hw hret with hlt | hmiss
        · exact .inl hlt
        · exact .inr (.inl (mem_foldl_setDefault_ids (.inr hmiss)))
      · exact .inr (.inl (mem_foldl_setDefault_ids (.inl (hpend row hr hg))))
      · exact .inr (.inr hd)
    · rcases mem_foldl_setDefault hg with hg | ⟨hmiss, htime⟩
      · exact h.covers.timed g (List.mem_filter.1 hg).1
      · obtain ⟨hle, hret⟩ := missingIds_le hmiss
        have hne : g.1 ≠ last.id := fun heq ↦ hret (heq ▸ List.mem_map_of_mem hmem)
        obtain ⟨seen, hseen⟩ := h.seen last hmem g.1 (Nat.lt_of_le_of_ne hle hne)
        exact ⟨seen, hseen, htime ▸ ht.saw _ _ hseen⟩
    · rcases h.opening row hr hold with hp | hin | ⟨hc, hlt⟩
      · exact .inl hp
      · exact .inr (.inl hin)
      · exact .inr (.inr (.inr ⟨by rw [Batch.complete] at hc ⊢; simp only [hc, Bool.not_false],
          hlt last hmem⟩))

theorem trim_holds {b : Batch} (h : TickHolds s (.noted b))
    (hcap : (dropExpired s.clock b.gaps).length ≤ maxGaps)
    (hseen : ∀ g ∈ b.gaps, g.2 + gapTtlSeconds < s.clock → ∀ row ∈ s.history, row.id ≠ g.1) :
    TickHolds s (.trimmed (b.trim s.clock)) := by
  have htrim : b.trim s.clock = { b with gaps := dropExpired s.clock b.gaps } := by
    rw [Batch.trim, evictGaps_of_le hcap]
  obtain ⟨hcov, hsaved, hopen⟩ := h
  rw [htrim]
  refine ⟨⟨hcov.bound, fun row hr hold ↦ ?_, fun row hr ↦ ?_, fun g hg ↦ ?_⟩, hsaved, hopen⟩
  · rcases hcov.found row hr hold with hp | hw | hg | hin
    · exact .inl hp
    · exact .inr (.inl hw)
    · obtain ⟨g, hg, hid⟩ := mem_gap_ids.1 hg
      rcases Nat.lt_or_ge (g.2 + gapTtlSeconds) s.clock with hlt | hle
      · exact absurd hid.symm (hseen g hg hlt row hr)
      · exact .inr (.inr (.inl (mem_gap_ids.2 ⟨g, mem_dropExpired.2 ⟨hg, hle⟩, hid⟩)))
    · exact .inr (.inr (.inr hin))
  · rcases hcov.pending row hr with hw | hg | hd
    · exact .inl hw
    · obtain ⟨g, hg, hid⟩ := mem_gap_ids.1 hg
      rcases Nat.lt_or_ge (g.2 + gapTtlSeconds) s.clock with hlt | hle
      · obtain ⟨seen, hs, hle⟩ := hcov.timed g hg
        exact .inr (.inr ⟨seen, hid ▸ hs, by omega⟩)
      · exact .inr (.inl (mem_gap_ids.2 ⟨g, mem_dropExpired.2 ⟨hg, hle⟩, hid⟩))
    · exact .inr (.inr hd)
  · exact hcov.timed g (mem_dropExpired.1 hg).1

theorem Later.pick (s : FollowerState) (b : Batch) (tickets : List ℕ) (tick : Tick) :
    Later s (s.pick b tickets tick) :=
  .tick rfl rfl rfl rfl rfl (fun _ _ hs ↦ hs) fun _ hr ↦ List.mem_append_left _ hr

theorem mem_pick {b : Batch} {tickets : List ℕ} {tick : Tick} {row : HistoryRow}
    (hr : row ∈ b.read) (ht : row.ticketId ∈ tickets) : row ∈ (s.pick b tickets tick).picked :=
  List.mem_append_right _ (List.mem_filter.2 ⟨hr, decide_eq_true ht⟩)

/-- Rows that a tick picks up leave what it has read. -/
theorem Sweep.pick {watermark : ℕ} {gaps : Gaps} {b : Batch} {reads reads' : List HistoryRow}
    {more : Bool} {tickets : List ℕ} {tick : Tick}
    (h : Sweep s watermark gaps reads [] reads more)
    (hr : ∀ row ∈ reads, row ∈ (s.pick b tickets tick).picked ∨ row ∈ reads') :
    Sweep (s.pick b tickets tick) watermark gaps reads' [] reads' more := by
  have h' := h.later (Later.pick s b tickets tick) rfl rfl
  refine ⟨h'.covers.reads hr, h'.saved, fun row hrow hold ↦ ?_⟩
  rcases h'.opening row hrow hold with hp | hin | hrest
  · exact .inl hp
  · rcases hr row hin with hp | hin
    · exact .inl hp
    · exact .inr (.inl hin)
  · exact .inr (.inr hrest)

theorem handled_pick {b : Batch} {tickets : List ℕ} {tick : Tick}
    (h : ∀ row ∈ s.picked, row ∈ s.before ∨ row.ticketId ∈ s.handled) :
    ∀ row ∈ (s.pick b tickets tick).picked,
      row ∈ (s.pick b tickets tick).before ∨ row.ticketId ∈ (s.pick b tickets tick).handled := by
  intro row hr
  rcases List.mem_append.1 hr with hr | hr
  · rcases h row hr with hb | hh
    · exact .inl hb
    · exact .inr (List.mem_append_left _ hh)
  · exact .inr (List.mem_append_right _ (of_decide_eq_true (List.mem_filter.1 hr).2))

theorem FollowerInvariant.rebuild (h : FollowerInvariant ids s) {b : Batch}
    (htick : s.tick = .trimmed b) (failed : List ℕ) :
    FollowerInvariant ids (s.pick b (b.touched.filter (· ∉ failed)) (.rebuilt b failed)) := by
  have ht := h.table
  have hsweep : Sweep s b.watermark b.gaps b.read [] b.read (!b.complete) := by
    have := h.tick
    rwa [htick] at this
  refine ⟨⟨ht.sorted, ht.nodup, ht.allocated, ht.expected, ht.late, ht.saw, ht.fresh, ht.opening⟩,
    h.saved.later (Later.pick s b _ _), hsweep.pick fun row hr ↦ ?_, handled_pick h.handled⟩
  by_cases hf : row.ticketId ∈ failed
  · exact .inr (List.mem_filter.2 ⟨hr, decide_eq_true hf⟩)
  · refine .inl (mem_pick hr (List.mem_filter.2 ⟨?_, decide_eq_true hf⟩))
    exact List.mem_dedup.2 (List.mem_map_of_mem hr)

theorem FollowerInvariant.mark (h : FollowerInvariant ids s) {b : Batch} {failed : List ℕ}
    (htick : s.tick = .rebuilt b failed) :
    FollowerInvariant ids (s.pick b failed (.marked b)) := by
  have ht := h.table
  have hsweep : Sweep s b.watermark b.gaps (b.read.filter fun row ↦ row.ticketId ∈ failed) []
      (b.read.filter fun row ↦ row.ticketId ∈ failed) (!b.complete) := by
    have := h.tick
    rwa [htick] at this
  refine ⟨⟨ht.sorted, ht.nodup, ht.allocated, ht.expected, ht.late, ht.saw, ht.fresh, ht.opening⟩,
    h.saved.later (Later.pick s b _ _), hsweep.pick fun row hr ↦ .inl ?_, handled_pick h.handled⟩
  obtain ⟨hr, hf⟩ := List.mem_filter.1 hr
  exact mem_pick hr (of_decide_eq_true hf)

theorem Covers.dump {watermark : ℕ} {gaps : Gaps} {reads : List HistoryRow}
    (h : Covers s watermark gaps reads) : Covers s watermark (dumpGaps gaps) reads where
  bound := h.bound
  found row hr hold := by
    rw [mem_dumpGaps_ids]
    exact h.found row hr hold
  pending row hr := by
    rw [mem_dumpGaps_ids]
    exact h.pending row hr
  timed g hg := h.timed g (mem_dumpGaps.1 hg)

theorem FollowerInvariant.save (h : FollowerInvariant ids s) {b : Batch}
    (htick : s.tick = .marked b) : FollowerInvariant ids (s.save b) := by
  have ht := h.table
  have hsweep : Sweep s b.watermark b.gaps [] [] [] (!b.complete) := by
    have := h.tick
    rwa [htick] at this
  have hsaved : (s.save b).saved = ⟨b.watermark, dumpGaps b.gaps⟩ := by
    simp only [FollowerState.save, saveProgress, Nat.max_eq_right hsweep.saved]
  have hl : Later s (s.save b) := .tick rfl rfl rfl rfl rfl (fun _ _ hs ↦ hs) fun _ hr ↦ hr
  refine ⟨⟨ht.sorted, ht.nodup, ht.allocated, ht.expected, ht.late, ht.saw, ht.fresh, ht.opening⟩,
    ?_, ?_, h.handled⟩
  · rw [hsaved]
    exact hsweep.covers.dump.later hl
  · show TickHolds (s.save b) b.after
    rw [Batch.after]
    by_cases hend : (b.complete || b.number + 1 = maxBatchesPerTick) = true
    · rw [if_pos hend]
      intro row hr hold
      rcases hsweep.opening row hr hold with hp | hin | hg | ⟨hc, _⟩
      · exact .inl hp
      · cases hin
      · cases hg
      · exact .inr (by simpa using hc)
    · rw [if_neg hend]
      refine ⟨hsweep.covers.later hl, ?_, fun row hr hold ↦ ?_⟩
      · rw [hsaved]
        exact Nat.le_refl _
      · rcases hsweep.opening row hr hold with hp | hin | hg | ⟨_, hw⟩
        · exact .inl hp
        · cases hin
        · cases hg
        · exact .inr (.inr (.inr ⟨rfl, hw⟩))

/-- A step of the tick that touches no table, no progress and no row. -/
theorem FollowerInvariant.turn (h : FollowerInvariant ids s) {tick : Tick}
    (hholds : TickHolds s tick) : FollowerInvariant ids { s with tick := tick } := by
  have ht := h.table
  have hl : Later s { s with tick := tick } :=
    .tick rfl rfl rfl rfl rfl (fun _ _ hs ↦ hs) fun _ hr ↦ hr
  exact ⟨⟨ht.sorted, ht.nodup, ht.allocated, ht.expected, ht.late, ht.saw, ht.fresh, ht.opening⟩,
    h.saved.later hl, hholds.later hl (fun _ hr ↦ hr) rfl rfl, h.handled⟩

theorem FollowerInvariant.readRows (h : FollowerInvariant ids s) {b : Batch}
    (htick : s.tick = .gapsRead b) :
    FollowerInvariant ids
      { s with
        tick := .rowsRead (b.readRows s.history)
        saw := s.sees (maxHistoryId (rowsAbove s.history b.watermark)) } := by
  have ht := h.table
  have hl : Later s
      { s with
        tick := .rowsRead (b.readRows s.history)
        saw := s.sees (maxHistoryId (rowsAbove s.history b.watermark)) } :=
    .tick rfl rfl rfl rfl rfl (fun _ _ hs ↦ sees_ext hs) fun _ hr ↦ hr
  have hholds : TickHolds s (.gapsRead b) := by
    have := h.tick
    rwa [htick] at this
  have hsaw : ∀ id seen, s.sees (maxHistoryId (rowsAbove s.history b.watermark)) id = some seen →
      seen ≤ s.clock := fun id seen hs ↦ sees_le ht.saw hs
  exact ⟨⟨ht.sorted, ht.nodup, ht.allocated, ht.expected, ht.late, hsaw, ht.fresh, ht.opening⟩,
    h.saved.later hl, readRows_holds hholds ht hl rfl rfl rfl rfl rfl, h.handled⟩

theorem FollowerInvariant.advance {t : FollowerState} (h : FollowerInvariant ids s)
    (hp : s.tick.FewOutstanding ids s.clock) (hu : s.tick.ExpiresUnseen s.clock s.history)
    (hstep : s.advance ids = some t) : FollowerInvariant ids t := by
  have hholds := h.tick
  cases htick : s.tick with
  | idle => rw [FollowerState.advance, htick] at hstep; cases hstep
  | trimmed b => rw [FollowerState.advance, htick] at hstep; cases hstep
  | done complete => rw [FollowerState.advance, htick] at hstep; cases hstep
  | begun b =>
    rw [FollowerState.advance, htick] at hstep
    rw [htick] at hholds
    cases hstep
    exact h.turn (readGaps_holds hholds h.table)
  | gapsRead b =>
    rw [FollowerState.advance, htick] at hstep
    cases hstep
    exact h.readRows htick
  | rowsRead b =>
    rw [FollowerState.advance, htick] at hstep
    rw [htick] at hholds hp
    cases hstep
    exact h.turn (note_holds hholds h.table hp)
  | noted b =>
    rw [FollowerState.advance, htick] at hstep
    rw [htick] at hholds hp hu
    cases hstep
    exact h.turn (trim_holds hholds hp hu)
  | rebuilt b failed =>
    rw [FollowerState.advance, htick] at hstep
    cases hstep
    exact h.mark htick
  | marked b =>
    rw [FollowerState.advance, htick] at hstep
    cases hstep
    exact h.save htick

theorem FollowerInvariant.next {t : FollowerState} {a : FollowerAction}
    (h : FollowerInvariant ids s) (hp : Promised ids s a) (hu : Undisturbed s a)
    (hstep : s.next ids a = some t) : FollowerInvariant ids t := by
  cases a with
  | wait duration =>
    cases hstep
    exact h.wait duration
  | allocate row =>
    simp only [FollowerState.next] at hstep
    split at hstep
    · next hrow => cases hstep; exact h.allocate hrow.1 hrow.2
    · cases hstep
  | commit row =>
    simp only [FollowerState.next] at hstep
    split at hstep
    · next hrow => cases hstep; exact h.commit hrow hp
    · cases hstep
  | rollback row =>
    cases hstep
    exact h.rollback row
  | start =>
    simp only [FollowerState.next] at hstep
    split at hstep
    · cases hstep
      obtain ⟨ht, hc⟩ := h.initialise hu
      exact begin_invariant ht hc
    · cases hstep
  | advance => exact h.advance hp hu hstep
  | rebuild failed =>
    simp only [FollowerState.next] at hstep
    split at hstep
    · next b htick =>
      split at hstep
      · cases hstep; exact h.rebuild htick failed
      · cases hstep
    · cases hstep
  | finish =>
    simp only [FollowerState.next] at hstep
    split at hstep
    · cases hstep; exact h.turn trivial
    · cases hstep
  | crash =>
    cases hstep
    exact h.turn trivial

def Regular (ids : IdSequence) (s : FollowerState) (a : FollowerAction) : Prop :=
  Promised ids s a ∧ Undisturbed s a

instance (ids : IdSequence) (s : FollowerState) (a : FollowerAction) : Decidable (Regular ids s a) :=
  inferInstanceAs (Decidable (_ ∧ _))

theorem followerInvariant_reachable
    (h : ((followerMachine ids).restrict (Regular ids)).Reachable s) :
    FollowerInvariant ids s := by
  refine Machine.Reachable.invariant (I := FollowerInvariant ids) ?_ ?_ h
  · intro s₀ h₀
    exact FollowerStart.invariant h₀
  · intro s₁ a s₂ hi hs
    exact hi.next hs.1.1 hs.1.2 hs.2

/-- What is saved and what is picked up only grows, crashes or not. -/
structure Advances (s t : FollowerState) : Prop where
  watermark : s.saved.lastHistoryId ≤ t.saved.lastHistoryId
  picked : ∀ row ∈ s.picked, row ∈ t.picked

theorem Advances.same {t : FollowerState} (hsaved : t.saved = s.saved)
    (hpicked : t.picked = s.picked) : Advances s t :=
  ⟨Nat.le_of_eq (congrArg _ hsaved.symm), fun _ hr ↦ hpicked ▸ hr⟩

theorem Advances.trans {s t u : FollowerState} (h : Advances s t) (h' : Advances t u) :
    Advances s u := ⟨Nat.le_trans h.1 h'.1, fun row hr ↦ h'.2 row (h.2 row hr)⟩

theorem Advances.pick (s : FollowerState) (b : Batch) (tickets : List ℕ) (tick : Tick) :
    Advances s (s.pick b tickets tick) := ⟨Nat.le_refl _, (Later.pick s b tickets tick).picked⟩

theorem advances_initialise (s : FollowerState) : Advances s s.initialise.begin := by
  rw [FollowerState.initialise]
  split
  · next h0 => exact ⟨h0 ▸ Nat.zero_le _, fun _ hr ↦ hr⟩
  · exact .same rfl rfl

theorem advances_next {t : FollowerState} {a : FollowerAction} (hstep : s.next ids a = some t) :
    Advances s t := by
  cases a with
  | wait duration => cases hstep; exact .same rfl rfl
  | allocate row =>
    simp only [FollowerState.next] at hstep
    split at hstep
    · cases hstep; exact .same rfl rfl
    · cases hstep
  | commit row =>
    simp only [FollowerState.next] at hstep
    split at hstep
    · cases hstep; exact .same rfl rfl
    · cases hstep
  | rollback row => cases hstep; exact .same rfl rfl
  | start =>
    simp only [FollowerState.next] at hstep
    split at hstep
    · cases hstep; exact advances_initialise s
    · cases hstep
  | advance =>
    simp only [FollowerState.next, FollowerState.advance] at hstep
    split at hstep
    · cases hstep; exact .same rfl rfl
    · cases hstep; exact .same rfl rfl
    · cases hstep; exact .same rfl rfl
    · cases hstep; exact .same rfl rfl
    · cases hstep; exact .pick s _ _ _
    · cases hstep; exact ⟨Nat.le_max_left _ _, fun _ hr ↦ hr⟩
    · cases hstep
    · cases hstep
    · cases hstep
  | rebuild failed =>
    simp only [FollowerState.next] at hstep
    split at hstep
    · split at hstep
      · cases hstep; exact .pick s _ _ _
      · cases hstep
    · cases hstep
  | finish =>
    simp only [FollowerState.next] at hstep
    split at hstep
    · cases hstep; exact .same rfl rfl
    · cases hstep
  | crash => cases hstep; exact .same rfl rfl

/-- No change is lost: when a tick has read to the end of the history, every row it found at its
start that is not older than the first tick was picked up before or has its ticket rebuilt or
marked dirty in this tick; the saved watermark passes a row that is not picked up only with its id
among the saved gaps; and from here on nothing picked up or saved is undone. -/
structure ChangesFollowed (ids : IdSequence) (s : FollowerState) : Prop where
  complete : s.tick = .done true → ∀ row ∈ s.opening, row ∉ s.old →
    row ∈ s.before ∨ row.ticketId ∈ s.handled
  visible : ∀ row ∈ s.history, row ∉ s.old → row ∈ s.picked ∨
    s.saved.lastHistoryId < row.id ∨ row.id ∈ s.saved.gapIds.ids
  pending : ∀ row ∈ s.pending, s.saved.lastHistoryId < row.id ∨ row.id ∈ s.saved.gapIds.ids ∨
    s.Dead row.id
  advances : ∀ as t, (followerMachine ids).Run s as t → Advances s t

theorem changes_followed (ids : IdSequence) (s : FollowerState)
    (h : ((followerMachine ids).restrict (Regular ids)).Reachable s) : ChangesFollowed ids s := by
  have hinv := followerInvariant_reachable h
  refine ⟨fun htick row hr hold ↦ ?_, fun row hr hold ↦ ?_, hinv.saved.pending,
    fun as t hrun ↦ ?_⟩
  · have hdone := hinv.tick
    rw [htick] at hdone
    rcases hdone row hr hold with hp | hc
    · exact hinv.handled row hp
    · cases hc
  · rcases hinv.saved.found row hr hold with hp | hw | hg | hin
    · exact .inl hp
    · exact .inr (.inl hw)
    · exact .inr (.inr hg)
    · cases hin
  · exact hrun.relates (I := fun _ ↦ True) (R := Advances) (fun _ _ _ _ _ ↦ trivial)
      (fun _ ↦ .same rfl rfl) (fun _ _ _ ↦ .trans) (fun _ _ _ _ hs ↦ advances_next hs) trivial

def consecutiveIds : IdSequence := ⟨1, 1, Nat.one_pos⟩

def followerBefore (history : List HistoryRow) (lastId : ℕ) : FollowerState where
  clock := 1000
  lastId := lastId
  pending := []
  history := history
  saved := ⟨0, []⟩
  tick := .idle
  started := false
  old := history
  saw _ := none
  picked := []
  opening := []
  before := []
  handled := []

theorem followerBefore_start (history : List HistoryRow) {lastId : ℕ}
    (hsorted : history.Pairwise HistoryRow.Before) (hnodup : (history.map (·.id)).Nodup)
    (hallocated : ∀ row ∈ history, 0 < row.id ∧ row.id ≤ lastId) :
    FollowerStart consecutiveIds (followerBefore history lastId) :=
  ⟨hsorted, hnodup, hallocated, nofun, rfl, rfl, rfl, rfl, fun _ ↦ rfl, rfl, rfl, rfl, rfl⟩

def wholeTick : List FollowerAction :=
  [.start, .advance, .advance, .advance, .advance, .rebuild [], .advance, .advance]

/-- Row 3 becomes visible before row 2, which the second tick keeps as a gap; the third tick picks
it up. -/
def lateRow : List FollowerAction :=
  wholeTick ++ [.finish, .allocate ⟨2, 20⟩, .allocate ⟨3, 30⟩, .commit ⟨3, 30⟩] ++ wholeTick ++
    [.finish, .wait 60, .commit ⟨2, 20⟩] ++ wholeTick

theorem changes_followed_sample : ∃ s : FollowerState, ChangesFollowed consecutiveIds s ∧
    s.opening = [⟨1, 10⟩, ⟨2, 20⟩, ⟨3, 30⟩] ∧ s.before = [⟨3, 30⟩] ∧ s.handled = [20] := by
  have hrun : (lateRow.foldlM (fun s a ↦ if Regular consecutiveIds s a then
      s.next consecutiveIds a else none) (followerBefore [⟨1, 10⟩] 1)).map
      (fun s ↦ (s.opening, s.before, s.handled)) =
      some ([⟨1, 10⟩, ⟨2, 20⟩, ⟨3, 30⟩], [⟨3, 30⟩], [20]) := by decide
  obtain ⟨s, hs, hp⟩ := Option.map_eq_some_iff.1 hrun
  have hreach : ((followerMachine consecutiveIds).restrict (Regular consecutiveIds)).Reachable s :=
    ⟨_, lateRow, followerBefore_start [⟨1, 10⟩] (by decide) (by decide) (by decide),
      Machine.run_of_foldlM _ hs⟩
  exact ⟨s, changes_followed consecutiveIds s hreach, congrArg Prod.fst hp,
    congrArg (fun p ↦ p.2.1) hp, congrArg (fun p ↦ p.2.2) hp⟩

/-- The first tick finds an empty history, so the second one takes the first row for older
history. -/
def emptyAtFirst : List FollowerAction :=
  wholeTick ++ [.finish, .allocate ⟨1, 10⟩, .commit ⟨1, 10⟩] ++ wholeTick

def Tick.isComplete : Tick → Bool
  | .done complete => complete
  | .idle | .begun _ | .gapsRead _ | .rowsRead _ | .noted _ | .trimmed _ | .rebuilt _ _
  | .marked _ => false

theorem Tick.eq_done {tick : Tick} (h : tick.isComplete = true) : tick = .done true := by
  cases tick with
  | done complete => exact congrArg _ h
  | _ => cases h

theorem change_lost : ∃ s : FollowerState,
    ((followerMachine consecutiveIds).restrict (Promised consecutiveIds)).Reachable s ∧
    s.opening = [⟨1, 10⟩] ∧ s.old = [] ∧ s.handled = [] ∧ ¬ChangesFollowed consecutiveIds s := by
  have hrun : (emptyAtFirst.foldlM (fun s a ↦ if Promised consecutiveIds s a then
      s.next consecutiveIds a else none) (followerBefore [] 0)).map
      (fun s ↦ (s.tick.isComplete, s.opening, s.old, s.before, s.handled)) =
      some (true, [⟨1, 10⟩], [], [], []) := by decide
  obtain ⟨s, hs, hp⟩ := Option.map_eq_some_iff.1 hrun
  have hreach : ((followerMachine consecutiveIds).restrict
      (Promised consecutiveIds)).Reachable s :=
    ⟨_, emptyAtFirst, followerBefore_start [] (by decide) (by decide) (by decide),
      Machine.run_of_foldlM _ hs⟩
  simp only [Prod.mk.injEq] at hp
  obtain ⟨hdone, hopening, hold, hbefore, hhandled⟩ := hp
  refine ⟨s, hreach, hopening, hold, hhandled, fun h ↦ ?_⟩
  have hlost := h.complete (Tick.eq_done hdone) ⟨1, 10⟩ (by rw [hopening]; decide) (by rw [hold]; decide)
  rw [hbefore, hhandled] at hlost
  rcases hlost with hlost | hlost
  · cases hlost
  · cases hlost

end Tiqora.Reporting
