import Tiqora.Reporting.GapList
import Mathlib.Data.List.Nodup

namespace Tiqora.Reporting

open Foundation

/-- A tick has seen a higher id for so long that the row may not become visible any more. -/
def FollowerState.Dead (s : FollowerState) (id : ℕ) : Prop :=
  ∃ seen, s.saw id = some seen ∧ seen + gapTtlSeconds ≤ s.clock

/-- The history table and the times at which ticks saw it. -/
structure HistoryTable (ids : IdSequence) (s : FollowerState) : Prop where
  sorted : s.history.Pairwise HistoryRow.Before
  nodup : ((s.pending ++ s.history).map (·.id)).Nodup
  allocated : ∀ row ∈ s.pending ++ s.history, 0 < row.id ∧ row.id ≤ s.lastId
  expected : ∀ row ∈ s.pending, ids.Expects row.id
  late : ∀ row ∈ s.history, row ∉ s.old → ids.Expects row.id
  saw : ∀ id seen, s.saw id = some seen → seen ≤ s.clock
  fresh : s.started = false → ∀ row ∈ s.history, row ∈ s.old
  opening : ∀ row ∈ s.opening, row ∈ s.history

theorem HistoryTable.eq_of_id {ids : IdSequence} {s : FollowerState} (h : HistoryTable ids s)
    {row row' : HistoryRow} (hr : row ∈ s.pending ++ s.history)
    (hr' : row' ∈ s.pending ++ s.history) (hid : row.id = row'.id) : row = row' :=
  List.inj_on_of_nodup_map h.nodup hr hr' hid

theorem HistoryTable.ne_id {ids : IdSequence} {s : FollowerState} (h : HistoryTable ids s)
    {row row' : HistoryRow} (hr : row ∈ s.pending) (hr' : row' ∈ s.history) : row.id ≠ row'.id := by
  have hnodup := h.nodup
  rw [List.map_append, List.nodup_append] at hnodup
  exact hnodup.2.2 row.id (List.mem_map_of_mem hr) row'.id (List.mem_map_of_mem hr')

/-- What the rest of the world and the tick do to the table. -/
structure Later (s t : FollowerState) : Prop where
  clock : s.clock ≤ t.clock
  lastId : s.lastId ≤ t.lastId
  old : ∀ row ∈ s.old, row ∈ t.old
  found : ∀ row ∈ t.history, row ∈ s.history ∨ row ∈ t.old ∨ row ∈ s.pending ∧ ¬s.Dead row.id
  pending : ∀ row ∈ t.pending, row ∈ s.pending ∨ s.lastId < row.id
  saw : ∀ id seen, s.saw id = some seen → t.saw id = some seen
  picked : ∀ row ∈ s.picked, row ∈ t.picked

theorem Later.dead {s t : FollowerState} (h : Later s t) {id : ℕ} (hd : s.Dead id) : t.Dead id := by
  obtain ⟨seen, hs, hle⟩ := hd
  exact ⟨seen, h.saw id seen hs, Nat.le_trans hle h.clock⟩

/-- A watermark and its gaps miss nothing: what is below and was not picked up is a gap, or has
just been read. -/
structure Covers (s : FollowerState) (watermark : ℕ) (gaps : Gaps) (reads : List HistoryRow) :
    Prop where
  bound : watermark ≤ s.lastId
  found : ∀ row ∈ s.history, row ∉ s.old →
    row ∈ s.picked ∨ watermark < row.id ∨ row.id ∈ gaps.ids ∨ row ∈ reads
  pending : ∀ row ∈ s.pending, watermark < row.id ∨ row.id ∈ gaps.ids ∨ s.Dead row.id
  timed : ∀ g ∈ gaps, ∃ seen, s.saw g.1 = some seen ∧ seen ≤ g.2

theorem Covers.later {s t : FollowerState} {watermark : ℕ} {gaps : Gaps}
    {reads : List HistoryRow} (h : Covers s watermark gaps reads) (hl : Later s t) :
    Covers t watermark gaps reads where
  bound := Nat.le_trans h.bound hl.lastId
  found row hr ho := by
    rcases hl.found row hr with hr | ho' | ⟨hp, hd⟩
    · rcases h.found row hr fun ho' ↦ ho (hl.old row ho') with hp | hrest
      · exact .inl (hl.picked row hp)
      · exact .inr hrest
    · exact absurd ho' ho
    · rcases h.pending row hp with hw | hg | hd'
      · exact .inr (.inl hw)
      · exact .inr (.inr (.inl hg))
      · exact absurd hd' hd
  pending row hr := by
    rcases hl.pending row hr with hr | hlt
    · rcases h.pending row hr with hw | hg | hd
      · exact .inl hw
      · exact .inr (.inl hg)
      · exact .inr (.inr (hl.dead hd))
    · exact .inl (Nat.lt_of_le_of_lt h.bound hlt)
  timed g hg := by
    obtain ⟨seen, hs, hle⟩ := h.timed g hg
    exact ⟨seen, hl.saw _ _ hs, hle⟩

theorem Covers.reads {s : FollowerState} {watermark : ℕ} {gaps : Gaps}
    {reads reads' : List HistoryRow} (h : Covers s watermark gaps reads)
    (hr : ∀ row ∈ reads, row ∈ s.picked ∨ row ∈ reads') : Covers s watermark gaps reads' where
  bound := h.bound
  found row hh ho := by
    rcases h.found row hh ho with hp | hw | hg | hin
    · exact .inl hp
    · exact .inr (.inl hw)
    · exact .inr (.inr (.inl hg))
    · rcases hr row hin with hp | hin
      · exact .inl hp
      · exact .inr (.inr (.inr hin))
  pending := h.pending
  timed := h.timed

/-- A tick on its way: `covers` for the state it would leave, and of the rows it found at its
start each is picked up, read, or still to come. -/
structure Sweep (s : FollowerState) (watermark : ℕ) (gaps : Gaps) (covered : List HistoryRow)
    (early : List ℕ) (reads : List HistoryRow) (more : Bool) : Prop where
  covers : Covers s watermark gaps covered
  saved : s.saved.lastHistoryId ≤ watermark
  opening : ∀ row ∈ s.opening, row ∉ s.old → row ∈ s.picked ∨ row ∈ reads ∨ row.id ∈ early ∨
    more = true ∧ watermark < row.id

theorem Sweep.later {s t : FollowerState} {watermark : ℕ} {gaps : Gaps}
    {covered reads : List HistoryRow} {early : List ℕ} {more : Bool}
    (h : Sweep s watermark gaps covered early reads more) (hl : Later s t)
    (hs : t.saved = s.saved) (ho : t.opening = s.opening) :
    Sweep t watermark gaps covered early reads more where
  covers := h.covers.later hl
  saved := hs ▸ h.saved
  opening row hr hold := by
    rw [ho] at hr
    rcases h.opening row hr fun hold' ↦ hold (hl.old row hold') with hp | hrest
    · exact .inl (hl.picked row hp)
    · exact .inr hrest

/-- The rows of a batch as read: all rows found at the start of the tick up to the last of
them. -/
structure Fetched (s : FollowerState) (b : Batch) : Prop where
  covers : Covers s b.watermark b.gaps []
  saved : s.saved.lastHistoryId ≤ b.watermark
  gapRows : ∀ row ∈ b.gapRows, row ∈ s.history
  rows : ∀ row ∈ b.rows, row ∈ s.history ∧ b.watermark < row.id
  sorted : b.rows.Pairwise HistoryRow.Before
  seen : ∀ row ∈ b.rows, ∀ id < row.id, ∃ seen, s.saw id = some seen
  opening : ∀ row ∈ s.opening, row ∉ s.old → row ∈ s.picked ∨ row ∈ b.read ∨
    b.complete = false ∧ ∀ r ∈ b.rows, r.id < row.id

def TickHolds (s : FollowerState) : Tick → Prop
  | .idle => True
  | .begun b =>
    Sweep s b.watermark b.gaps [] (if b.number = 0 then b.gaps.ids else []) [] true
  | .gapsRead b => Sweep s b.watermark b.gaps [] [] b.gapRows true ∧
    ∀ row ∈ b.gapRows, row ∈ s.history
  | .rowsRead b => Fetched s b
  | .noted b | .trimmed b => Sweep s b.watermark b.gaps b.read [] b.read (!b.complete)
  | .rebuilt b failed =>
    Sweep s b.watermark b.gaps (b.read.filter fun row ↦ row.ticketId ∈ failed) []
      (b.read.filter fun row ↦ row.ticketId ∈ failed) (!b.complete)
  | .marked b => Sweep s b.watermark b.gaps [] [] [] (!b.complete)
  | .done complete => ∀ row ∈ s.opening, row ∉ s.old → row ∈ s.picked ∨ complete = false

theorem TickHolds.later {s t : FollowerState} {tick : Tick} (h : TickHolds s tick)
    (hl : Later s t) (hkept : ∀ row ∈ s.history, row ∈ t.history) (hs : t.saved = s.saved)
    (ho : t.opening = s.opening) : TickHolds t tick := by
  cases tick with
  | idle => trivial
  | begun b => exact Sweep.later h hl hs ho
  | gapsRead b => exact ⟨h.1.later hl hs ho, fun row hr ↦ hkept row (h.2 row hr)⟩
  | rowsRead b =>
    refine ⟨h.covers.later hl, hs ▸ h.saved, fun row hr ↦ hkept row (h.gapRows row hr),
      fun row hr ↦ ⟨hkept row (h.rows row hr).1, (h.rows row hr).2⟩, h.sorted,
      fun row hr id hlt ↦ ?_, fun row hr hold ↦ ?_⟩
    · obtain ⟨seen, hseen⟩ := h.seen row hr id hlt
      exact ⟨seen, hl.saw id seen hseen⟩
    · rw [ho] at hr
      rcases h.opening row hr fun hold' ↦ hold (hl.old row hold') with hp | hrest
      · exact .inl (hl.picked row hp)
      · exact .inr hrest
  | noted b => exact Sweep.later h hl hs ho
  | trimmed b => exact Sweep.later h hl hs ho
  | rebuilt b failed => exact Sweep.later h hl hs ho
  | marked b => exact Sweep.later h hl hs ho
  | done complete =>
    intro row hr hold
    rw [ho] at hr
    rcases h row hr fun hold' ↦ hold (hl.old row hold') with hp | hc
    · exact .inl (hl.picked row hp)
    · exact .inr hc

/-- What holds between any two statements of a tick. -/
structure FollowerInvariant (ids : IdSequence) (s : FollowerState) : Prop where
  table : HistoryTable ids s
  saved : Covers s s.saved.lastHistoryId s.saved.gapIds []
  tick : TickHolds s s.tick
  handled : ∀ row ∈ s.picked, row ∈ s.before ∨ row.ticketId ∈ s.handled

theorem FollowerStart.invariant {ids : IdSequence} {s : FollowerState} (h : FollowerStart ids s) :
    FollowerInvariant ids s where
  table :=
    { sorted := h.sorted
      nodup := h.nodup
      allocated := h.allocated
      expected := h.expected
      late := fun row hr hold ↦ absurd (h.old ▸ hr) hold
      saw := fun id seen hs ↦ by
        rw [h.saw] at hs
        cases hs
      fresh := fun _ row hr ↦ h.old ▸ hr
      opening := fun row hr ↦ by
        rw [h.opening] at hr
        cases hr }
  saved := by
    rw [h.saved]
    refine ⟨Nat.zero_le _, fun row hr hold ↦ absurd (h.old ▸ hr) hold, fun row hr ↦ .inl ?_,
      fun g hg ↦ nomatch hg⟩
    exact (h.allocated row (List.mem_append_left _ hr)).1
  tick := by
    rw [h.tick]
    trivial
  handled row hr := by
    rw [h.picked] at hr
    cases hr

end Tiqora.Reporting
