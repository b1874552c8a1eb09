import Tiqora.Ai.AutoWorker

namespace Tiqora.Ai.AutoWorker

open Foundation

/-- The gate that a tick has read lets a row of the channel through. -/
def Gate.Lets (gate : Gate) (driverFor : List Char → Bool) (row : OutboxRow) : Prop :=
  gate.paused = false ∧ (gate.primary = true ∨ isTiqoraOnlyChannel driverFor row.channel = true)

instance (gate : Gate) (driverFor : List Char → Bool) (row : OutboxRow) :
    Decidable (gate.Lets driverFor row) := inferInstanceAs (Decidable (_ ∧ _))

/-- What a tick does with the outbox. -/
inductive Stage
  | away
  | reading (view : View)
  | bounding (gate : Gate) (view : View) (read : List OutboxRow)
  | draining (gate : Gate) (bound : Option ℕ) (last : ℕ) (left : List OutboxRow)

def Work.stage (gate : Gate) (bound : Option ℕ) : Work → Stage
  | .batch _ last left => .draining gate bound last left
  | .replies _ => .away

def Tick.stage : Tick → Stage
  | .idle | .selecting _ _ | .cleared _ _ _ _ _ => .away
  | .started _ view => .reading view
  | .bounding gate view read => .bounding gate view read
  | .working gate bound work | .deferring gate bound work _ _ | .parking gate bound work _ _ =>
    work.stage gate bound

/-- The part of the state that the draining of the outbox is about. -/
structure Outbox where
  rows : List OutboxRow
  pending : List (ℕ × OutboxRow)
  allocated : ℕ
  gate : Gate
  watermark : ℕ
  triage : Option ℕ
  stage : Stage
  first : ℕ
  shut : List ℕ
  handed : List Handing
  lowest : Option ℕ
  passed : List ℕ

def State.outbox (s : State) : Outbox where
  rows := s.rows
  pending := s.pending
  allocated := s.allocated
  gate := s.gate
  watermark := s.watermark
  triage := s.triage
  stage := s.tick.stage
  first := s.first
  shut := s.shut
  handed := s.handed
  lowest := s.lowest
  passed := s.passed

/-- The last row that a tick has looked at, or the one before its batch. -/
def Outbox.reached (o : Outbox) : ℕ :=
  match o.stage with
  | .draining _ _ last _ => last
  | _ => o.watermark

/-- The last row of a batch. -/
def final (last : ℕ) (left : List OutboxRow) : ℕ := (left.getLast?.map (·.id)).getD last

/-- What the watermark will be once the tick is through its batch. -/
def Outbox.horizon (o : Outbox) : ℕ :=
  match o.stage with
  | .draining _ _ last left => final last left
  | _ => o.watermark

/-- A row that is to be handed over, whether or not it has become visible. -/
structure Outbox.Due (o : Outbox) (row : OutboxRow) : Prop where
  eventType : row.eventType = .articleCreate
  channel : skipChannel row.channel = false
  first : o.first < row.id
  shut : row.id ∉ o.shut

instance (o : Outbox) (row : OutboxRow) : Decidable (o.Due row) :=
  decidable_of_iff (row.eventType = .articleCreate ∧ skipChannel row.channel = false ∧
    o.first < row.id ∧ row.id ∉ o.shut)
    ⟨fun h ↦ ⟨h.1, h.2.1, h.2.2.1, h.2.2.2⟩, fun h ↦ ⟨h.1, h.2, h.3, h.4⟩⟩

/-- A visible row that is to be handed over. -/
structure Outbox.Owed (o : Outbox) (row : OutboxRow) : Prop extends o.Due row where
  visible : row ∈ o.rows

theorem Outbox.Due.congr {o p : Outbox} {row : OutboxRow} (h : p.Due row) (hfirst : p.first = o.first)
    (hshut : p.shut = o.shut) : o.Due row :=
  ⟨h.eventType, h.channel, hfirst ▸ h.first, hshut ▸ h.shut⟩

theorem Outbox.Owed.congr {o p : Outbox} {row : OutboxRow} (h : p.Owed row)
    (hfirst : p.first = o.first) (hshut : p.shut = o.shut) (hrows : p.rows = o.rows) : o.Owed row :=
  ⟨h.toDue.congr hfirst hshut, hrows ▸ h.visible⟩

/-- The batch that a tick is about to take up has every row that it will take for done, and the
gate stays as the tick has read it until then. -/
def Stage.InOrder (driverFor : List Char → Bool) (isolation : Isolation) (o : Outbox) :
    Stage → Prop
  | .bounding gate view read =>
    let bound := isolation.visible view.triage o.triage
    let batch := bounded bound (nextOutboxBatch read o.watermark)
    (∀ row ∈ batch, o.Due row → gate.Lets driverFor row) ∧
      ∀ row ∈ o.rows, o.Due row → row ∉ read → ∀ row' ∈ batch, row'.id < row.id
  | .away | .reading _ | .draining _ _ _ _ => True

/-- Rows become visible above what a tick will take for done. -/
def Outbox.InOrder (driverFor : List Char → Bool) (isolation : Isolation) (o : Outbox) :
    Action → Prop
  | .commit transaction => o.gate.isOpen = true →
    ∀ r ∈ o.pending, r.1 = transaction → o.Due r.2 → o.horizon < r.2.id
  | .readTriage => o.stage.InOrder driverFor isolation o
  | _ => True

instance (driverFor : List Char → Bool) (isolation : Isolation) (o : Outbox) (stage : Stage) :
    Decidable (stage.InOrder driverFor isolation o) :=
  match stage with
  | .bounding _ _ _ => inferInstanceAs (Decidable (_ ∧ _))
  | .away | .reading _ | .draining _ _ _ _ => .isTrue trivial

instance (driverFor : List Char → Bool) (isolation : Isolation) (o : Outbox) (a : Action) :
    Decidable (o.InOrder driverFor isolation a) :=
  match a with
  | .commit transaction => inferInstanceAs (Decidable (o.gate.isOpen = true →
    ∀ r ∈ o.pending, r.1 = transaction → o.Due r.2 → o.horizon < r.2.id))
  | .readTriage => inferInstanceAs (Decidable (o.stage.InOrder driverFor isolation o))
  | .insert .. | .rollback _ | .setGate _ | .triageTick _ | .openTriage _ | .decide _
  | .pauseTicket _ | .unpauseTicket _ | .pauseCustomers _ | .startTick | .readBatch | .select _
  | .step .. => .isTrue trivial

/-- What holds of the batch that a tick works through. -/
structure Draining (driverFor : List Char → Bool) (o : Outbox) (gate : Gate) (bound : Option ℕ)
    (last : ℕ) (left : List OutboxRow) : Prop where
  after : o.watermark ≤ last
  above : ∀ row ∈ left, last < row.id
  sorted : left.Pairwise fun row row' ↦ row.id < row'.id
  bound : ∀ row ∈ left, ∃ triage, bound = some triage ∧ row.id ≤ triage
  lets : ∀ row ∈ left, o.Due row → gate.Lets driverFor row
  whole : ∀ row, o.Owed row → last < row.id → row.id ≤ final last left → row ∈ left
  lowest : ∀ id ∈ o.lowest, id ≤ final last left

/-- What holds of what a tick has read. -/
def Stage.Holds (driverFor : List Char → Bool) (o : Outbox) : Stage → Prop
  | .away => True
  | .reading view => view.rows <+: o.rows ∧ view.triage.isSome
  | .bounding _ view read => read <+: o.rows ∧ view.triage.isSome
  | .draining gate bound last left => Draining driverFor o gate bound last left

structure Drained (driverFor : List Char → Bool) (o : Outbox) : Prop where
  ids : (o.rows.map (·.id) ++ o.pending.map (·.2.id)).Nodup
  allocated : ∀ id ∈ o.rows.map (·.id) ++ o.pending.map (·.2.id), id ≤ o.allocated
  first : o.first ≤ o.watermark
  triage : o.triage.isSome
  shut : o.gate.isOpen = false → ∀ row ∈ o.rows, row.id ∈ o.shut
  once : (o.handed.map (·.id)).Nodup
  behind : ∀ handing ∈ o.handed, handing.id ≤ o.reached
  bound : ∀ handing ∈ o.handed, ∃ triage, handing.bound = some triage ∧ handing.id ≤ triage
  covered : ∀ row, o.Owed row → row.id ≤ o.reached → row.id ∈ o.handed.map (·.id)
  passed : ∀ id ∈ o.passed, id ≤ o.watermark
  stage : o.stage.Holds driverFor o

variable {driverFor : List Char → Bool} {isolation : Isolation} {o p : Outbox} {gate : Gate}
  {bound : Option ℕ} {last : ℕ} {row : OutboxRow} {left : List OutboxRow}

theorem Draining.last_le (h : Draining driverFor o gate bound last left) :
    last ≤ final last left := by
  rw [final]
  cases hlast : left.getLast? with
  | none => exact le_rfl
  | some row => exact (h.above row (List.mem_of_getLast? hlast)).le

theorem Drained.reached_le (h : Drained driverFor o) : o.reached ≤ o.horizon := by
  have hstage := h.stage
  unfold Outbox.reached Outbox.horizon
  cases hs : o.stage with
  | draining gate bound last left =>
    rw [hs] at hstage
    exact hstage.last_le
  | away | reading | bounding => exact le_rfl

theorem Drained.watermark_le (h : Drained driverFor o) : o.watermark ≤ o.reached := by
  have hstage := h.stage
  unfold Outbox.reached
  cases hs : o.stage with
  | draining gate bound last left =>
    rw [hs] at hstage
    exact hstage.after
  | away | reading | bounding => exact le_rfl

theorem final_cons (last : ℕ) : final last (row :: left) = final row.id left := by
  unfold final
  cases left with
  | nil => rfl
  | cons row' left => rw [List.getLast?_cons_cons, List.getLast?_cons]; rfl

/-- What a change of the visible rows leaves of an outbox, apart from the rows themselves. -/
structure Outbox.Grows (o p : Outbox) : Prop where
  gate : p.gate.isOpen = false → ∀ row ∈ p.rows, row.id ∈ p.shut
  watermark : p.watermark = o.watermark
  stage : p.stage = o.stage
  first : p.first = o.first
  handed : p.handed = o.handed
  lowest : p.lowest = o.lowest
  passed : p.passed = o.passed
  triage : p.triage.isSome
  shut : o.shut ⊆ p.shut
  rows : o.rows <+: p.rows
  new : ∀ row, p.Owed row → row ∈ o.rows ∨ o.horizon < row.id
  ids : (p.rows.map (·.id) ++ p.pending.map (·.2.id)).Nodup
  allocated : ∀ id ∈ p.rows.map (·.id) ++ p.pending.map (·.2.id), id ≤ p.allocated

theorem Outbox.Grows.due (h : o.Grows p) (hdue : p.Due row) : o.Due row where
  eventType := hdue.eventType
  channel := hdue.channel
  first := by
    have hfirst := hdue.first
    rwa [h.first] at hfirst
  shut hmem := hdue.shut (h.shut hmem)

/-- Neither what was handed over nor what is left to do is touched. -/
theorem Drained.grows (h : Drained driverFor o) (hg : o.Grows p) : Drained driverFor p := by
  have hreached : p.reached = o.reached := by
    rw [Outbox.reached, hg.stage, hg.watermark]
    rfl
  have howed : ∀ row, p.Owed row → row.id ≤ o.horizon → o.Owed row := by
    intro row hrow hle
    refine ⟨hg.due hrow.toDue, ?_⟩
    rcases hg.new row hrow with hmem | hlt
    · exact hmem
    · omega
  have hstage : p.stage.Holds driverFor p := by
    have hold := h.stage
    rw [hg.stage]
    cases hs : o.stage with
    | away => exact trivial
    | reading view =>
      rw [hs] at hold
      exact ⟨hold.1.trans hg.rows, hold.2⟩
    | bounding gate view read =>
      rw [hs] at hold
      exact ⟨hold.1.trans hg.rows, hold.2⟩
    | draining gate bound last left =>
      rw [hs] at hold
      have hhorizon : o.horizon = final last left := by
        rw [Outbox.horizon, hs]
      exact {
        after := hg.watermark ▸ hold.after
        above := hold.above
        sorted := hold.sorted
        bound := hold.bound
        lets := fun row hrow hdue ↦ hold.lets row hrow (hg.due hdue)
        whole := fun row hrow hlt hle ↦ hold.whole row (howed row hrow (hhorizon ▸ hle)) hlt hle
        lowest := hg.lowest ▸ hold.lowest }
  exact {
    ids := hg.ids
    allocated := hg.allocated
    first := by
      rw [hg.first, hg.watermark]
      exact h.first
    triage := hg.triage
    shut := hg.gate
    once := hg.handed ▸ h.once
    behind := by
      rw [hg.handed, hreached]
      exact h.behind
    bound := hg.handed ▸ h.bound
    covered := by
      intro row hrow hle
      rw [hreached] at hle
      rw [hg.handed]
      exact h.covered row (howed row hrow (hle.trans h.reached_le)) hle
    passed := by
      rw [hg.passed, hg.watermark]
      exact h.passed
    stage := hstage }

/-- A step that opens no batch and ends none. -/
theorem Drained.stays (h : Drained driverFor o) (stage : Stage)
    (hreached : Outbox.reached { o with stage } = o.reached)
    (hstage : stage.Holds driverFor { o with stage }) : Drained driverFor { o with stage } where
  ids := h.ids
  allocated := h.allocated
  first := h.first
  triage := h.triage
  shut := h.shut
  once := h.once
  behind := by
    rw [hreached]
    exact h.behind
  bound := h.bound
  covered row hrow hle := by
    rw [hreached] at hle
    exact h.covered row (hrow.congr rfl rfl rfl) hle
  passed := h.passed
  stage := hstage

theorem mem_nextOutboxBatch {rows : List OutboxRow} {after : ℕ}
    (h : row ∈ nextOutboxBatch rows after) : row ∈ rows ∧ after < row.id := by
  rw [nextOutboxBatch] at h
  have h := (List.mem_insertionSort _).1 (List.mem_of_mem_take h)
  exact ⟨(List.mem_filter.1 h).1, of_decide_eq_true (List.mem_filter.1 h).2⟩

theorem bounded_sublist (bound : Option ℕ) {batch : List OutboxRow} :
    (bounded bound batch).Sublist batch := by
  unfold bounded
  cases bound with
  | none => exact .refl _
  | some triage => exact List.filter_sublist

theorem nextOutboxBatch_sorted {rows : List OutboxRow} (after : ℕ) (h : (rows.map (·.id)).Nodup) :
    (nextOutboxBatch rows after).Pairwise fun row row' ↦ row.id < row'.id := by
  have : Std.Total OutboxRow.Before := ⟨fun row row' ↦ Nat.le_total row.id row'.id⟩
  have : IsTrans OutboxRow OutboxRow.Before := ⟨fun _ _ _ h h' ↦ Nat.le_trans h h'⟩
  have hsub : (nextOutboxBatch rows after).Pairwise OutboxRow.Before :=
    (List.pairwise_insertionSort OutboxRow.Before _).sublist (List.take_sublist _ _)
  have hne : (nextOutboxBatch rows after).Pairwise fun row row' ↦ row.id ≠ row'.id := by
    have hrows : rows.Pairwise fun row row' ↦ row.id ≠ row'.id := List.pairwise_map.1 h
    have hperm := List.perm_insertionSort OutboxRow.Before (rows.filter fun row ↦ after < row.id)
    exact ((hperm.pairwise_iff Ne.symm).2 (hrows.filter _)).sublist
      (List.take_sublist _ _)
  exact (hsub.and hne).imp fun h ↦ lt_of_le_of_ne h.1 h.2

theorem le_final (last : ℕ) (h : left.Pairwise fun row row' ↦ row.id < row'.id)
    (hrow : row ∈ left) : row.id ≤ final last left := by
  unfold final
  cases hlast : left.getLast? with
  | none =>
    rw [List.getLast?_eq_none_iff.1 hlast] at hrow
    cases hrow
  | some y =>
    obtain ⟨before, hsplit⟩ := List.getLast?_eq_some_iff.1 hlast
    rw [hsplit] at h hrow
    rcases List.mem_append.1 hrow with hrow | hrow
    · exact ((List.pairwise_append.1 h).2.2 row hrow y List.mem_cons_self).le
    · rw [List.mem_singleton.1 hrow]
      exact le_rfl

/-- The bounded batch has every row that was read up to its last one. -/
theorem mem_bounded_batch {rows : List OutboxRow} {after : ℕ} (h : (rows.map (·.id)).Nodup)
    (hrow : row ∈ rows) (hafter : after < row.id)
    (hle : row.id ≤ final after (bounded bound (nextOutboxBatch rows after))) :
    row ∈ bounded bound (nextOutboxBatch rows after) := by
  have : Std.Total OutboxRow.Before := ⟨fun row row' ↦ Nat.le_total row.id row'.id⟩
  have : IsTrans OutboxRow OutboxRow.Before := ⟨fun _ _ _ h h' ↦ Nat.le_trans h h'⟩
  unfold final at hle
  cases hlast : (bounded bound (nextOutboxBatch rows after)).getLast? with
  | none =>
    rw [hlast] at hle
    have hle : row.id ≤ after := hle
    omega
  | some y =>
    rw [hlast] at hle
    have hle : row.id ≤ y.id := hle
    have hy := List.mem_of_getLast? hlast
    have hbatch : row ∈ nextOutboxBatch rows after := by
      cases hend : (nextOutboxBatch rows after).getLast? with
      | none =>
        rw [List.getLast?_eq_none_iff] at hend
        have hy := (bounded_sublist bound).subset hy
        rw [hend] at hy
        cases hy
      | some z =>
        have hyz : y.id ≤ z.id := by
          have hyz := le_final after (nextOutboxBatch_sorted after h)
            ((bounded_sublist bound).subset hy)
          rwa [final, hend] at hyz
        have hinj : ∀ a ∈ rows, ∀ b ∈ rows, a.id = b.id → a = b :=
          fun a ha b hb heq ↦ List.inj_on_of_nodup_map h ha hb heq
        have hmem : ∀ a, a ∈ (rows.filter fun row ↦ after < row.id).insertionSort
            OutboxRow.Before → a ∈ rows := fun a ha ↦
          (List.mem_filter.1 ((List.mem_insertionSort _).1 ha)).1
        exact mem_take_of_le_getLast (f := OutboxRow.id)
          (List.pairwise_insertionSort OutboxRow.Before _)
          (fun a ha b hb ↦ hinj a (hmem a ha) b (hmem b hb))
          ((List.mem_insertionSort _).2 (List.mem_filter.2 ⟨hrow, decide_eq_true hafter⟩)) hend
          (hle.trans hyz)
    unfold bounded at hy ⊢
    cases bound with
    | none => exact hbatch
    | some triage =>
      have hy := of_decide_eq_true (List.mem_filter.1 hy).2
      exact List.mem_filter.2 ⟨hbatch, decide_eq_true (hle.trans hy)⟩

/-- The lowest row that triage has reached opens the batch. -/
theorem lowest_le_final {rows : List OutboxRow} {after id : ℕ} (h : (rows.map (·.id)).Nodup)
    (hmin : ((bounded bound (rows.filter fun row ↦ after < row.id)).map (·.id)).min? = some id) :
    id ≤ final after (bounded bound (nextOutboxBatch rows after)) := by
  have : Std.Total OutboxRow.Before := ⟨fun row row' ↦ Nat.le_total row.id row'.id⟩
  have : IsTrans OutboxRow OutboxRow.Before := ⟨fun _ _ _ h h' ↦ Nat.le_trans h h'⟩
  obtain ⟨hmem, hleast⟩ := List.min?_eq_some_iff.1 hmin
  obtain ⟨row, hrow, rfl⟩ := List.mem_map.1 hmem
  have hsorted := nextOutboxBatch_sorted after h
  have hin := (List.mem_insertionSort OutboxRow.Before).2 ((bounded_sublist bound).subset hrow)
  have hpair := List.pairwise_insertionSort OutboxRow.Before (rows.filter fun row ↦ after < row.id)
  cases hL : (rows.filter fun row ↦ after < row.id).insertionSort OutboxRow.Before with
  | nil =>
    rw [hL] at hin
    cases hin
  | cons y rest =>
    rw [hL] at hin hpair
    have hle : y.id ≤ row.id := by
      rcases List.mem_cons.1 hin with rfl | hin
      · exact le_rfl
      · exact (List.pairwise_cons.1 hpair).1 row hin
    have hy : y ∈ nextOutboxBatch rows after := by
      rw [nextOutboxBatch, hL]
      exact List.mem_cons_self
    have hyrows : y ∈ rows.filter fun row ↦ after < row.id := by
      rw [← List.mem_insertionSort OutboxRow.Before, hL]
      exact List.mem_cons_self
    have hbounded : ∀ batch : List OutboxRow, y ∈ batch → y ∈ bounded bound batch := by
      intro batch hy
      unfold bounded at hrow ⊢
      cases bound with
      | none => exact hy
      | some triage =>
        have htriage := of_decide_eq_true (List.mem_filter.1 hrow).2
        exact List.mem_filter.2 ⟨hy, decide_eq_true (hle.trans htriage)⟩
    have hge := hleast y.id (List.mem_map.2 ⟨y, hbounded _ hyrows, rfl⟩)
    exact hge.trans (le_final _ (hsorted.sublist (bounded_sublist bound)) (hbounded _ hy))

theorem Drained.readTriage {view : View} {read : List OutboxRow} (h : Drained driverFor o)
    (hstage : o.stage = .bounding gate view read) (hC : o.InOrder driverFor isolation .readTriage)
    {lowest : Option ℕ}
    (hlowest : lowest = ((bounded (isolation.visible view.triage o.triage)
      (read.filter fun row ↦ o.watermark < row.id)).map (·.id)).min?) :
    Drained driverFor { o with
      stage := .draining gate (isolation.visible view.triage o.triage) o.watermark
        (bounded (isolation.visible view.triage o.triage) (nextOutboxBatch read o.watermark))
      lowest } := by
  have hold := h.stage
  rw [hstage] at hold
  obtain ⟨hread, hview⟩ := hold
  obtain ⟨hlets, hout⟩ : _ ∧ _ := by
    rw [Outbox.InOrder, hstage] at hC
    exact hC
  obtain ⟨triage, htriage⟩ : ∃ triage, isolation.visible view.triage o.triage = some triage := by
    cases isolation with
    | readCommitted => exact Option.isSome_iff_exists.1 h.triage
    | snapshot => exact Option.isSome_iff_exists.1 hview
  have hreached : o.reached = o.watermark := by rw [Outbox.reached, hstage]
  have hids : (read.map (·.id)).Nodup :=
    (List.nodup_append.1 h.ids).1.sublist (hread.sublist.map _)
  generalize isolation.visible view.triage o.triage = bound at hlets hout htriage hlowest ⊢
  have hbatch := nextOutboxBatch_sorted o.watermark hids
  have hsorted := hbatch.sublist (bounded_sublist bound)
  refine {
    ids := h.ids
    allocated := h.allocated
    first := h.first
    triage := h.triage
    shut := h.shut
    once := h.once
    behind := ?_
    bound := h.bound
    covered := ?_
    passed := h.passed
    stage := ?_ }
  · have hbehind := h.behind
    rwa [hreached] at hbehind
  · intro row hrow hle
    exact h.covered row (hrow.congr rfl rfl rfl)
      (hle.trans hreached.ge)
  · refine {
      after := le_rfl
      above := fun row hrow ↦ (mem_nextOutboxBatch ((bounded_sublist bound).subset hrow)).2
      sorted := hsorted
      bound := ?_
      lets := fun row hrow hdue ↦
        hlets row hrow (hdue.congr rfl rfl)
      whole := ?_
      lowest := ?_ }
    · intro row hrow
      rw [htriage] at hrow
      exact ⟨triage, htriage, of_decide_eq_true (List.mem_filter.1 hrow).2⟩
    · intro row hrow hlt hle
      have howed : o.Owed row := hrow.congr rfl rfl rfl
      by_cases hmem : row ∈ read
      · exact mem_bounded_batch hids hmem hlt hle
      · have habove := hout row howed.visible howed.toDue hmem
        unfold final at hle
        cases hlast : (bounded bound (nextOutboxBatch read o.watermark)).getLast? with
        | none =>
          rw [hlast] at hle
          have hle : row.id ≤ o.watermark := hle
          omega
        | some y =>
          rw [hlast] at hle
          have hle : row.id ≤ y.id := hle
          have hlt := habove y (List.mem_of_getLast? hlast)
          omega
    · intro id hid
      rw [hlowest] at hid
      exact lowest_le_final hids hid

/-- The next row of the batch has been looked at. -/
theorem Drained.event (h : Drained driverFor o)
    (hstage : o.stage = .draining gate bound last (row :: left)) (handed : List Handing)
    (hhanded : handed = o.handed ∧ ¬(row.eventType.ofCustomer = true ∧
        skipChannel row.channel = false ∧ gate.Lets driverFor row) ∨
      handed = o.handed ++ [⟨row.id, bound⟩]) :
    Drained driverFor { o with stage := .draining gate bound row.id left, handed } := by
  have hold := h.stage
  rw [hstage] at hold
  have hreached : o.reached = last := by rw [Outbox.reached, hstage]
  have habove := hold.above row List.mem_cons_self
  obtain ⟨hleast, hsorted⟩ := List.pairwise_cons.1 hold.sorted
  obtain ⟨triage, htriage, hle⟩ := hold.bound row List.mem_cons_self
  have hbehind : ∀ handing ∈ o.handed, handing.id ≤ last := by
    rw [← hreached]
    exact h.behind
  refine {
    ids := h.ids
    allocated := h.allocated
    first := h.first
    triage := h.triage
    shut := h.shut
    once := ?_
    behind := ?_
    bound := ?_
    covered := ?_
    passed := h.passed
    stage := ?_ }
  · rcases hhanded with ⟨rfl, -⟩ | rfl
    · exact h.once
    · rw [List.map_append, List.nodup_append]
      refine ⟨h.once, List.nodup_singleton _, ?_⟩
      intro id hid id' hid' heq
      obtain ⟨handing, hhanding, rfl⟩ := List.mem_map.1 hid
      have hlast := hbehind handing hhanding
      rw [List.map_singleton, List.mem_singleton] at hid'
      dsimp only at hid'
      omega
  · intro handing hhanding
    change handing.id ≤ row.id
    rcases hhanded with ⟨rfl, -⟩ | rfl
    · exact (hbehind handing hhanding).trans habove.le
    · rcases List.mem_append.1 hhanding with hhanding | hhanding
      · exact (hbehind handing hhanding).trans habove.le
      · rw [List.mem_singleton.1 hhanding]
  · intro handing hhanding
    rcases hhanded with ⟨rfl, -⟩ | rfl
    · exact h.bound handing hhanding
    · rcases List.mem_append.1 hhanding with hhanding | hhanding
      · exact h.bound handing hhanding
      · rw [List.mem_singleton.1 hhanding]
        exact ⟨triage, htriage, hle⟩
  · intro row' hrow hle
    have howed : o.Owed row' := hrow.congr rfl rfl rfl
    have hle : row'.id ≤ row.id := hle
    by_cases hlast : row'.id ≤ last
    · have hmem := h.covered row' howed (hlast.trans hreached.ge)
      rcases hhanded with ⟨rfl, -⟩ | rfl
      · exact hmem
      · exact (List.sublist_append_left _ _).map _ |>.subset hmem
    · have hrow' : row' ∈ row :: left :=
        hold.whole row' howed (by omega) (hle.trans (le_final _ hold.sorted List.mem_cons_self))
      have heq : row' = row := by
        rcases List.mem_cons.1 hrow' with heq | hmem
        · exact heq
        · have hlt := hleast row' hmem
          omega
      subst heq
      rcases hhanded with ⟨-, hnot⟩ | rfl
      · have hlets := hold.lets row' List.mem_cons_self howed.toDue
        refine absurd ⟨?_, hrow.channel, hlets⟩ hnot
        rw [hrow.eventType]
        rfl
      · rw [List.map_append]
        exact List.mem_append_right _ (List.mem_singleton_self _)
  · exact {
      after := hold.after.trans habove.le
      above := hleast
      sorted := hsorted
      bound := fun row' hrow ↦ hold.bound row' (List.mem_cons_of_mem _ hrow)
      lets := fun row' hrow hdue ↦ hold.lets row' (List.mem_cons_of_mem _ hrow)
        (hdue.congr rfl rfl)
      whole := by
        intro row' hrow hlt hle
        rw [← final_cons last] at hle
        have hmem := hold.whole row'
          (hrow.congr rfl rfl rfl) (by omega) hle
        rcases List.mem_cons.1 hmem with rfl | hmem
        · exact absurd hlt (lt_irrefl _)
        · exact hmem
      lowest := by
        intro id hid
        rw [← final_cons last]
        exact hold.lowest id hid }

/-- The batch is done, and the watermark is its last row. -/
theorem Drained.finish (h : Drained driverFor o) (hstage : o.stage = .draining gate bound last []) :
    Drained driverFor { o with
      watermark := last
      stage := .away
      lowest := none
      passed := o.passed ++ o.lowest.toList } := by
  have hold := h.stage
  rw [hstage] at hold
  have hreached : o.reached = last := by rw [Outbox.reached, hstage]
  refine {
    ids := h.ids
    allocated := h.allocated
    first := h.first.trans hold.after
    triage := h.triage
    shut := h.shut
    once := h.once
    behind := ?_
    bound := h.bound
    covered := ?_
    passed := ?_
    stage := trivial }
  · have hbehind := h.behind
    rwa [hreached] at hbehind
  · intro row hrow hle
    exact h.covered row (hrow.congr rfl rfl rfl)
      (hle.trans hreached.ge)
  · intro id hid
    rcases List.mem_append.1 hid with hid | hid
    · exact (h.passed id hid).trans hold.after
    · exact hold.lowest id (Option.mem_toList.1 hid)

variable {s t : State} {work : Work} {ticketId articleId : ℕ}

theorem stage_defer : (s.defer gate bound work ticketId articleId).stage = work.stage gate bound := by
  unfold State.defer
  split
  · rfl
  · split
    · split <;> rfl
    · rfl

theorem outbox_park (h : s.tick = .parking gate bound work ticketId articleId) :
    (s.park gate bound work ticketId articleId).outbox = s.outbox := by
  have hstage : (Tick.working gate bound work).stage = s.tick.stage := by
    rw [h]
    rfl
  unfold State.park
  split <;> simp only [State.outbox, State.setRow, hstage]

theorem outbox_takeOff {replies : List (ℕ × ℕ)} (h : s.tick.stage = .away) :
    (s.takeOff gate bound ticketId articleId replies).outbox = s.outbox := by
  unfold State.takeOff
  split <;> simp only [State.outbox, State.setRow, h] <;> rfl

theorem outbox_replay {replies : List (ℕ × ℕ)} {checks answered : Bool} (h : s.tick.stage = .away) :
    (s.replay gate bound replies ticketId articleId checks answered).outbox = s.outbox := by
  unfold State.replay
  simp only [State.outbox, h, apply_ite Tick.stage]
  congr 1
  exact ite_self _

theorem Drained.step (h : Drained driverFor s.outbox) {checks answered : Bool}
    (hs : s.step driverFor checks answered = some t) : Drained driverFor t.outbox := by
  unfold State.step at hs
  split at hs
  · cases hs
  · cases hs
  · cases hs
  · cases hs
  · rename_i gate bound watermark last row left htick
    cases hs
    have hstage : s.outbox.stage = .draining gate bound last (row :: left) := by
      rw [State.outbox, htick]
      rfl
    unfold State.event
    dsimp only
    split
    · rename_i hgo
      have hnext := h.event hstage (s.handed ++ [⟨row.id, bound⟩]) (.inr rfl)
      simp only [State.outbox]
      have hworking : ∀ tick : Tick, tick.stage = .draining gate bound row.id left →
          Drained driverFor { s.outbox with
            stage := tick.stage, handed := s.handed ++ [⟨row.id, bound⟩] } := by
        intro tick htick
        rw [htick]
        exact hnext
      refine hworking _ ?_
      split
      · split <;> rfl
      · rfl
    · rename_i hgo
      refine h.event hstage s.handed (.inl ⟨rfl, fun hlet ↦ hgo ?_⟩)
      obtain ⟨hcustomer, hskip, hpaused, hlets⟩ := hlet
      rw [hcustomer, hskip, hpaused]
      simpa only [Bool.not_false, Bool.and_self, Bool.true_and, Bool.or_eq_true] using hlets
  · rename_i gate bound watermark last htick
    cases hs
    have hstage : s.outbox.stage = .draining gate bound last [] := by
      rw [State.outbox, htick]
      rfl
    exact h.finish hstage
  · rename_i gate bound work ticketId articleId htick
    cases hs
    have heq : State.outbox { s with tick := s.defer gate bound work ticketId articleId } =
        s.outbox := by
      simp only [State.outbox, stage_defer, htick]
      rfl
    rw [heq]
    exact h
  · rename_i gate bound work ticketId articleId htick
    cases hs
    rw [outbox_park htick]
    exact h
  · rename_i gate bound ticketId articleId left htick
    cases hs
    rw [outbox_takeOff (by rw [htick]; rfl)]
    exact h
  · rename_i gate bound left ticketId articleId htick
    cases hs
    rw [outbox_replay (by rw [htick]; rfl)]
    exact h
  · rename_i gate bound htick
    cases hs
    have heq : State.outbox { s with
        tick := .idle, selected := [], taken := s.taken ++ s.selected } = s.outbox := by
      simp only [State.outbox, htick]
      rfl
    rw [heq]
    exact h

theorem grows_commit {transaction : ℕ} (h : Drained driverFor s.outbox)
    (hC : s.outbox.InOrder driverFor isolation (.commit transaction)) :
    s.outbox.Grows (State.outbox { s with
      rows := s.rows ++ (s.pending.filter fun r ↦ r.1 = transaction).map (·.2)
      pending := s.pending.filter fun r ↦ r.1 ≠ transaction
      shut := if s.gate.isOpen then s.shut
        else s.shut ++ ((s.pending.filter fun r ↦ r.1 = transaction).map (·.2)).map (·.id) }) := by
  have hperm : ((s.rows ++ (s.pending.filter fun r ↦ r.1 = transaction).map (·.2)).map (·.id) ++
      (s.pending.filter fun r ↦ r.1 ≠ transaction).map (·.2.id)).Perm
        (s.rows.map (·.id) ++ s.pending.map (·.2.id)) := by
    rw [List.map_append, List.append_assoc, List.map_map]
    refine List.Perm.append_left _ ?_
    have hsplit := (List.filter_append_perm (fun r : ℕ × OutboxRow ↦ r.1 = transaction)
      s.pending).map fun r ↦ r.2.id
    rw [List.map_append] at hsplit
    simp only [ne_eq, decide_not]
    exact hsplit
  refine ⟨?_, rfl, rfl, rfl, rfl, rfl, rfl, h.triage, ?_, List.prefix_append _ _, ?_,
    hperm.nodup_iff.2 h.ids, fun id hid ↦ h.allocated id (hperm.mem_iff.1 hid)⟩
  · intro hclosed row hrow
    have hclosed : s.gate.isOpen = false := hclosed
    simp only [State.outbox, hclosed, Bool.false_eq_true, if_false] at hrow ⊢
    rcases List.mem_append.1 hrow with hrow | hrow
    · exact List.mem_append_left _ (h.shut hclosed row hrow)
    · exact List.mem_append_right _ (List.mem_map.2 ⟨row, hrow, rfl⟩)
  · simp only [State.outbox]
    split
    · exact List.Subset.refl _
    · exact List.subset_append_left _ _
  · intro row hrow
    rcases List.mem_append.1 hrow.visible with hold | hnew
    · exact .inl hold
    obtain ⟨r, hr, rfl⟩ := List.mem_map.1 hnew
    obtain ⟨hr, htransaction⟩ := List.mem_filter.1 hr
    have hshut := hrow.shut
    simp only [State.outbox] at hshut
    split at hshut
    · rename_i hopen
      exact .inr (hC hopen r hr (of_decide_eq_true htransaction)
        ⟨hrow.eventType, hrow.channel, hrow.first, hshut⟩)
    · exact absurd (List.mem_append_right _ (List.mem_map.2 ⟨r.2, hnew, rfl⟩)) hshut

theorem Drained.next (h : Drained driverFor s.outbox) {a : Action}
    (hC : s.outbox.InOrder driverFor isolation a) (hn : s.next driverFor isolation a = some t) :
    Drained driverFor t.outbox := by
  have hids := h.ids
  have hallocated := h.allocated
  cases a with
  | insert transaction eventType ticketId articleId channel =>
    cases hn
    refine h.grows ⟨h.shut, rfl, rfl, rfl, rfl, rfl, rfl, h.triage, List.Subset.refl _,
      List.prefix_refl _, fun row hrow ↦ .inl hrow.visible, ?_, ?_⟩
    · change (s.rows.map _ ++ (s.pending ++ _).map _).Nodup
      rw [List.map_append, ← List.append_assoc, List.nodup_append]
      refine ⟨hids, List.nodup_singleton _, ?_⟩
      intro id hid id' hid' heq
      rw [List.map_singleton, List.mem_singleton] at hid'
      have hle := hallocated id hid
      dsimp only [State.outbox] at hle hid'
      omega
    · intro id hid
      change id ∈ s.rows.map _ ++ (s.pending ++ _).map _ at hid
      rw [List.map_append, ← List.append_assoc] at hid
      rcases List.mem_append.1 hid with hid | hid
      · exact (hallocated id hid).trans (Nat.le_succ _)
      · rw [List.map_singleton, List.mem_singleton] at hid
        exact hid.le
  | commit transaction =>
    cases hn
    exact h.grows (grows_commit h hC)
  | rollback transaction =>
    cases hn
    have hsub : (s.rows.map (·.id) ++ ((s.pending.filter fun r ↦ r.1 ≠ transaction).map
        (·.2.id))).Sublist (s.rows.map (·.id) ++ s.pending.map (·.2.id)) :=
      (List.Sublist.refl _).append (List.filter_sublist.map _)
    exact h.grows ⟨h.shut, rfl, rfl, rfl, rfl, rfl, rfl, h.triage, List.Subset.refl _,
      List.prefix_refl _, fun row hrow ↦ .inl hrow.visible, hids.sublist hsub,
      fun id hid ↦ hallocated id (hsub.subset hid)⟩
  | setGate gate =>
    cases hn
    refine h.grows ⟨?_, rfl, rfl, rfl, rfl, rfl, rfl, h.triage, ?_, List.prefix_refl _,
      fun row hrow ↦ .inl hrow.visible, hids, hallocated⟩
    · intro hclosed row hrow
      change row.id ∈ if gate.isOpen then s.shut else s.shut ++ s.rows.map (·.id)
      have hclosed : gate.isOpen = false := hclosed
      rw [if_neg (Bool.eq_false_iff.1 hclosed)]
      exact List.mem_append_right _ (List.mem_map.2 ⟨row, hrow, rfl⟩)
    · change s.shut ⊆ if gate.isOpen then s.shut else s.shut ++ s.rows.map (·.id)
      split
      · exact List.Subset.refl _
      · exact List.subset_append_left _ _
  | triageTick watermark =>
    simp only [State.next] at hn
    split at hn
    · cases hn
      exact h.grows ⟨h.shut, rfl, rfl, rfl, rfl, rfl, rfl, rfl, List.Subset.refl _,
        List.prefix_refl _, fun row hrow ↦ .inl hrow.visible, hids, hallocated⟩
    · cases hn
  | openTriage ticketId =>
    simp only [State.next] at hn
    split at hn
    · cases hn
      exact h
    · cases hn
  | decide ticketId =>
    obtain ⟨row, -, rfl⟩ := Option.map_eq_some_iff.1 hn
    exact h
  | pauseTicket ticketId =>
    simp only [State.next] at hn
    split at hn
    · cases hn
      exact h
    · split at hn
      · cases hn
        exact h
      · cases hn
        exact h
  | unpauseTicket ticketId =>
    cases hn
    exact h
  | pauseCustomers ticketIds =>
    cases hn
    exact h
  | startTick =>
    simp only [State.next] at hn
    split at hn
    · rename_i htick
      cases hn
      have hreached : s.outbox.reached = s.watermark := by
        simp only [Outbox.reached, State.outbox, htick, Tick.stage]
      exact h.stays (.reading ⟨s.rows, s.triage⟩) hreached.symm ⟨List.prefix_refl _, h.triage⟩
    · cases hn
  | readBatch =>
    simp only [State.next] at hn
    split at hn
    · rename_i gate view htick
      cases hn
      have hreached : s.outbox.reached = s.watermark := by
        simp only [Outbox.reached, State.outbox, htick, Tick.stage]
      have hstage : view.rows <+: s.rows ∧ view.triage.isSome := by
        have hstage := h.stage
        simp only [State.outbox, htick, Tick.stage] at hstage
        exact hstage
      refine h.stays (.bounding gate view _) hreached.symm ⟨?_, hstage.2⟩
      cases isolation with
      | readCommitted => exact List.prefix_refl _
      | snapshot => exact hstage.1
    · cases hn
  | readTriage =>
    simp only [State.next] at hn
    split at hn
    · rename_i gate view read htick
      cases hn
      have hstage : s.outbox.stage = .bounding gate view read := by
        rw [State.outbox, htick]
        rfl
      exact h.readTriage hstage hC rfl
    · cases hn
  | select selected =>
    simp only [State.next] at hn
    split at hn
    · rename_i gate bound htick
      split at hn
      · cases hn
        have heq : State.outbox { s with
            tick := .working gate bound (.replies selected), selected } = s.outbox := by
          simp only [State.outbox, htick]
          rfl
        rw [heq]
        exact h
      · cases hn
    · cases hn
  | step checks answered => exact h.step hn

end Tiqora.Ai.AutoWorker
