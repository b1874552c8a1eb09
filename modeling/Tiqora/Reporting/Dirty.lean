import Tiqora.Foundation.Machine
import Tiqora.Foundation.Tables

namespace Tiqora.Reporting.Dirty

open Foundation

/-- `tiqora_report_dirty_ticket`: `queued_at` under the ticket id. -/
abbrev Queue := Table ℕ ℕ

def inChunk : ℕ := 1000

def dirtyBatch : ℕ := 1000

def markTicketsDirty (T : Queue) (ticketIds : List ℕ) (queuedAt : ℕ) : Option Queue :=
  (chunks inChunk (sortedSet ticketIds)).foldlM (fun T chunk ↦ T.replace chunk fun _ ↦ queuedAt) T

def oldestFirst (r r' : ℕ × ℕ) : Prop := r.2 < r'.2 ∨ r.2 = r'.2 ∧ r.1 ≤ r'.1

instance (r r' : ℕ × ℕ) : Decidable (oldestFirst r r') := inferInstanceAs (Decidable (_ ∨ _))

/-- The ids and the instant for `clear_dirty`: the newest stamp of the batch. -/
def takeDirtyTicketIds (T : Queue) (limit now : ℕ) : List ℕ × ℕ :=
  let rows := (T.rows.insertionSort oldestFirst).take limit
  (rows.map (·.1), (rows.map (·.2)).max?.getD now)

def clearDirty (T : Queue) (ticketIds : List ℕ) (takenAt : ℕ) : Queue :=
  (chunks inChunk (sortedSet ticketIds)).foldl
    (fun T chunk ↦ T.delete fun r ↦ r.1 ∈ chunk ∧ r.2 ≤ takenAt) T

theorem mem_markTicketsDirty {T T' : Queue} {ids : List ℕ} {q : ℕ}
    (h : markTicketsDirty T ids q = some T') {t v : ℕ} :
    (t, v) ∈ T'.rows ↔ (t ∈ ids ∧ v = q) ∨ ((t, v) ∈ T.rows ∧ t ∉ ids) := by
  rw [Table.mem_foldlM_replace h, mem_flatten_chunks (by decide), mem_sortedSet]

theorem exists_markTicketsDirty (T : Queue) (ids : List ℕ) (q : ℕ) :
    ∃ T', markTicketsDirty T ids q = some T' :=
  Table.exists_foldlM_replace (fun _ hc ↦ nodup_of_mem_chunks (nodup_sortedSet ids) hc) _ T

theorem mem_clearDirty {T : Queue} {ids : List ℕ} {takenAt t v : ℕ} :
    (t, v) ∈ (clearDirty T ids takenAt).rows ↔ (t, v) ∈ T.rows ∧ (t ∈ ids → takenAt < v) := by
  rw [clearDirty, Table.mem_foldl_delete]
  refine and_congr_right fun _ ↦ ?_
  have hmem : t ∈ ids ↔ t ∈ (chunks inChunk (sortedSet ids)).flatten := by
    rw [mem_flatten_chunks (by decide), mem_sortedSet]
  rw [hmem, List.mem_flatten]
  constructor
  · rintro h ⟨c, hc, ht⟩
    have := h c hc
    rw [decide_eq_false_iff_not] at this
    exact not_le.1 fun hle ↦ this ⟨ht, hle⟩
  · intro h c hc
    rw [decide_eq_false_iff_not]
    rintro ⟨ht, hle⟩
    exact absurd hle (not_le.2 (h ⟨c, hc, ht⟩))

/-- A tick that nothing disturbs clears every mark it took. -/
theorem clearDirty_taken {T : Queue} {limit now t v : ℕ} (hv : (t, v) ∈ T.rows)
    (ht : t ∈ (takeDirtyTicketIds T limit now).1) :
    (t, v) ∉ (clearDirty T (takeDirtyTicketIds T limit now).1
      (takeDirtyTicketIds T limit now).2).rows := by
  rw [mem_clearDirty]
  rintro ⟨-, h⟩
  refine absurd (h ht) (not_lt.2 ?_)
  obtain ⟨⟨t', w⟩, hr, rfl⟩ := List.mem_map.1 ht
  have hw := (List.mem_insertionSort _).1 (List.mem_of_mem_take hr)
  rw [T.value_unique hv hw]
  exact List.le_max?_getD_of_mem (List.mem_map_of_mem hr)

/-- A call of `mark_tickets_dirty` in a transaction that is still open. -/
structure Mark where
  transaction : ℕ
  ticketIds : List ℕ
  queuedAt : ℕ
  deriving DecidableEq

/-- A tick between the take and the clear; `late` holds the marks that committed after the rebuild
had last read their ticket. -/
structure Tick where
  due : List ℕ
  takenAt : ℕ
  read : List ℕ
  late : List (ℕ × ℕ)
  deriving DecidableEq

def Tick.done (k : Tick) (failed : List ℕ) : List ℕ := k.due.filter fun id ↦ id ∉ failed

def Tick.failed (k : Tick) (failed : List ℕ) : List ℕ := k.due.filter fun id ↦ id ∈ failed

def Tick.reads (k : Tick) (id : ℕ) : Tick :=
  { k with read := id :: k.read, late := k.late.filter fun r ↦ r.1 ≠ id }

def Tick.note (k : Tick) (m : Mark) : Tick :=
  { k with
    late := (k.late.filter fun r ↦ r.1 ∉ m.ticketIds) ++
      (m.ticketIds.filter fun id ↦ id ∈ k.read).map fun id ↦ (id, m.queuedAt) }

/-- `owed` lists the tickets with a committed mark that no completed rebuild has read since. -/
structure DirtyState where
  clock : ℕ
  queue : Queue
  pending : List Mark
  tick : Option Tick
  owed : List ℕ
  deriving DecidableEq

inductive Action
  | wait (seconds : ℕ)
  | mark (transaction : ℕ) (ticketIds : List ℕ)
  | commit (transaction : ℕ)
  | rollback (transaction : ℕ)
  | take (backingOff : List ℕ)
  | read (ticketId : ℕ)
  | finish (failed : List ℕ)
  | crash
  deriving DecidableEq

namespace DirtyState

def receive (s : DirtyState) (m : Mark) : Option DirtyState :=
  (markTicketsDirty s.queue m.ticketIds m.queuedAt).map fun queue ↦
    { s with queue, tick := s.tick.map fun k ↦ k.note m, owed := m.ticketIds ++ s.owed }

def close (s : DirtyState) (transaction : ℕ) : DirtyState :=
  { s with pending := s.pending.filter fun m ↦ m.transaction ≠ transaction }

def take (s : DirtyState) (backingOff : List ℕ) : DirtyState :=
  let (dirtyIds, takenAt) := takeDirtyTicketIds s.queue dirtyBatch s.clock
  let due := dirtyIds.filter fun id ↦ id ∉ backingOff
  if due = [] then s else { s with tick := some ⟨due, takenAt, [], []⟩ }

/-- The clear and the fresh marks of the failed tickets, in one transaction. -/
def finish (s : DirtyState) (k : Tick) (failed : List ℕ) : Option DirtyState :=
  (markTicketsDirty (clearDirty s.queue (k.done failed) k.takenAt) (k.failed failed) s.clock).map
    fun queue ↦
      { s with
        queue
        tick := none
        owed := k.failed failed ++
          s.owed.filter fun id ↦ id ∈ k.done failed → id ∈ k.late.map (·.1) }

def next (s : DirtyState) : Action → Option DirtyState
  | .wait seconds => some { s with clock := s.clock + seconds }
  | .mark transaction ticketIds =>
    some { s with pending := s.pending ++ [⟨transaction, ticketIds, s.clock⟩] }
  | .commit transaction =>
    ((s.pending.filter fun m ↦ m.transaction = transaction).foldlM receive s).map
      fun s ↦ s.close transaction
  | .rollback transaction => some (s.close transaction)
  | .take backingOff => if s.tick = none then some (s.take backingOff) else none
  | .read id =>
    match s.tick with
    | some k => if id ∈ k.due then some { s with tick := some (k.reads id) } else none
    | none => none
  | .finish failed =>
    match s.tick with
    | some k => if ∀ id ∈ k.done failed, id ∈ k.read then s.finish k failed else none
    | none => none
  | .crash => some { s with tick := none }

end DirtyState

/-- The ticks of one process, with the transactions that mark tickets. -/
def dirtyMachine : Machine DirtyState Action :=
  .ofNext (fun s ↦ s.pending = [] ∧ s.tick = none ∧ s.owed = []) DirtyState.next

/-- At a clear, a mark that came after the read of its ticket is newer than the whole batch. -/
def LateMarksNewer (s : DirtyState) : Action → Prop
  | .finish failed =>
    ∀ k ∈ s.tick, ∀ r ∈ k.late, r.1 ∈ k.done failed → k.takenAt < r.2
  | _ => True

instance (s : DirtyState) : ∀ a, Decidable (LateMarksNewer s a)
  | .finish failed =>
    inferInstanceAs (Decidable (∀ k ∈ s.tick, ∀ r ∈ k.late, r.1 ∈ k.done failed → k.takenAt < r.2))
  | .wait _ | .mark _ _ | .commit _ | .rollback _ | .take _ | .read _ | .crash => .isTrue trivial

/-- What a tick knows of its late marks holds in the table. -/
structure DirtyKept (s : DirtyState) : Prop where
  owed : ∀ id ∈ s.owed, s.queue.Has id
  late : ∀ k ∈ s.tick, ∀ r ∈ k.late, r ∈ s.queue.rows ∧ r.1 ∈ k.read

variable {s t : DirtyState}

theorem receive_kept {m : Mark} (h : DirtyKept s) (hs : s.receive m = some t) : DirtyKept t := by
  rw [DirtyState.receive, Option.map_eq_some_iff] at hs
  obtain ⟨queue, hq, rfl⟩ := hs
  refine ⟨fun id hid ↦ ?_, fun k' hk r hr ↦ ?_⟩
  · by_cases hin : id ∈ m.ticketIds
    · exact ⟨_, (mem_markTicketsDirty hq).2 (.inl ⟨hin, rfl⟩)⟩
    · obtain ⟨v, hv⟩ := h.owed id ((List.mem_append.1 hid).resolve_left hin)
      exact ⟨v, (mem_markTicketsDirty hq).2 (.inr ⟨hv, hin⟩)⟩
  · obtain ⟨k, htick, rfl⟩ := Option.map_eq_some_iff.1 hk
    rcases List.mem_append.1 hr with hr | hr
    · obtain ⟨hr, hnot⟩ := List.mem_filter.1 hr
      obtain ⟨hrow, hread⟩ := h.late k htick r hr
      exact ⟨(mem_markTicketsDirty hq).2 (.inr ⟨hrow, of_decide_eq_true hnot⟩), hread⟩
    · obtain ⟨id, hid, rfl⟩ := List.mem_map.1 hr
      obtain ⟨hin, hread⟩ := List.mem_filter.1 hid
      exact ⟨(mem_markTicketsDirty hq).2 (.inl ⟨hin, rfl⟩), of_decide_eq_true hread⟩

theorem receive_all_kept {ms : List Mark} (h : DirtyKept s)
    (hs : ms.foldlM DirtyState.receive s = some t) : DirtyKept t := by
  induction ms generalizing s with
  | nil =>
    rw [List.foldlM_nil] at hs
    cases hs
    exact h
  | cons m ms ih =>
    rw [List.foldlM_cons, Option.bind_eq_bind, Option.bind_eq_some_iff] at hs
    obtain ⟨u, hu, hs⟩ := hs
    exact ih (receive_kept h hu) hs

theorem take_kept {backingOff : List ℕ} (h : DirtyKept s) : DirtyKept (s.take backingOff) := by
  rw [DirtyState.take]
  dsimp only
  split
  · exact h
  · refine ⟨h.owed, fun k hk r hr ↦ ?_⟩
    cases hk
    cases hr

theorem reads_kept {k : Tick} {id : ℕ} (h : DirtyKept s) (hk : s.tick = some k) :
    DirtyKept { s with tick := some (k.reads id) } := by
  refine ⟨h.owed, fun k' hk' r hr ↦ ?_⟩
  cases hk'
  obtain ⟨hrow, hread⟩ := h.late k hk r (List.mem_filter.1 hr).1
  exact ⟨hrow, List.mem_cons_of_mem _ hread⟩

theorem not_mem_failed {k : Tick} {failed : List ℕ} {id : ℕ} (h : id ∈ k.done failed) :
    id ∉ k.failed failed := fun h' ↦
  of_decide_eq_true (List.mem_filter.1 h).2 (of_decide_eq_true (List.mem_filter.1 h').2)

/-- A rebuilt ticket keeps its mark exactly when the mark is newer than the batch. -/
theorem finish_keeps_iff {k : Tick} {failed : List ℕ} {id v : ℕ} (hs : s.finish k failed = some t)
    (hdone : id ∈ k.done failed) (hv : (id, v) ∈ s.queue.rows) :
    t.queue.Has id ↔ k.takenAt < v := by
  rw [DirtyState.finish, Option.map_eq_some_iff] at hs
  obtain ⟨queue, hq, rfl⟩ := hs
  have hnot := not_mem_failed hdone
  constructor
  · rintro ⟨w, hw⟩
    rcases (mem_markTicketsDirty hq).1 hw with ⟨hin, -⟩ | ⟨hw, -⟩
    · exact absurd hin hnot
    · obtain ⟨hw, hlt⟩ := mem_clearDirty.1 hw
      rw [s.queue.value_unique hv hw]
      exact hlt hdone
  · intro hlt
    exact ⟨v, (mem_markTicketsDirty hq).2 (.inr ⟨mem_clearDirty.2 ⟨hv, fun _ ↦ hlt⟩, hnot⟩)⟩

/-- The condition is exact at each clear. -/
theorem late_marks_survive_iff {k : Tick} {failed : List ℕ} (h : DirtyKept s)
    (hk : s.tick = some k) (hs : s.finish k failed = some t) :
    (∀ r ∈ k.late, r.1 ∈ k.done failed → t.queue.Has r.1) ↔
      LateMarksNewer s (.finish failed) := by
  constructor
  · intro hkept k' hk' r hr hdone
    cases hk.symm.trans hk'
    exact (finish_keeps_iff hs hdone (h.late k hk r hr).1).1 (hkept r hr hdone)
  · intro hnewer r hr hdone
    exact (finish_keeps_iff hs hdone (h.late k hk r hr).1).2 (hnewer k hk r hr hdone)

theorem finish_kept {k : Tick} {failed : List ℕ} (h : DirtyKept s) (hk : s.tick = some k)
    (hnewer : LateMarksNewer s (.finish failed)) (hs : s.finish k failed = some t) :
    DirtyKept t := by
  have hs' := hs
  rw [DirtyState.finish, Option.map_eq_some_iff] at hs
  obtain ⟨queue, hq, rfl⟩ := hs
  refine ⟨fun id hid ↦ ?_, fun k' hk' ↦ nomatch hk'⟩
  rcases List.mem_append.1 hid with hin | hid
  · exact ⟨_, (mem_markTicketsDirty hq).2 (.inl ⟨hin, rfl⟩)⟩
  obtain ⟨howed, hlate⟩ := List.mem_filter.1 hid
  by_cases hdone : id ∈ k.done failed
  · obtain ⟨r, hr, rfl⟩ := List.mem_map.1 (of_decide_eq_true hlate hdone)
    exact (late_marks_survive_iff h hk hs').2 hnewer r hr hdone
  · obtain ⟨v, hv⟩ := h.owed id howed
    by_cases hin : id ∈ k.failed failed
    · exact ⟨_, (mem_markTicketsDirty hq).2 (.inl ⟨hin, rfl⟩)⟩
    · refine ⟨v, (mem_markTicketsDirty hq).2 (.inr ⟨mem_clearDirty.2 ⟨hv, ?_⟩, hin⟩)⟩
      exact fun hd ↦ absurd hd hdone

theorem step_kept {a : Action} (h : DirtyKept s) (hnewer : LateMarksNewer s a)
    (hs : s.next a = some t) : DirtyKept t := by
  cases a with
  | wait seconds =>
    cases hs
    exact ⟨h.owed, h.late⟩
  | mark transaction ticketIds =>
    cases hs
    exact ⟨h.owed, h.late⟩
  | commit transaction =>
    obtain ⟨u, hu, rfl⟩ := Option.map_eq_some_iff.1 hs
    have hu := receive_all_kept h hu
    exact ⟨hu.owed, hu.late⟩
  | rollback transaction =>
    cases hs
    exact ⟨h.owed, h.late⟩
  | take backingOff =>
    rw [DirtyState.next] at hs
    split at hs
    · cases hs
      exact take_kept h
    · cases hs
  | read id =>
    rw [DirtyState.next] at hs
    split at hs
    · split at hs
      · cases hs
        exact reads_kept h ‹_›
      · cases hs
    · cases hs
  | finish failed =>
    rw [DirtyState.next] at hs
    split at hs
    · split at hs
      · exact finish_kept h ‹_› hnewer hs
      · cases hs
    · cases hs
  | crash =>
    cases hs
    exact ⟨h.owed, fun k hk ↦ nomatch hk⟩

/-- A ticket that was marked after the last rebuild read it is still queued. -/
theorem marks_kept {as : List Action} (hs : dirtyMachine.init s)
    (hr : (dirtyMachine.restrict LateMarksNewer).Run s as t) :
    ∀ id ∈ t.owed, t.queue.Has id := by
  have h₀ : DirtyKept s := by
    obtain ⟨-, htick, howed⟩ := hs
    refine ⟨fun id hid ↦ ?_, fun k hk ↦ ?_⟩
    · rw [howed] at hid
      cases hid
    · rw [htick] at hk
      cases hk
  have hI : ∀ s a t, DirtyKept s → (dirtyMachine.restrict LateMarksNewer).step s a t →
      DirtyKept t := fun _ _ _ h hst ↦ step_kept h hst.1 hst.2
  exact (hr.invariant hI h₀).owed

def emptyState : DirtyState := ⟨0, .empty, [], none, []⟩

def erasureDuringRebuild : List Action :=
  [.mark 1 [7], .commit 1, .wait 5, .mark 3 [8], .commit 3, .take [], .wait 1, .read 7, .mark 2 [7],
    .read 8, .commit 2, .finish []]

def clearedState : DirtyState := ⟨6, ⟨[(7, 6)], by decide⟩, [], none, [7, 7]⟩

theorem marks_kept_sample : 7 ∈ clearedState.owed ∧ clearedState.queue.Has 7 :=
  ⟨by decide, marks_kept (s := emptyState) (t := clearedState) ⟨rfl, rfl, rfl⟩
    (Machine.run_of_foldlM erasureDuringRebuild (by decide +kernel)) 7 (by decide)⟩

/-- The stamp of the second mark of ticket 7 lies between those of the tickets in the batch. -/
def slowTransaction : List Action :=
  [.mark 1 [7], .commit 1, .wait 2, .mark 2 [7], .wait 3, .mark 3 [8], .commit 3, .take [], .read 7,
    .read 8, .commit 2, .finish []]

theorem slow_mark_lost :
    ¬ ∀ as s t, dirtyMachine.init s → dirtyMachine.Run s as t →
      ∀ id ∈ t.owed, t.queue.Has id := by
  intro h
  have hrun : (dirtyMachine.restrict fun _ _ ↦ True).Run emptyState slowTransaction
      ⟨5, .empty, [], none, [7, 7]⟩ := Machine.run_of_foldlM _ (by decide +kernel)
  obtain ⟨v, hv⟩ := h _ _ _ ⟨rfl, rfl, rfl⟩ hrun.of_restrict 7 (by decide)
  cases hv

end Tiqora.Reporting.Dirty
