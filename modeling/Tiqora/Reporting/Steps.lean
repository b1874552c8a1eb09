import Tiqora.Reporting.Coverage

namespace Tiqora.Reporting

open Foundation

variable {ids : IdSequence} {s : FollowerState}

def Batch.outstanding (ids : IdSequence) (b : Batch) : List ℕ :=
  Reporting.outstanding ids b.watermark (maxHistoryId b.rows) (b.rows.map (·.id))

/-- No more than `MAX_GAPS` ids are outstanding, neither among the ids a batch skips nor among
the gaps it keeps. -/
def Tick.FewOutstanding (ids : IdSequence) (now : ℕ) : Tick → Prop
  | .rowsRead b => (b.outstanding ids).length ≤ maxGaps
  | .noted b => (dropExpired now b.gaps).length ≤ maxGaps
  | .idle | .begun _ | .gapsRead _ | .trimmed _ | .rebuilt _ _ | .marked _ | .done _ => True

/-- No gap expires whose row is visible. -/
def Tick.ExpiresUnseen (now : ℕ) (history : List HistoryRow) : Tick → Prop
  | .noted b => ∀ g ∈ b.gaps, g.2 + gapTtlSeconds < now → ∀ row ∈ history, row.id ≠ g.1
  | .idle | .begun _ | .gapsRead _ | .rowsRead _ | .trimmed _ | .rebuilt _ _ | .marked _
  | .done _ => True

/-- A row becomes visible in time after a tick first saw a higher id, and few ids are
outstanding. -/
def Promised (ids : IdSequence) (s : FollowerState) : FollowerAction → Prop
  | .commit row => ∀ seen ∈ s.saw row.id, s.clock < seen + gapTtlSeconds
  | .advance => s.tick.FewOutstanding ids s.clock
  | .wait _ | .allocate _ | .rollback _ | .start | .rebuild _ | .finish | .crash => True

/-- A tick that starts without a watermark finds no row that came after the first tick and no
insert under way below the highest id, and no gap expires whose row is visible. -/
def Undisturbed (s : FollowerState) : FollowerAction → Prop
  | .start => s.saved.lastHistoryId = 0 → (∀ row ∈ s.history, row ∈ s.old) ∧
      ∀ row ∈ s.pending, maxHistoryId s.history < row.id
  | .advance => s.tick.ExpiresUnseen s.clock s.history
  | .wait _ | .allocate _ | .commit _ | .rollback _ | .rebuild _ | .finish | .crash => True

instance (ids : IdSequence) (now : ℕ) (tick : Tick) : Decidable (tick.FewOutstanding ids now) :=
  match tick with
  | .rowsRead _ | .noted _ => inferInstanceAs (Decidable (_ ≤ _))
  | .idle | .begun _ | .gapsRead _ | .trimmed _ | .rebuilt _ _ | .marked _ | .done _ =>
    isTrue trivial

instance (now : ℕ) (history : List HistoryRow) (tick : Tick) :
    Decidable (tick.ExpiresUnseen now history) :=
  match tick with
  | .noted b => inferInstanceAs (Decidable (∀ g ∈ b.gaps, _ → _))
  | .idle | .begun _ | .gapsRead _ | .rowsRead _ | .trimmed _ | .rebuilt _ _ | .marked _
  | .done _ => isTrue trivial

instance (ids : IdSequence) (s : FollowerState) (a : FollowerAction) :
    Decidable (Promised ids s a) :=
  match a with
  | .commit row => inferInstanceAs (Decidable (∀ seen ∈ s.saw row.id, _))
  | .advance => inferInstanceAs (Decidable (s.tick.FewOutstanding ids s.clock))
  | .wait _ | .allocate _ | .rollback _ | .start | .rebuild _ | .finish | .crash => isTrue trivial

instance (s : FollowerState) (a : FollowerAction) : Decidable (Undisturbed s a) :=
  match a with
  | .start => inferInstanceAs (Decidable (_ → _ ∧ _))
  | .advance => inferInstanceAs (Decidable (s.tick.ExpiresUnseen s.clock s.history))
  | .wait _ | .allocate _ | .commit _ | .rollback _ | .rebuild _ | .finish | .crash =>
    isTrue trivial

theorem FollowerInvariant.environment {t : FollowerState} (h : FollowerInvariant ids s)
    (ht : HistoryTable ids t) (hl : Later s t) (hkept : ∀ row ∈ s.history, row ∈ t.history)
    (hsaved : t.saved = s.saved) (htick : t.tick = s.tick) (hopening : t.opening = s.opening)
    (hpicked : t.picked = s.picked) (hbefore : t.before = s.before)
    (hhandled : t.handled = s.handled) : FollowerInvariant ids t where
  table := ht
  saved := by
    rw [hsaved]
    exact h.saved.later hl
  tick := by
    rw [htick]
    exact h.tick.later hl hkept hsaved hopening
  handled := by
    rw [hpicked, hbefore, hhandled]
    exact h.handled

theorem FollowerInvariant.wait (h : FollowerInvariant ids s) (duration : ℕ) :
    FollowerInvariant ids { s with clock := s.clock + duration } := by
  have hl : Later s { s with clock := s.clock + duration } :=
    ⟨Nat.le_add_right _ _, Nat.le_refl _, fun _ hr ↦ hr, fun _ hr ↦ .inl hr, fun _ hr ↦ .inl hr,
      fun _ _ hs ↦ hs, fun _ hr ↦ hr⟩
  have ht := h.table
  refine h.environment ⟨ht.sorted, ht.nodup, ht.allocated, ht.expected, ht.late, ?_, ht.fresh,
    ht.opening⟩ hl (fun _ hr ↦ hr) rfl rfl rfl rfl rfl rfl
  intro id seen hs
  exact Nat.le_trans (ht.saw id seen hs) (Nat.le_add_right _ _)

theorem FollowerInvariant.allocate (h : FollowerInvariant ids s) {row : HistoryRow}
    (hlt : s.lastId < row.id) (hexp : ids.Expects row.id) :
    FollowerInvariant ids { s with lastId := row.id, pending := s.pending ++ [row] } := by
  have hl : Later s { s with lastId := row.id, pending := s.pending ++ [row] } := by
    refine ⟨Nat.le_refl _, Nat.le_of_lt hlt, fun _ hr ↦ hr, fun _ hr ↦ .inl hr, fun r hr ↦ ?_,
      fun _ _ hs ↦ hs, fun _ hr ↦ hr⟩
    rcases List.mem_append.1 hr with hr | hr
    · exact .inl hr
    · exact .inr (List.mem_singleton.1 hr ▸ hlt)
  have ht := h.table
  have hmem : ∀ r ∈ s.pending ++ [row] ++ s.history, r = row ∨ r ∈ s.pending ++ s.history := by
    intro r hr
    rw [List.append_assoc, List.mem_append, List.mem_append, List.mem_singleton] at hr
    rcases hr with hr | hr | hr
    · exact .inr (List.mem_append_left _ hr)
    · exact .inl hr
    · exact .inr (List.mem_append_right _ hr)
  refine h.environment ⟨ht.sorted, ?_, fun r hr ↦ ?_, fun r hr ↦ ?_, ht.late, ht.saw, ht.fresh,
    ht.opening⟩ hl (fun _ hr ↦ hr) rfl rfl rfl rfl rfl rfl
  · have hperm : (s.pending ++ [row] ++ s.history).Perm (row :: (s.pending ++ s.history)) := by
      rw [List.append_assoc]
      exact List.perm_middle
    refine (hperm.map _).nodup_iff.2 (List.nodup_cons.2 ⟨fun hin ↦ ?_, ht.nodup⟩)
    obtain ⟨r, hr, hid⟩ := List.mem_map.1 hin
    have hid' : r.id = row.id := hid
    have := (ht.allocated r hr).2
    omega
  · rcases hmem r hr with rfl | hr
    · exact ⟨by omega, Nat.le_refl _⟩
    · obtain ⟨hpos, hle⟩ := ht.allocated r hr
      exact ⟨hpos, by simp only; omega⟩
  · rcases List.mem_append.1 hr with hr | hr
    · exact ht.expected r hr
    · exact List.mem_singleton.1 hr ▸ hexp

theorem FollowerInvariant.commit (h : FollowerInvariant ids s) {row : HistoryRow}
    (hr : row ∈ s.pending) (hp : ∀ seen ∈ s.saw row.id, s.clock < seen + gapTtlSeconds) :
    FollowerInvariant ids
      { s with
        pending := s.pending.erase row
        history := insertRow row s.history
        old := if s.started then s.old else insertRow row s.old } := by
  have ht := h.table
  have hold : ∀ r ∈ s.old, r ∈ if s.started then s.old else insertRow row s.old := by
    intro r hr
    split
    · exact hr
    · exact mem_insertRow.2 (.inr hr)
  have hperm : (s.pending.erase row ++ insertRow row s.history).Perm (s.pending ++ s.history) := by
    have hins : (insertRow row s.history).Perm (row :: s.history) :=
      List.perm_orderedInsert HistoryRow.Before row s.history
    exact (hins.append_left _).trans
      (List.perm_middle.trans ((List.perm_cons_erase hr).symm.append_right _))
  refine h.environment ⟨pairwise_insertRow row ht.sorted, (hperm.map _).nodup_iff.2 ht.nodup,
    fun r hr ↦ ht.allocated r (hperm.mem_iff.1 hr),
    fun r hr ↦ ht.expected r (List.mem_of_mem_erase hr), fun r hr' hnot ↦ ?_, ht.saw,
    fun hstart r hr' ↦ ?_, fun r hr' ↦ mem_insertRow.2 (.inr (ht.opening r hr'))⟩
    ⟨Nat.le_refl _, Nat.le_refl _, hold, fun r hr' ↦ ?_,
      fun r hr' ↦ .inl (List.mem_of_mem_erase hr'), fun _ _ hs ↦ hs, fun _ hr ↦ hr⟩
    (fun r hr' ↦ mem_insertRow.2 (.inr hr')) rfl rfl rfl rfl rfl rfl
  · rcases mem_insertRow.1 hr' with rfl | hr'
    · exact ht.expected r hr
    · exact ht.late r hr' fun ho ↦ hnot (hold r ho)
  · have hs : s.started = false := hstart
    simp only [hs, Bool.false_eq_true, if_false]
    rcases mem_insertRow.1 hr' with rfl | hr'
    · exact mem_insertRow.2 (.inl rfl)
    · exact mem_insertRow.2 (.inr (ht.fresh hs r hr'))
  · rcases mem_insertRow.1 hr' with rfl | hr'
    · refine .inr (.inr ⟨hr, fun ⟨seen, hs, hle⟩ ↦ ?_⟩)
      have := hp seen hs
      omega
    · exact .inl hr'

theorem FollowerInvariant.rollback (h : FollowerInvariant ids s) (row : HistoryRow) :
    FollowerInvariant ids { s with pending := s.pending.erase row } := by
  have hl : Later s { s with pending := s.pending.erase row } :=
    ⟨Nat.le_refl _, Nat.le_refl _, fun _ hr ↦ hr, fun _ hr ↦ .inl hr,
      fun _ hr ↦ .inl (List.mem_of_mem_erase hr), fun _ _ hs ↦ hs, fun _ hr ↦ hr⟩
  have ht := h.table
  have hsub : (s.pending.erase row ++ s.history).Sublist (s.pending ++ s.history) :=
    List.erase_sublist.append_right _
  exact h.environment ⟨ht.sorted, ht.nodup.sublist (hsub.map _),
    fun r hr ↦ ht.allocated r (hsub.subset hr),
    fun r hr ↦ ht.expected r (List.mem_of_mem_erase hr), ht.late, ht.saw, ht.fresh, ht.opening⟩ hl
    (fun _ hr ↦ hr) rfl rfl rfl rfl rfl rfl

theorem sees_ext {s : FollowerState} {bound id seen : ℕ} (h : s.saw id = some seen) :
    s.sees bound id = some seen := by
  rw [FollowerState.sees]
  split
  · rw [h, Option.some_or]
  · exact h

theorem sees_of_lt {s : FollowerState} {bound id : ℕ} (h : id < bound) :
    ∃ seen, s.sees bound id = some seen := by
  rw [FollowerState.sees, if_pos h]
  cases s.saw id with
  | none => exact ⟨s.clock, rfl⟩
  | some seen => exact ⟨seen, rfl⟩

theorem sees_le {s : FollowerState} {bound id seen : ℕ}
    (hs : ∀ id seen, s.saw id = some seen → seen ≤ s.clock) (h : s.sees bound id = some seen) :
    seen ≤ s.clock := by
  rw [FollowerState.sees] at h
  split at h
  · cases hsaw : s.saw id with
    | none =>
      rw [hsaw] at h
      cases h
      exact Nat.le_refl _
    | some seen' =>
      rw [hsaw] at h
      cases h
      exact hs id seen hsaw
  · exact hs id seen h

/-- The steps of the tick keep the table, and picked rows stay picked. -/
theorem Later.tick {t : FollowerState} (hclock : t.clock = s.clock) (hlast : t.lastId = s.lastId)
    (hold : t.old = s.old) (hhistory : t.history = s.history) (hpending : t.pending = s.pending)
    (hsaw : ∀ id seen, s.saw id = some seen → t.saw id = some seen)
    (hpicked : ∀ row ∈ s.picked, row ∈ t.picked) : Later s t where
  clock := Nat.le_of_eq hclock.symm
  lastId := Nat.le_of_eq hlast.symm
  old _ hr := hold ▸ hr
  found _ hr := .inl (hhistory ▸ hr)
  pending _ hr := .inl (hpending ▸ hr)
  saw := hsaw
  picked := hpicked

theorem Later.refl (s : FollowerState) : Later s s :=
  .tick rfl rfl rfl rfl rfl (fun _ _ hs ↦ hs) fun _ hr ↦ hr

theorem FollowerInvariant.initialise (h : FollowerInvariant ids s)
    (hc : s.saved.lastHistoryId = 0 → (∀ row ∈ s.history, row ∈ s.old) ∧
      ∀ row ∈ s.pending, maxHistoryId s.history < row.id) :
    HistoryTable ids s.initialise ∧
      Covers s.initialise s.initialise.saved.lastHistoryId s.initialise.saved.gapIds [] := by
  by_cases h0 : s.saved.lastHistoryId = 0
  · obtain ⟨hold, hpend⟩ := hc h0
    have ht := h.table
    have hsaw : ∀ id seen, s.sees (maxHistoryId s.history) id = some seen → seen ≤ s.clock :=
      fun id seen hs ↦ sees_le ht.saw hs
    rw [FollowerState.initialise, if_pos h0]
    refine ⟨⟨ht.sorted, ht.nodup, ht.allocated, ht.expected, ht.late, hsaw, ht.fresh,
      ht.opening⟩, ⟨?_, ?_, ?_, ?_⟩⟩
    · exact maxHistoryId_le fun row hr ↦ (ht.allocated row (List.mem_append_right _ hr)).2
    · intro row hr hnot
      exact absurd (hold row hr) hnot
    · intro row hr
      exact .inl (hpend row hr)
    · intro g hg
      obtain ⟨seen, hs, hle⟩ := h.saved.timed g hg
      exact ⟨seen, sees_ext hs, hle⟩
  · rw [FollowerState.initialise, if_neg h0]
    exact ⟨h.table, h.saved⟩

theorem begin_invariant (ht : HistoryTable ids s)
    (hc : Covers s s.saved.lastHistoryId s.saved.gapIds []) : FollowerInvariant ids s.begin := by
  have hl : Later s s.begin := .tick rfl rfl rfl rfl rfl (fun _ _ hs ↦ hs) fun _ hr ↦ hr
  refine ⟨⟨ht.sorted, ht.nodup, ht.allocated, ht.expected, ht.late, ht.saw, nofun,
    fun row hr ↦ hr⟩, hc.later hl, ⟨hc.later hl, Nat.le_refl _, fun row hr hold ↦ ?_⟩,
    fun row hr ↦ .inl hr⟩
  rcases hc.found row hr hold with hp | hw | hg | hin
  · exact .inl hp
  · exact .inr (.inr (.inr ⟨rfl, hw⟩))
  · exact .inr (.inr (.inl hg))
  · cases hin

end Tiqora.Reporting
