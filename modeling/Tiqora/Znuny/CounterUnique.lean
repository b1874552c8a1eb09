import Tiqora.Znuny.CounterChain

namespace Tiqora.Znuny

open Foundation

variable {settings : CounterSettings}

theorem CounterInvariant.fill {s : CounterState} (h : CounterInvariant settings s)
    {uid counterId unsetId counter : ℕ} {midnight : Option ℕ} {unsetIds : List ℕ}
    (hoff : 1 ≤ settings.offset uid)
    (hs : Scoped settings s.rows uid counterId midnight)
    (hp : Pending s.rows counterId midnight (unsetId :: unsetIds))
    (ha : Above s.rows midnight unsetId counter) :
    CounterInvariant settings (s.move uid (.filling counterId midnight unsetIds true)
      (updateUnset s.rows unsetId counter)) := by
  have hg : Grows uid s.rows (updateUnset s.rows unsetId counter) := grows_update _ _ _ _
  have hle : unsetId ≤ counterId := hp.within unsetId List.mem_cons_self
  have hfound := hp.found unsetId List.mem_cons_self
  have hset : ∀ row ∈ updateUnset s.rows unsetId counter, row.id = unsetId →
      row.counter ≠ 0 := by
    intro row hr hid
    obtain ⟨r, hmem, rfl⟩ := List.mem_map.1 hr
    have hpos := ha.1
    rw [(r.fill_keeps unsetId counter).id] at hid
    by_cases hc : r.counter = 0
    · rw [CounterRow.fill, if_pos ⟨hid, hc⟩]
      exact Nat.ne_of_gt hpos
    · rw [(r.fill_keeps unsetId counter).counter hc]
      exact hc
  refine h.move hg (h.table.update fun row hr target ht hid hlt htog ↦ ?_)
    ⟨hg.scoped hs, (hg.pending hs.owned hp).rest hset⟩ (.inr (.inr hoff))
  obtain ⟨row', hr', hid', hm⟩ := hfound
  have hmt : target.meets midnight = true :=
    h.table.eq_of_id ht hr' (hid.trans hid'.symm) ▸ hm
  have hmr := (hs.together hr ht (by omega) (by omega) hmt).2 htog
  exact ha.2 row hr hlt hmr

theorem CounterInvariant.finish {s : CounterState} (h : CounterInvariant settings s)
    {uid counterId : ℕ} {midnight : Option ℕ}
    (hs : Scoped settings s.rows uid counterId midnight)
    (hp : Pending s.rows counterId midnight []) :
    ∃ row, selectOwn s.rows uid = some row ∧
      Held settings s.clock s.rows uid (.returned row.counter) := by
  obtain ⟨row, hr, hsel, hid, hu⟩ := selectOwn_of_owned h.table hs.owned
  have hm : row.meets midnight = true := by
    obtain ⟨own, ho, hid', hu', hscope⟩ := hs
    have heq := h.table.uids row hr own ho uid hu hu'
    exact (hscope row hr (Nat.le_of_eq hid)).2 (heq ▸ .refl row)
  have hne : row.counter ≠ 0 := by
    intro hc
    cases hp.complete row hr (Nat.le_of_eq hid) hm hc
  exact ⟨row, hsel, Nat.pos_of_ne_zero hne, row, hr, hu, rfl⟩

theorem CounterInvariant.advance {s : CounterState} (h : CounterInvariant settings s)
    {uid : ℕ} (hday : MidnightOnDay settings s (.advance uid)) {phase : Phase}
    {rows : List CounterRow}
    (hstep : ticketNumberCounterAdd settings s.clock s.rows uid (s.phase uid) =
      some (phase, rows)) :
    CounterInvariant settings (s.move uid phase rows) := by
  have hheld := h.held uid
  have hoff := h.offset uid
  cases hp : s.phase uid with
  | start =>
    rw [hp] at hstep hheld
    simp only [ticketNumberCounterAdd] at hstep
    split at hstep
    · cases hstep
      exact h.move (.refl uid s.rows) h.table (by simp only [Held]; omega) (.inr (.inl rfl))
    · cases hstep
      exact h.move (.refl uid s.rows) h.table ⟨hheld, Nat.le_refl _⟩ (.inr (.inr (by omega)))
  | refused => rw [hp] at hstep; cases hstep
  | stamped createTime => rw [hp] at hstep; cases hstep
  | returned counter => rw [hp] at hstep; cases hstep
  | vanished => rw [hp] at hstep; cases hstep
  | inserted =>
    rw [hp] at hstep hheld hoff
    obtain ⟨counterId, ho⟩ := hheld
    obtain ⟨row, hr, hsel, hid, hu⟩ := selectOwn_of_owned h.table ho
    simp only [ticketNumberCounterAdd, hsel] at hstep
    cases hstep
    exact h.move (.refl uid s.rows) h.table ⟨row, hr, rfl, hu⟩ (.inr (.inr (by simpa using hoff)))
  | located counterId =>
    rw [hp] at hstep hheld hoff
    cases hstep
    exact h.move (.refl uid s.rows) h.table
      (scoped_dateParams h.table hheld (hday (by rw [hp]))) (.inr (.inr (by simpa using hoff)))
  | bounded counterId midnight =>
    rw [hp] at hstep hheld hoff
    cases hstep
    exact h.move (.refl uid s.rows) h.table ⟨hheld, pending_selectUnset h.table⟩
      (.inr (.inr (by simpa using hoff)))
  | filling counterId midnight unsetIds setOffsetDone =>
    rw [hp] at hstep hheld hoff
    have hoff' : 1 ≤ settings.offset uid := by simpa using hoff
    obtain ⟨hs, hpend⟩ := hheld
    cases unsetIds with
    | nil =>
      obtain ⟨row, hsel, hret⟩ := h.finish hs hpend
      simp only [ticketNumberCounterAdd, hsel] at hstep
      cases hstep
      exact h.move (.refl uid s.rows) h.table hret (.inr (.inr hoff'))
    | cons unsetId unsetIds =>
      cases hstep
      exact h.move (.refl uid s.rows) h.table
        ⟨hs, hpend, above_newCounter h.table hoff' hs hpend⟩ (.inr (.inr hoff'))
  | loaded counterId midnight unsetId unsetIds counter =>
    rw [hp] at hstep hheld hoff
    cases hstep
    exact h.fill (by simpa using hoff) hheld.1 hheld.2.1 hheld.2.2

theorem CounterInvariant.next {s t : CounterState} {a : CounterAction}
    (h : CounterInvariant settings s) (hday : MidnightOnDay settings s a)
    (hstep : s.next settings a = some t) : CounterInvariant settings t := by
  cases a with
  | wait duration =>
    cases hstep
    exact
      { table := h.table.wait
        held := fun uid ↦ (Grows.refl (uid + 1) s.rows).held (Nat.ne_of_lt (Nat.lt_succ_self uid))
          (Nat.le_add_right _ _) (h.held uid)
        offset := h.offset }
  | insert uid id =>
    simp only [CounterState.next] at hstep
    split at hstep
    · next createTime hp =>
      split at hstep
      · next hfresh =>
        cases hstep
        exact h.insert hp hfresh
      · cases hstep
    · cases hstep
  | advance uid =>
    obtain ⟨⟨phase, rows⟩, hadd, rfl⟩ := Option.map_eq_some_iff.1 hstep
    exact h.advance hday hadd

theorem counterInvariant_reachable {s : CounterState}
    (h : ((counterMachine settings).restrict (MidnightOnDay settings)).Reachable s) :
    CounterInvariant settings s := by
  refine Machine.Reachable.invariant (I := CounterInvariant settings) ?_ ?_ h
  · intro s₀ h₀
    exact CounterStart.invariant h₀
  · intro s₁ a s₂ hi hs
    exact hi.next hs.1 hs.2

/-- What the calls are promised: no call fails on a row that is gone, only a call without an
offset is refused, every returned counter is positive and stands in the row of its call, and
of two calls whose rows belong together the later row has the greater counter. -/
structure CountersUnique (settings : CounterSettings) (s : CounterState) : Prop where
  present : ∀ uid, s.phase uid ≠ .vanished
  refused : ∀ uid, s.phase uid = .refused → settings.offset uid = 0
  positive : ∀ uid counter, s.phase uid = .returned counter → 1 ≤ counter
  stored : ∀ uid counter, s.phase uid = .returned counter →
    ∃ row ∈ s.rows, row.counterUid = some uid ∧ row.counter = counter
  increasing : ∀ uid uid' counter counter', s.phase uid = .returned counter →
    s.phase uid' = .returned counter' → ∀ row ∈ s.rows, ∀ row' ∈ s.rows,
    row.counterUid = some uid → row'.counterUid = some uid' → Together settings row row' →
    row.id < row'.id → counter < counter'
  distinct : ∀ uid uid' counter counter', uid ≠ uid' → s.phase uid = .returned counter →
    s.phase uid' = .returned counter' → ∀ row ∈ s.rows, ∀ row' ∈ s.rows,
    row.counterUid = some uid → row'.counterUid = some uid' → Together settings row row' →
    counter ≠ counter'

theorem CounterInvariant.returned {s : CounterState} (h : CounterInvariant settings s)
    {uid counter : ℕ} (hp : s.phase uid = .returned counter) {row : CounterRow}
    (hr : row ∈ s.rows) (hu : row.counterUid = some uid) : row.counter = counter := by
  have hheld := h.held uid
  rw [hp] at hheld
  obtain ⟨_, row', hr', hu', hc⟩ := hheld
  rw [h.table.uids row hr row' hr' uid hu hu', hc]

theorem CounterInvariant.increasing {s : CounterState} (h : CounterInvariant settings s)
    {uid uid' counter counter' : ℕ} (hp : s.phase uid = .returned counter)
    (hp' : s.phase uid' = .returned counter') {row row' : CounterRow} (hr : row ∈ s.rows)
    (hr' : row' ∈ s.rows) (hu : row.counterUid = some uid) (hu' : row'.counterUid = some uid')
    (htog : Together settings row row') (hlt : row.id < row'.id) : counter < counter' := by
  have hheld := h.held uid'
  rw [hp'] at hheld
  have hc' := h.returned hp' hr' hu'
  rw [← h.returned hp hr hu, ← hc']
  exact (h.table.chained row hr row' hr' hlt htog (by have := hheld.1; omega)).2

/-- The steps of one call. -/
def CounterAction.By (uid : ℕ) : CounterAction → Prop
  | .wait _ => False
  | .insert uid' _ => uid' = uid
  | .advance uid' => uid' = uid

/-- A call left alone comes to its counter. -/
def Returns (settings : CounterSettings) (s : CounterState) (uid : ℕ) : Prop :=
  ∃ as t counter, ((counterMachine settings).restrict (MidnightOnDay settings)).Run s as t ∧
    (∀ a ∈ as, a.By uid) ∧ t.phase uid = .returned counter

/-- The day of a call's row is not over before the call has computed its midnight. -/
def OnTime (settings : CounterSettings) (s : CounterState) (uid : ℕ) : Prop :=
  settings.isDateBased = true →
    (∀ createTime, s.phase uid = .stamped createTime →
      createTime / secondsPerDay = today s.clock) ∧
    (s.phase uid = .inserted ∨ (∃ counterId, s.phase uid = .located counterId) →
      ∀ row ∈ s.rows, row.counterUid = some uid → row.day = today s.clock)

theorem Returns.of_next {s t : CounterState} {a : CounterAction} {uid : ℕ}
    (hday : MidnightOnDay settings s a) (hstep : s.next settings a = some t) (hby : a.By uid)
    (h : Returns settings t uid) : Returns settings s uid := by
  obtain ⟨as, u, counter, hrun, hall, hp⟩ := h
  refine ⟨a :: as, u, counter, .cons ⟨hday, hstep⟩ hrun, fun b hb ↦ ?_, hp⟩
  rcases List.mem_cons.1 hb with rfl | hb
  · exact hby
  · exact hall b hb

theorem Returns.of_advance {s : CounterState} {uid : ℕ} {phase : Phase} {rows : List CounterRow}
    (hday : MidnightOnDay settings s (.advance uid))
    (hstep : ticketNumberCounterAdd settings s.clock s.rows uid (s.phase uid) =
      some (phase, rows))
    (h : Returns settings (s.move uid phase rows) uid) : Returns settings s uid := by
  have hnext : s.next settings (.advance uid) = some (s.move uid phase rows) := by
    rw [CounterState.next, hstep, Option.map_some]
  exact .of_next hday hnext rfl h

theorem midnightOnDay_of_phase (settings : CounterSettings) {s : CounterState} {uid : ℕ}
    {phase : Phase} (h : (phase matches .located _) = false) (hp : s.phase uid = phase) :
    MidnightOnDay settings s (.advance uid) := by
  intro hl
  rw [hp] at hl
  cases phase with
  | located counterId => cases h
  | _ => cases hl

@[simp] theorem CounterState.move_phase (s : CounterState) (uid : ℕ) (phase : Phase)
    (rows : List CounterRow) : (s.move uid phase rows).phase uid = phase :=
  Function.update_self ..

theorem Returns.of_filling {uid counterId : ℕ} {midnight : Option ℕ} {unsetIds : List ℕ}
    {setOffsetDone : Bool} {s : CounterState} (h : CounterInvariant settings s)
    (hp : s.phase uid = .filling counterId midnight unsetIds setOffsetDone) :
    Returns settings s uid := by
  induction unsetIds generalizing s setOffsetDone with
  | nil =>
    have hheld := h.held uid
    rw [hp] at hheld
    obtain ⟨row, hsel, _⟩ := h.finish hheld.1 hheld.2
    have hstep : ticketNumberCounterAdd settings s.clock s.rows uid (s.phase uid) =
        some (.returned row.counter, s.rows) := by
      simp only [hp, ticketNumberCounterAdd, hsel]
    exact .of_advance (midnightOnDay_of_phase settings rfl hp) hstep
      ⟨[], _, row.counter, .nil _, (fun _ ha ↦ nomatch ha), CounterState.move_phase ..⟩
  | cons unsetId unsetIds ih =>
    have hday := midnightOnDay_of_phase settings rfl hp
    have h' := h.advance hday (by rw [hp]; rfl)
    have hp' := CounterState.move_phase s uid (.loaded counterId midnight unsetId unsetIds
      (newCounter settings uid (previousCounter s.rows unsetId midnight) setOffsetDone)) s.rows
    have hday' := midnightOnDay_of_phase settings rfl hp'
    refine .of_advance hday (by rw [hp]; rfl) (.of_advance hday' (by rw [hp']; rfl) ?_)
    exact ih (h'.advance hday' (by rw [hp']; rfl)) (CounterState.move_phase ..)

theorem Returns.of_bounded {uid counterId : ℕ} {midnight : Option ℕ} {s : CounterState}
    (h : CounterInvariant settings s) (hp : s.phase uid = .bounded counterId midnight) :
    Returns settings s uid := by
  have hday := midnightOnDay_of_phase settings rfl hp
  exact .of_advance hday (by rw [hp]; rfl)
    (.of_filling (h.advance hday (by rw [hp]; rfl)) (CounterState.move_phase ..))

theorem Returns.of_located {uid counterId : ℕ} {s : CounterState}
    (h : CounterInvariant settings s) (hp : s.phase uid = .located counterId)
    (hon : OnTime settings s uid) : Returns settings s uid := by
  have hday : MidnightOnDay settings s (.advance uid) :=
    fun _ hb ↦ (hon hb).2 (.inr ⟨counterId, hp⟩)
  exact .of_advance hday (by rw [hp]; rfl)
    (.of_bounded (h.advance hday (by rw [hp]; rfl)) (CounterState.move_phase ..))

theorem Returns.of_inserted {uid : ℕ} {s : CounterState} (h : CounterInvariant settings s)
    (hp : s.phase uid = .inserted) (hon : OnTime settings s uid) : Returns settings s uid := by
  have hday := midnightOnDay_of_phase settings rfl hp
  have hheld := h.held uid
  rw [hp] at hheld
  obtain ⟨counterId, ho⟩ := hheld
  obtain ⟨row, _, hsel, _⟩ := selectOwn_of_owned h.table ho
  have hstep : ticketNumberCounterAdd settings s.clock s.rows uid (s.phase uid) =
      some (.located row.id, s.rows) := by
    simp only [hp, ticketNumberCounterAdd, hsel]
  refine .of_advance hday hstep (.of_located (h.advance hday hstep) (CounterState.move_phase ..) fun hb ↦ ?_)
  exact ⟨fun createTime hc ↦ by simp at hc, fun _ ↦ (hon hb).2 (.inl hp)⟩

theorem exists_fresh (rows : List CounterRow) : ∃ id, ∀ row ∈ rows, row.id < id := by
  induction rows with
  | nil => exact ⟨0, fun _ hr ↦ nomatch hr⟩
  | cons row rows ih =>
    obtain ⟨id, hid⟩ := ih
    refine ⟨max id (row.id + 1), fun r hr ↦ ?_⟩
    rcases List.mem_cons.1 hr with rfl | hr
    · omega
    · have := hid r hr
      omega

theorem Returns.of_stamped {uid createTime : ℕ} {s : CounterState}
    (h : CounterInvariant settings s) (hp : s.phase uid = .stamped createTime)
    (hon : OnTime settings s uid) : Returns settings s uid := by
  obtain ⟨id, hfresh⟩ := exists_fresh s.rows
  have hheld := h.held uid
  rw [hp] at hheld
  have hstep : s.next settings (.insert uid id) =
      some (s.move uid .inserted (s.rows ++ [⟨id, 0, some uid, createTime⟩])) := by
    simp only [CounterState.next, hp]
    rw [if_pos hfresh]
  have hday : MidnightOnDay settings s (.insert uid id) := trivial
  refine .of_next hday hstep rfl
    (.of_inserted (h.insert hp hfresh) (CounterState.move_phase ..) fun hb ↦ ?_)
  refine ⟨fun createTime hc ↦ by simp at hc, fun _ row hr hu ↦ ?_⟩
  rcases List.mem_append.1 hr with hr | hr
  · exact absurd hu (hheld.1 row hr)
  · rw [List.mem_singleton.1 hr]
    exact (hon hb).1 createTime hp

theorem CounterInvariant.returns {s : CounterState} (h : CounterInvariant settings s) {uid : ℕ}
    (hoff : 1 ≤ settings.offset uid) (hon : OnTime settings s uid) : Returns settings s uid := by
  have hheld := h.held uid
  cases hp : s.phase uid with
  | start =>
    have hday := midnightOnDay_of_phase settings rfl hp
    have hstep : ticketNumberCounterAdd settings s.clock s.rows uid (s.phase uid) =
        some (.stamped (nowNaive s.clock), s.rows) := by
      simp only [hp, ticketNumberCounterAdd, if_neg (Nat.not_lt.2 hoff)]
    refine .of_advance hday hstep (.of_stamped (h.advance hday hstep) (CounterState.move_phase ..) fun _ ↦ ?_)
    refine ⟨fun createTime hc ↦ ?_, fun hc ↦ by simp at hc⟩
    cases (CounterState.move_phase ..).symm.trans hc
    rfl
  | refused =>
    rw [hp] at hheld
    have : settings.offset uid = 0 := hheld
    omega
  | vanished =>
    rw [hp] at hheld
    exact hheld.elim
  | stamped createTime => exact .of_stamped h hp hon
  | inserted => exact .of_inserted h hp hon
  | located counterId => exact .of_located h hp hon
  | bounded counterId midnight => exact .of_bounded h hp
  | filling counterId midnight unsetIds setOffsetDone => exact .of_filling h hp
  | loaded counterId midnight unsetId unsetIds counter =>
    have hday := midnightOnDay_of_phase settings rfl hp
    exact .of_advance hday (by rw [hp]; rfl)
      (.of_filling (h.advance hday (by rw [hp]; rfl)) (CounterState.move_phase ..))
  | returned counter =>
    exact ⟨[], s, counter, .nil s, (fun _ ha ↦ nomatch ha), hp⟩

theorem counters_unique (settings : CounterSettings) (s : CounterState)
    (h : ((counterMachine settings).restrict (MidnightOnDay settings)).Reachable s) :
    CountersUnique settings s ∧
      ∀ uid, 1 ≤ settings.offset uid → OnTime settings s uid → Returns settings s uid := by
  have hinv := counterInvariant_reachable h
  have hret : ∀ uid counter, s.phase uid = .returned counter →
      Held settings s.clock s.rows uid (.returned counter) := by
    intro uid counter hp
    have hheld := hinv.held uid
    rwa [hp] at hheld
  refine ⟨⟨fun uid hp ↦ ?_, fun uid hp ↦ ?_, fun uid counter hp ↦ (hret uid counter hp).1,
    fun uid counter hp ↦ (hret uid counter hp).2, ?_, ?_⟩, fun _ ↦ hinv.returns⟩
  · have hheld := hinv.held uid
    rw [hp] at hheld
    exact hheld
  · have hheld := hinv.held uid
    rw [hp] at hheld
    exact hheld
  · intro uid uid' counter counter' hp hp' row hr row' hr' hu hu' htog hlt
    exact hinv.increasing hp hp' hr hr' hu hu' htog hlt
  · intro uid uid' counter counter' hne hp hp' row hr row' hr' hu hu' htog
    rcases Nat.lt_trichotomy row.id row'.id with hlt | heq | hlt
    · exact Nat.ne_of_lt (hinv.increasing hp hp' hr hr' hu hu' htog hlt)
    · have := hinv.table.eq_of_id hr hr' heq
      rw [this, hu'] at hu
      exact absurd (Option.some.inj hu).symm hne
    · exact Nat.ne_of_gt (hinv.increasing hp' hp hr' hr hu' hu htog.symm hlt)

/-- One second before the local midnight of the second day, and no row yet. -/
def emptyCounters : CounterState where
  clock := 86399 * 1000000
  rows := []
  phase _ := .start

theorem emptyCounters_start (settings : CounterSettings) :
    CounterStart settings emptyCounters where
  phase _ := rfl
  ordered := List.Pairwise.nil
  unowned _ hr := nomatch hr
  past _ hr := nomatch hr
  chained _ hr := nomatch hr

def dailySettings : CounterSettings where
  isDateBased := true
  offset uid := uid + 1

/-- Two calls that overlap: the second helps the first, and fills its own row. -/
def overlapping : List CounterAction :=
  [.advance 0, .advance 1, .insert 0 1, .insert 1 2, .advance 0, .advance 1, .advance 0,
    .advance 1, .advance 0, .advance 1, .advance 1, .advance 0, .advance 1, .advance 0, .advance 1,
    .advance 1, .advance 0, .advance 1]

theorem counters_unique_sample : ∃ s : CounterState,
    CountersUnique dailySettings s ∧ s.phase 0 = .returned 2 ∧ s.phase 1 = .returned 3 := by
  have hrun : ((overlapping.foldlM (fun s a ↦ if MidnightOnDay dailySettings s a then
      s.next dailySettings a else none) emptyCounters).map fun s ↦ (s.phase 0, s.phase 1)) =
      some (.returned 2, .returned 3) := by decide
  obtain ⟨s, hs, hp⟩ := Option.map_eq_some_iff.1 hrun
  have hreach : ((counterMachine dailySettings).restrict (MidnightOnDay dailySettings)).Reachable s :=
    ⟨emptyCounters, overlapping, emptyCounters_start _, Machine.run_of_foldlM _ hs⟩
  exact ⟨s, (counters_unique dailySettings s hreach).1, congrArg Prod.fst hp, congrArg Prod.snd hp⟩

/-- Two calls that insert before midnight and compute their midnight after it. -/
def pastMidnight : List CounterAction :=
  [.advance 0, .advance 1, .insert 0 1, .insert 1 2, .advance 0, .advance 1, .wait 1000000,
    .advance 0, .advance 1, .advance 0, .advance 1, .advance 0, .advance 1]

theorem counters_collide : ∃ s : CounterState, (counterMachine dailySettings).Reachable s ∧
    s.phase 0 = .returned 0 ∧ s.phase 1 = .returned 0 ∧ ¬CountersUnique dailySettings s := by
  have hrun : ((pastMidnight.foldlM (fun s a ↦ if True then s.next dailySettings a else none)
      emptyCounters).map fun s ↦ (s.phase 0, s.phase 1)) =
      some (.returned 0, .returned 0) := by decide
  obtain ⟨s, hs, hp⟩ := Option.map_eq_some_iff.1 hrun
  have hrun' : (counterMachine dailySettings).Run emptyCounters pastMidnight s :=
    (Machine.run_of_foldlM (C := fun _ _ ↦ True) _ hs).of_restrict
  refine ⟨s, ⟨emptyCounters, pastMidnight, emptyCounters_start _, hrun'⟩, congrArg Prod.fst hp,
    congrArg Prod.snd hp, fun h ↦ ?_⟩
  exact absurd (h.positive 0 0 (congrArg Prod.fst hp)) (by decide)

end Tiqora.Znuny
