import Tiqora.Ai.OutboxDrained

namespace Tiqora.Ai.AutoWorker

open Foundation

variable {driverFor : List Char → Bool} {isolation : Isolation} {s t : State} {gate : Gate}
  {bound : Option ℕ} {work : Work} {ticketId articleId : ℕ} {left : List (ℕ × ℕ)}

/-- The parked article that a tick has taken off its row and not yet dealt with. -/
def Tick.current : Tick → Option (ℕ × ℕ)
  | .cleared _ _ _ ticketId articleId => some (ticketId, articleId)
  | _ => none

/-- No row of the ticket will hold an article again. -/
def State.Settled (s : State) (ticketId : ℕ) : Prop :=
  s.triageRows.find ticketId = some ⟨false, none⟩

/-- The rest of the selected articles are still on their rows, the others have come to an end. -/
structure Replying (s : State) (current : Option (ℕ × ℕ)) (left : List (ℕ × ℕ)) : Prop where
  apart : ((current.toList ++ left).map (·.1)).Nodup
  waits : ∀ r ∈ left, s.triageRows.find r.1 = some ⟨false, some r.2⟩
  settled : ∀ r, current = some r → s.Settled r.1 ∧ ∀ o ∈ s.outcomes, o.1.1 ≠ r.1
  ended : ∀ r ∈ s.selected, r ∈ left ∨ current = some r ∨ ∃ outcome, (r, outcome) ∈ s.outcomes

/-- A tick that is about to park an article has seen an open row with at most an older one. -/
structure Parking (s : State) (ticketId articleId : ℕ) : Prop where
  row : ∃ row, s.triageRows.find ticketId = some row ∧ ∀ d, row.deferred = some d → d < articleId
  new : ∀ o ∈ s.outcomes, o.1.1 ≠ ticketId

def Tick.Holds (s : State) : Tick → Prop
  | .working _ _ (.replies left) => Replying s none left
  | .deferring _ _ (.replies left) ticketId _ => Replying s none left ∧ s.Settled ticketId
  | .parking _ _ (.batch _ _ _) ticketId articleId => Parking s ticketId articleId
  | .parking _ _ (.replies _) _ _ => False
  | .cleared _ _ left ticketId articleId => Replying s (some (ticketId, articleId)) left
  | .idle | .started _ _ | .bounding _ _ _ | .working _ _ (.batch _ _ _)
  | .deferring _ _ (.batch _ _ _) _ _ | .selecting _ _ => True

/-- Where a parked article is, or what became of it. -/
def State.Accounts (s : State) (r : ℕ × ℕ) : Prop :=
  (∃ isOpen, s.triageRows.find r.1 = some ⟨isOpen, some r.2⟩) ∨
    (∃ newer, r.2 < newer ∧ (r.1, newer) ∈ s.parked) ∨
      (∃ outcome, (r, outcome) ∈ s.outcomes) ∨ s.tick.current = some r

structure Replied (s : State) : Prop where
  once : (s.outcomes.map (·.1.1)).Nodup
  settled : ∀ o ∈ s.outcomes, s.Settled o.1.1
  parked : ∀ r ∈ s.parked, s.Accounts r
  taken : ∀ r ∈ s.taken, ∃ outcome, (r, outcome) ∈ s.outcomes
  tick : s.tick.Holds s

/-- A pause takes no parked article off its row. -/
def State.Undisturbed (s : State) : Action → Prop
  | .pauseTicket ticketId => ticketId ∉ s.aiPaused →
    ∀ row ∈ s.triageRows.find ticketId, row.deferred = none
  | _ => True

instance (s : State) (a : Action) : Decidable (s.Undisturbed a) :=
  match a with
  | .pauseTicket ticketId => inferInstanceAs (Decidable (ticketId ∉ s.aiPaused →
    ∀ row ∈ s.triageRows.find ticketId, row.deferred = none))
  | .insert .. | .commit _ | .rollback _ | .setGate _ | .triageTick _ | .openTriage _ | .decide _
  | .unpauseTicket _ | .pauseCustomers _ | .startTick | .readBatch | .readTriage | .select _
  | .step .. => .isTrue trivial

/-- Triage rows appear and are decided; the tick's own part is left alone. -/
structure Beside (s t : State) : Prop where
  parked : t.parked = s.parked
  outcomes : t.outcomes = s.outcomes
  selected : t.selected = s.selected
  taken : t.taken = s.taken
  tick : t.tick = s.tick
  rows : ∀ ticketId row, s.triageRows.find ticketId = some row →
    ∃ row', t.triageRows.find ticketId = some row' ∧ row'.deferred = row.deferred ∧
      (row.isOpen = false → row'.isOpen = false)

theorem Beside.decided (h : Beside s t) {deferred : Option ℕ}
    (hrow : s.triageRows.find ticketId = some ⟨false, deferred⟩) :
    t.triageRows.find ticketId = some ⟨false, deferred⟩ := by
  obtain ⟨⟨isOpen, deferred'⟩, hfind, hdeferred, hopen⟩ := h.rows ticketId _ hrow
  have hopen : isOpen = false := hopen rfl
  have hdeferred : deferred' = deferred := hdeferred
  rw [hfind, hopen, hdeferred]

theorem Replying.beside {current : Option (ℕ × ℕ)} (h : Replying s current left)
    (hb : Beside s t) : Replying t current left where
  apart := h.apart
  waits r hr := hb.decided (h.waits r hr)
  settled r hr := by
    rw [hb.outcomes]
    exact ⟨hb.decided (h.settled r hr).1, (h.settled r hr).2⟩
  ended r hr := by
    rw [hb.selected] at hr
    rw [hb.outcomes]
    exact h.ended r hr

theorem Parking.beside (h : Parking s ticketId articleId) (hb : Beside s t) :
    Parking t ticketId articleId where
  row := by
    obtain ⟨row, hrow, hdeferred⟩ := h.row
    obtain ⟨row', hrow', heq, -⟩ := hb.rows ticketId row hrow
    exact ⟨row', hrow', heq ▸ hdeferred⟩
  new := hb.outcomes ▸ h.new

theorem Replied.beside (h : Replied s) (hb : Beside s t) : Replied t where
  once := hb.outcomes ▸ h.once
  settled o ho := by
    rw [hb.outcomes] at ho
    exact hb.decided (h.settled o ho)
  parked r hr := by
    rw [hb.parked] at hr
    rcases h.parked r hr with ⟨isOpen, hrow⟩ | hnewer | hended | hcurrent
    · obtain ⟨⟨isOpen', deferred⟩, hfind, hdeferred, -⟩ := hb.rows _ _ hrow
      have hdeferred : deferred = some r.2 := hdeferred
      exact .inl ⟨isOpen', hdeferred ▸ hfind⟩
    · rw [← hb.parked] at hnewer
      exact .inr (.inl hnewer)
    · rw [← hb.outcomes] at hended
      exact .inr (.inr (.inl hended))
    · rw [← hb.tick] at hcurrent
      exact .inr (.inr (.inr hcurrent))
  taken r hr := by
    rw [hb.taken] at hr
    rw [hb.outcomes]
    exact h.taken r hr
  tick := by
    have hold := h.tick
    rw [hb.tick]
    cases htick : s.tick with
    | working gate bound work =>
      rw [htick] at hold
      cases work with
      | batch => exact trivial
      | replies left => exact Replying.beside hold hb
    | deferring gate bound work ticketId articleId =>
      rw [htick] at hold
      cases work with
      | batch => exact trivial
      | replies left => exact ⟨hold.1.beside hb, hb.decided hold.2⟩
    | parking gate bound work ticketId articleId =>
      rw [htick] at hold
      cases work with
      | batch => exact Parking.beside hold hb
      | replies left => exact hold
    | cleared gate bound left ticketId articleId =>
      rw [htick] at hold
      exact Replying.beside hold hb
    | idle | started | bounding | selecting => exact trivial

/-- The tick goes on and no parked article is concerned. -/
theorem Replied.moves (h : Replied s) (hrows : t.triageRows = s.triageRows)
    (hparked : t.parked = s.parked) (houtcomes : t.outcomes = s.outcomes)
    (htaken : t.taken = s.taken) (hcurrent : s.tick.current = none) (htick : t.tick.Holds t) :
    Replied t where
  once := houtcomes ▸ h.once
  settled o ho := by
    rw [houtcomes] at ho
    rw [State.Settled, hrows]
    exact h.settled o ho
  parked r hr := by
    rw [hparked] at hr
    rw [State.Accounts, hrows, hparked, houtcomes]
    rcases h.parked r hr with hrow | hnewer | hended | hthis
    · exact .inl hrow
    · exact .inr (.inl hnewer)
    · exact .inr (.inr (.inl hended))
    · rw [hcurrent] at hthis
      cases hthis
  taken r hr := by
    rw [htaken] at hr
    rw [houtcomes]
    exact h.taken r hr
  tick := htick

theorem mem_waiting {r : ℕ × ℕ} (h : r ∈ s.waiting) :
    s.triageRows.find r.1 = some ⟨false, some r.2⟩ := by
  obtain ⟨⟨ticketId, ⟨isOpen, deferred⟩⟩, hmem, hr⟩ := List.mem_filterMap.1 h
  cases isOpen with
  | true => cases hr
  | false =>
    obtain ⟨articleId, hdeferred, rfl⟩ := Option.map_eq_some_iff.1 hr
    have hdeferred : deferred = some articleId := hdeferred
    exact Table.find_eq_some.2 (hdeferred ▸ hmem)

/-- `_defer_for_open_triage` comes to its write only for an article of the batch. -/
theorem Replied.defer (h : Replied s) (htick : s.tick = .deferring gate bound work ticketId articleId) :
    Replied { s with tick := s.defer gate bound work ticketId articleId } := by
  refine h.moves rfl rfl rfl rfl (by rw [htick]; rfl) ?_
  have hold := h.tick
  rw [htick] at hold
  have hwork : (Tick.working gate bound work).Holds
      { s with tick := s.defer gate bound work ticketId articleId } := by
    cases work with
    | batch => exact trivial
    | replies left => exact ⟨hold.1.apart, hold.1.waits, hold.1.settled, hold.1.ended⟩
  change (s.defer gate bound work ticketId articleId).Holds _
  generalize hnext : s.defer gate bound work ticketId articleId = next at hwork ⊢
  unfold State.defer at hnext
  split at hnext
  · rw [← hnext] at hwork ⊢
    exact hwork
  · split at hnext
    · rename_i deferred hfind
      split at hnext
      · rename_i hall
        cases work with
        | replies left =>
          have hsettled : s.triageRows.find ticketId = some ⟨false, none⟩ := hold.2
          rw [hsettled] at hfind
          cases hfind
        | batch watermark last rows =>
          rw [← hnext]
          refine ⟨⟨_, hfind, fun d hd ↦ ?_⟩, fun o ho heq ↦ ?_⟩
          · have hd : deferred = some d := hd
            rw [hd] at hall
            exact of_decide_eq_true hall
          · have hsettled : s.triageRows.find o.1.1 = some ⟨false, none⟩ := h.settled o ho
            rw [heq, hfind] at hsettled
            cases hsettled
      · rw [← hnext] at hwork ⊢
        exact hwork
    · rw [← hnext] at hwork ⊢
      exact hwork

theorem Replied.park (h : Replied s)
    (htick : s.tick = .parking gate bound work ticketId articleId) :
    Replied (s.park gate bound work ticketId articleId) := by
  have hold := h.tick
  rw [htick] at hold
  cases work with
  | replies => exact hold.elim
  | batch watermark last rows =>
    obtain ⟨⟨row, hrow, hless⟩, hnew⟩ := hold
    unfold State.park
    rw [hrow]
    refine ⟨h.once, fun o ho ↦ ?_, fun r hr ↦ ?_, h.taken, trivial⟩
    · have hsettled := h.settled o ho
      change (s.triageRows.set ticketId _).find o.1.1 = _
      rw [Table.find_set_of_ne (hnew o ho)]
      exact hsettled
    · change (∃ isOpen, (s.triageRows.set ticketId _).find r.1 = _) ∨ _
      rcases List.mem_append.1 hr with hr | hr
      · by_cases hticket : r.1 = ticketId
        · rcases h.parked r hr with ⟨isOpen, hfind⟩ | ⟨newer, hlt, hmem⟩ | ⟨outcome, hmem⟩ | hthis
          · rw [hticket, hrow] at hfind
            have hdeferred : row.deferred = some r.2 := by rw [Option.some.inj hfind]
            refine .inr (.inl ⟨articleId, hless _ hdeferred, List.mem_append_right _ ?_⟩)
            rw [hticket]
            exact List.mem_singleton_self _
          · exact .inr (.inl ⟨newer, hlt, List.mem_append_left _ hmem⟩)
          · exact absurd hticket (hnew _ hmem)
          · rw [htick] at hthis
            cases hthis
        · rw [Table.find_set_of_ne hticket]
          rcases h.parked r hr with hfind | ⟨newer, hlt, hmem⟩ | hended | hthis
          · exact .inl hfind
          · exact .inr (.inl ⟨newer, hlt, List.mem_append_left _ hmem⟩)
          · exact .inr (.inr (.inl hended))
          · rw [htick] at hthis
            cases hthis
      · rw [List.mem_singleton.1 hr]
        exact .inl ⟨row.isOpen, Table.find_set_self⟩

theorem Replied.takeOff (h : Replied s)
    (htick : s.tick = .working gate bound (.replies ((ticketId, articleId) :: left))) :
    Replied (s.takeOff gate bound ticketId articleId left) := by
  have hold : Replying s none ((ticketId, articleId) :: left) := by
    have hold := h.tick
    rw [htick] at hold
    exact hold
  have hrow := hold.waits _ List.mem_cons_self
  have hne : ∀ o ∈ s.outcomes, o.1.1 ≠ ticketId := by
    intro o ho heq
    have hsettled : s.triageRows.find o.1.1 = some ⟨false, none⟩ := h.settled o ho
    rw [heq, hrow] at hsettled
    cases hsettled
  obtain ⟨hhead, -⟩ := List.nodup_cons.1 hold.apart
  have hleft : ∀ r ∈ left, r.1 ≠ ticketId := fun r hr heq ↦
    hhead (List.mem_map.2 ⟨r, hr, heq⟩)
  unfold State.takeOff
  rw [hrow]
  refine ⟨h.once, fun o ho ↦ ?_, fun r hr ↦ ?_, h.taken, ?_⟩
  · have hsettled := h.settled o ho
    change (s.triageRows.set ticketId _).find o.1.1 = _
    rw [Table.find_set_of_ne (hne o ho)]
    exact hsettled
  · change (∃ isOpen, (s.triageRows.set ticketId _).find r.1 = _) ∨ _
    rcases h.parked r hr with ⟨isOpen, hfind⟩ | hnewer | hended | hthis
    · by_cases hticket : r.1 = ticketId
      · rw [hticket, hrow] at hfind
        have harticle : articleId = r.2 := by
          cases hfind
          rfl
        refine .inr (.inr (.inr ?_))
        change some (ticketId, articleId) = some r
        rw [← hticket, harticle]
      · rw [Table.find_set_of_ne hticket]
        exact .inl ⟨isOpen, hfind⟩
    · exact .inr (.inl hnewer)
    · exact .inr (.inr (.inl hended))
    · rw [htick] at hthis
      cases hthis
  · refine ⟨hold.apart, fun r hr ↦ ?_, fun r hr ↦ ?_, fun r hr ↦ ?_⟩
    · change (s.triageRows.set ticketId _).find r.1 = _
      rw [Table.find_set_of_ne (hleft r hr)]
      exact hold.waits r (List.mem_cons_of_mem _ hr)
    · rw [← Option.some.inj hr]
      exact ⟨Table.find_set_self, hne⟩
    · rcases hold.ended r hr with hmem | hthis | hended
      · rcases List.mem_cons.1 hmem with rfl | hmem
        · exact .inr (.inl rfl)
        · exact .inl hmem
      · cases hthis
      · exact .inr (.inr hended)

theorem Replied.replay (h : Replied s) (htick : s.tick = .cleared gate bound left ticketId articleId)
    (checks answered : Bool) :
    Replied (s.replay gate bound left ticketId articleId checks answered) := by
  have hold : Replying s (some (ticketId, articleId)) left := by
    have hold := h.tick
    rw [htick] at hold
    exact hold
  obtain ⟨hsettled, hnew⟩ := hold.settled _ rfl
  obtain ⟨-, hapart⟩ := List.nodup_cons.1 hold.apart
  unfold State.replay
  generalize (if !gate.isOpen then Outcome.gateClosed
    else if answered then .answered else .replayed) = outcome
  have hended : ∀ r, (∃ o, (r, o) ∈ s.outcomes) ∨ r = (ticketId, articleId) →
      ∃ o, (r, o) ∈ s.outcomes ++ [((ticketId, articleId), outcome)] := by
    rintro r (⟨o, ho⟩ | rfl)
    · exact ⟨o, List.mem_append_left _ ho⟩
    · exact ⟨outcome, List.mem_append_right _ (List.mem_singleton_self _)⟩
  refine ⟨?_, fun o ho ↦ ?_, fun r hr ↦ ?_, fun r hr ↦ hended r (.inl (h.taken r hr)), ?_⟩
  · change ((s.outcomes ++ _).map _).Nodup
    rw [List.map_append, List.nodup_append]
    refine ⟨h.once, List.nodup_singleton _, ?_⟩
    intro id hid id' hid' heq
    obtain ⟨o, ho, rfl⟩ := List.mem_map.1 hid
    rw [List.map_singleton, List.mem_singleton] at hid'
    exact hnew o ho (heq.trans hid')
  · rcases List.mem_append.1 ho with ho | ho
    · exact h.settled o ho
    · rw [List.mem_singleton.1 ho]
      exact hsettled
  · rcases h.parked r hr with hfind | hnewer | hpast | hthis
    · exact .inl hfind
    · exact .inr (.inl hnewer)
    · exact .inr (.inr (.inl (hended r (.inl hpast))))
    · rw [htick] at hthis
      exact .inr (.inr (.inl (hended r (.inr (Option.some.inj hthis).symm))))
  · have hreplying : ∀ u : State, u.triageRows = s.triageRows → u.selected = s.selected →
        u.outcomes = s.outcomes ++ [((ticketId, articleId), outcome)] → Replying u none left := by
      intro u hrows hselected houtcomes
      refine ⟨hapart, fun r hr ↦ ?_, fun r hr ↦ (by cases hr), fun r hr ↦ ?_⟩
      · rw [hrows]
        exact hold.waits r hr
      · rw [hselected] at hr
        rw [houtcomes]
        rcases hold.ended r hr with hmem | hthis | hpast
        · exact .inl hmem
        · exact .inr (.inr (hended r (.inr (Option.some.inj hthis).symm)))
        · exact .inr (.inr (hended r (.inl hpast)))
    change Tick.Holds _ (if outcome = .replayed ∧ checks then _ else _)
    split
    · exact ⟨hreplying _ rfl rfl rfl, hsettled⟩
    · exact hreplying _ rfl rfl rfl

theorem Replied.finish (h : Replied s) (htick : s.tick = .working gate bound (.replies [])) :
    Replied { s with tick := .idle, selected := [], taken := s.taken ++ s.selected } := by
  have hold : Replying s none [] := by
    have hold := h.tick
    rw [htick] at hold
    exact hold
  refine ⟨h.once, h.settled, fun r hr ↦ ?_, fun r hr ↦ ?_, trivial⟩
  · rcases h.parked r hr with hfind | hnewer | hended | hthis
    · exact .inl hfind
    · exact .inr (.inl hnewer)
    · exact .inr (.inr (.inl hended))
    · rw [htick] at hthis
      cases hthis
  · rcases List.mem_append.1 hr with hr | hr
    · exact h.taken r hr
    · rcases hold.ended r hr with hmem | hthis | hended
      · cases hmem
      · cases hthis
      · exact hended

theorem Replied.step (h : Replied s) {checks answered : Bool}
    (hs : s.step driverFor checks answered = some t) : Replied t := by
  unfold State.step at hs
  split at hs
  · cases hs
  · cases hs
  · cases hs
  · cases hs
  · rename_i gate bound watermark last row left htick
    cases hs
    have hcurrent : s.tick.current = none := by
      rw [htick]
      rfl
    unfold State.event
    dsimp only
    split
    · refine h.moves rfl rfl rfl rfl hcurrent ?_
      dsimp only
      split
      · split <;> exact trivial
      · exact trivial
    · exact h.moves rfl rfl rfl rfl hcurrent trivial
  · rename_i htick
    cases hs
    exact h.moves rfl rfl rfl rfl (by rw [htick]; rfl) trivial
  · rename_i htick
    cases hs
    exact h.defer htick
  · rename_i htick
    cases hs
    exact h.park htick
  · rename_i htick
    cases hs
    exact h.takeOff htick
  · rename_i htick
    cases hs
    exact h.replay htick checks answered
  · rename_i htick
    cases hs
    exact h.finish htick

theorem beside_setRow {row row' : TriageRow} (hrow : s.triageRows.find ticketId = some row)
    (hdeferred : row'.deferred = row.deferred) (hopen : row.isOpen = false → row'.isOpen = false) :
    Beside s (s.setRow ticketId row') := by
  refine ⟨rfl, rfl, rfl, rfl, rfl, fun ticketId' row'' hrow'' ↦ ?_⟩
  change ∃ row₁, (s.triageRows.set ticketId _).find ticketId' = _ ∧ _
  by_cases heq : ticketId' = ticketId
  · subst heq
    rw [hrow] at hrow''
    cases hrow''
    exact ⟨row', Table.find_set_self, hdeferred, hopen⟩
  · rw [Table.find_set_of_ne heq]
    exact ⟨row'', hrow'', rfl, id⟩

theorem beside_of_eq (hparked : t.parked = s.parked) (houtcomes : t.outcomes = s.outcomes)
    (hselected : t.selected = s.selected) (htaken : t.taken = s.taken) (htick : t.tick = s.tick)
    (hrows : t.triageRows = s.triageRows) : Beside s t :=
  ⟨hparked, houtcomes, hselected, htaken, htick, fun _ row h ↦ ⟨row, hrows ▸ h, rfl, id⟩⟩

theorem Replied.next (h : Replied s) {a : Action} (hC : s.Undisturbed a)
    (hn : s.next driverFor isolation a = some t) : Replied t := by
  cases a with
  | insert | commit | rollback | setGate | unpauseTicket | pauseCustomers =>
    cases hn
    exact h.beside (beside_of_eq rfl rfl rfl rfl rfl rfl)
  | triageTick watermark =>
    simp only [State.next] at hn
    split at hn
    · cases hn
      exact h.beside (beside_of_eq rfl rfl rfl rfl rfl rfl)
    · cases hn
  | openTriage ticketId =>
    simp only [State.next] at hn
    split at hn
    · rename_i hnone
      cases hn
      refine h.beside ⟨rfl, rfl, rfl, rfl, rfl, fun ticketId' row hrow ↦ ?_⟩
      have hne : ticketId' ≠ ticketId := by
        rintro rfl
        rw [hrow] at hnone
        cases hnone
      refine ⟨row, ?_, rfl, id⟩
      change (s.triageRows.set ticketId _).find ticketId' = _
      rw [Table.find_set_of_ne hne, hrow]
    · cases hn
  | decide ticketId =>
    obtain ⟨row, hrow, rfl⟩ := Option.map_eq_some_iff.1 hn
    exact h.beside (beside_setRow hrow rfl fun _ ↦ rfl)
  | pauseTicket ticketId =>
    simp only [State.next] at hn
    split at hn
    · cases hn
      exact h
    · rename_i hpaused
      have hb : Beside s { s with aiPaused := ticketId :: s.aiPaused } :=
        beside_of_eq rfl rfl rfl rfl rfl rfl
      split at hn
      · rename_i row hrow
        cases hn
        exact (h.beside hb).beside (beside_setRow hrow (hC hpaused row hrow).symm id)
      · cases hn
        exact h.beside hb
  | startTick =>
    simp only [State.next] at hn
    split at hn
    · rename_i htick
      cases hn
      exact h.moves rfl rfl rfl rfl (by rw [htick]; rfl) trivial
    · cases hn
  | readBatch =>
    simp only [State.next] at hn
    split at hn
    · rename_i htick
      cases hn
      exact h.moves rfl rfl rfl rfl (by rw [htick]; rfl) trivial
    · cases hn
  | readTriage =>
    simp only [State.next] at hn
    split at hn
    · rename_i htick
      cases hn
      exact h.moves rfl rfl rfl rfl (by rw [htick]; rfl) trivial
    · cases hn
  | select selected =>
    simp only [State.next] at hn
    split at hn
    · rename_i htick
      split at hn
      · rename_i hselected
        cases hn
        refine h.moves rfl rfl rfl rfl (by rw [htick]; rfl) ?_
        have hall : ∀ r ∈ selected, r ∈ s.waiting := by simpa using hselected.2.1
        exact ⟨hselected.1, fun r hr ↦ mem_waiting (hall r hr), fun r hr ↦ (by cases hr),
          fun r hr ↦ .inl hr⟩
      · cases hn
    · cases hn
  | step checks answered => exact h.step hn

/-- The outbox becomes visible in order, and no pause takes a parked article away. -/
def Regular (driverFor : List Char → Bool) (isolation : Isolation) (s : State) (a : Action) : Prop :=
  s.outbox.InOrder driverFor isolation a ∧ s.Undisturbed a

instance (driverFor : List Char → Bool) (isolation : Isolation) (s : State) (a : Action) :
    Decidable (Regular driverFor isolation s a) := inferInstanceAs (Decidable (_ ∧ _))

theorem Initial.drained (h : Initial s) : Drained driverFor s.outbox := by
  obtain ⟨hids, hallocated, hfirst, htriage, hshut, htick, hhanded, -, -, -, -, hpassed⟩ := h
  have hstage : s.outbox.stage = .away := by
    rw [State.outbox, htick]
    rfl
  have hreached : s.outbox.reached = s.watermark := by
    rw [Outbox.reached, hstage]
    rfl
  have hnone : s.outbox.handed = [] := hhanded
  refine {
    ids := hids
    allocated := hallocated
    first := hfirst.le
    triage := htriage
    shut := hshut
    once := ?_
    behind := ?_
    bound := ?_
    covered := ?_
    passed := ?_
    stage := ?_ }
  · rw [hnone]
    exact .nil
  · rw [hnone]
    exact fun _ h ↦ by cases h
  · rw [hnone]
    exact fun _ h ↦ by cases h
  · intro row hrow hle
    have hlt : s.first < row.id := hrow.first
    rw [hreached] at hle
    omega
  · have hpassed : s.outbox.passed = [] := hpassed
    rw [hpassed]
    exact fun _ h ↦ by cases h
  · rw [hstage]
    exact trivial

theorem Initial.replied (h : Initial s) : Replied s := by
  obtain ⟨-, -, -, -, -, htick, -, hparked, houtcomes, -, htaken, -⟩ := h
  refine ⟨?_, ?_, ?_, ?_, ?_⟩
  · rw [houtcomes]
    exact .nil
  · rw [houtcomes]
    exact fun _ h ↦ by cases h
  · rw [hparked]
    exact fun _ h ↦ by cases h
  · rw [htaken]
    exact fun _ h ↦ by cases h
  · rw [htick]
    exact trivial

theorem reachable_kept
    (h : ((autoWorker driverFor isolation).restrict (Regular driverFor isolation)).Reachable s) :
    Drained driverFor s.outbox ∧ Replied s := by
  refine h.invariant (I := fun s ↦ Drained driverFor s.outbox ∧ Replied s) (fun s hs ↦ ?_)
    (fun s a t hs hstep ↦ ?_)
  · exact ⟨Initial.drained hs, Initial.replied hs⟩
  · exact ⟨hs.1.next hstep.1.1 hstep.2, hs.2.next hstep.1.2 hstep.2⟩

/-- Every customer article that becomes visible in order is looked at exactly once, after triage,
and a parked one is replayed at most once and comes to an end in the tick that selects it. -/
theorem articles_answered
    (h : ((autoWorker driverFor isolation).restrict (Regular driverFor isolation)).Reachable s) :
    ((s.handed.map (·.id)).Nodup ∧
      (∀ row ∈ s.rows, row.eventType = .articleCreate → skipChannel row.channel = false →
        s.first < row.id → row.id ∉ s.shut → row.id ≤ s.watermark →
          row.id ∈ s.handed.map (·.id)) ∧
      (∀ handing ∈ s.handed, ∃ triage, handing.bound = some triage ∧ handing.id ≤ triage) ∧
      ∀ id ∈ s.passed, id ≤ s.watermark) ∧
    (s.outcomes.map (·.1)).Nodup ∧
      (∀ r ∈ s.parked, s.Accounts r) ∧
        ∀ r ∈ s.taken, ∃ outcome, (r, outcome) ∈ s.outcomes := by
  obtain ⟨hd, hr⟩ := reachable_kept h
  refine ⟨⟨hd.once, ?_, hd.bound, hd.passed⟩, ?_, hr.parked, hr.taken⟩
  · intro row hrow htype hchannel hfirst hshut hle
    exact hd.covered row ⟨⟨htype, hchannel, hfirst, hshut⟩, hrow⟩ (hle.trans hd.watermark_le)
  · have honce : ((s.outcomes.map (·.1)).map (·.1)).Nodup := by
      rw [List.map_map]
      exact hr.once
    exact honce.of_map

section Sample

/-- An empty outbox with an open gate. -/
def quiet : State where
  rows := []
  pending := []
  allocated := 0
  gate := ⟨true, false⟩
  watermark := 0
  triage := some 0
  triageRows := .empty
  aiPaused := []
  customerPaused := []
  tick := .idle
  first := 0
  shut := []
  handed := []
  parked := []
  outcomes := []
  selected := []
  taken := []
  lowest := none
  passed := []

theorem quiet_initial : Initial quiet := by
  simp [Initial, quiet]

def noDriver (_ : List Char) : Bool := false

/-- A tick that drains the outbox and replays what is parked. -/
def tick (events : ℕ) (selected : List (ℕ × ℕ)) : List Action :=
  [.startTick, .readBatch, .readTriage] ++ List.replicate (events + 1) (.step true false) ++
    [.select selected]

/-- An article is parked on an open triage row and replayed by the tick after the decision. -/
def parkedThenReplayed : List Action :=
  [.insert 1 .articleCreate 7 (some 11) none, .commit 1, .openTriage 7, .triageTick 1] ++
    tick 3 [] ++ [.step true false, .decide 7] ++ tick 0 [(7, 11)] ++
      List.replicate 4 (.step true false)

/-- The row with the lower id is committed after the tick has gone past it. -/
def lateCommit : List Action :=
  [.insert 1 .articleCreate 7 (some 11) none, .insert 2 .articleCreate 8 (some 12) none, .commit 2,
    .triageTick 2] ++ tick 2 [] ++ [.step true false, .commit 1]

theorem articles_answered_sample : ∃ s : State, s.handed = [⟨1, some 1⟩] ∧
    s.outcomes = [((7, 11), .replayed)] ∧ s.taken = [(7, 11)] ∧
      (s.handed.map (·.id)).Nodup ∧ (s.outcomes.map (·.1)).Nodup := by
  have hrun : (parkedThenReplayed.foldlM (fun s a ↦ if Regular noDriver .readCommitted s a then
      s.next noDriver .readCommitted a else none) quiet).map
        (fun s ↦ (s.handed, s.outcomes, s.taken)) =
          some ([⟨1, some 1⟩], [((7, 11), .replayed)], [(7, 11)]) := by
    decide +kernel
  obtain ⟨s, hs, hvalues⟩ := Machine.exists_reachable _ quiet_initial hrun
  obtain ⟨hhanded, hvalues⟩ := Prod.mk.inj hvalues
  obtain ⟨houtcomes, htaken⟩ := Prod.mk.inj hvalues
  obtain ⟨⟨honce, -⟩, houtcome, -⟩ := articles_answered hs
  exact ⟨s, hhanded, houtcomes, htaken, honce, houtcome⟩

/-- The article of the late row is never looked at, although the gate was open all the time. -/
theorem article_missed : ∃ s, (autoWorker noDriver .readCommitted).Reachable s ∧
    s.rows = [⟨2, .articleCreate, 8, some 12, none⟩, ⟨1, .articleCreate, 7, some 11, none⟩] ∧
      s.first = 0 ∧ s.watermark = 2 ∧ s.shut = [] ∧ s.handed = [⟨2, some 2⟩] := by
  have hrun : (lateCommit.foldlM (State.next noDriver .readCommitted) quiet).map
      (fun s ↦ (s.rows, s.first, s.watermark, s.shut, s.handed)) =
        some ([⟨2, .articleCreate, 8, some 12, none⟩, ⟨1, .articleCreate, 7, some 11, none⟩],
          0, 2, [], [⟨2, some 2⟩]) := by
    decide +kernel
  obtain ⟨s, hs, hvalues⟩ := Machine.exists_reachable_of_foldlM _ quiet_initial hrun
  simp only [Prod.mk.injEq] at hvalues
  exact ⟨s, hs, hvalues⟩

end Sample

end Tiqora.Ai.AutoWorker
