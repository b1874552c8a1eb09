import Tiqora.Reporting.Backfill

namespace Tiqora.Reporting.Backfill

open Foundation

/-- The tickets of the range that the run saw at its begin have been rebuilt, as far as they are
still there. -/
def State.Covered (s : State) (low high : ℤ) : Prop :=
  ∀ id ∈ s.begun, low < id → id ≤ high → id ∈ s.ids → id ∈ s.rebuilt

/-- No ticket of the range that the run saw at its begin is left. -/
def State.Cleared (s : State) (low high : ℤ) : Prop :=
  ∀ id ∈ s.begun, low < id → id ≤ high → id ∉ s.ids

/-- The run of the state row is the call's own. -/
def State.Owner (s : State) (call : Call) : Prop :=
  s.row.token = some call.run.token ∧ s.row.status = .running

/-- The cursor after a chunk. -/
def Call.after (call : Call) (ids : List ℤ) : ℤ := ids.getLast?.getD call.cursor

/-- What a call has seen and done, as long as the run is its own. -/
def Phase.Holds (s : State) (call : Call) : Phase → Prop
  | .selecting | .over _ => True
  | .listed ids => call.cursor ≤ call.after ids ∧
    ∀ id ∈ s.begun, call.cursor < id → id ≤ call.after ids → id ∈ s.ids → id ∈ ids
  | .rebuilt ids => call.cursor ≤ call.after ids ∧ s.Covered call.cursor (call.after ids)
  | .counting | .planning _ | .snapshots _ _ | .snapped _ _ =>
    s.Cleared call.cursor call.run.target

/-- No day is computed before the plan; then the computed days and those that are left are the days
of the run. -/
def Phase.Planned (call : Call) : Phase → Prop
  | .snapshots _ days | .snapped _ days => ∀ yesterday, call.yesterday = some yesterday →
    (∀ since, call.run.since = some since → call.firstDay = some since) ∧
      ∀ first, call.firstDay = some first → daysBetween first yesterday = call.computed ++ days
  | .over _ => True
  | .selecting | .listed _ | .rebuilt _ | .counting | .planning _ =>
    call.computed = [] ∧ call.yesterday = none

/-- The state row as the owner of its run knows it. -/
structure Call.Owns (s : State) (call : Call) : Prop where
  start : s.row.start = some call.run.start
  cursor : s.row.cursor = some call.cursor
  target : s.row.target = some call.run.target
  since : s.row.since = call.run.since
  phase : call.phase.Holds s call

structure Kept (s : State) : Prop where
  owned : ∀ id call, s.calls id = some call → s.Owner call → call.Owns s
  planned : ∀ id call, s.calls id = some call → call.phase.Planned call
  used : ∀ id call, s.calls id = some call → call.run.token ∈ s.tokens
  token : ∀ token, s.row.token = some token → token ∈ s.tokens
  apart : ∀ id id' call call', s.calls id = some call → s.calls id' = some call' →
    call.run.token = call'.run.token → id = id'
  covered : ∀ start cursor, s.row.start = some start → s.row.cursor = some cursor →
    s.Covered start cursor
  complete : s.row.status = .done → ∀ start target, s.row.start = some start →
    s.row.target = some target → s.Covered start target
  visible : ∀ id ∈ s.begun, id ∈ s.ids ∨ id ∈ s.deleted

variable {s t u : State} {zones : Zones} {id : ℕ} {call call' : Call} {row : StateRow}

theorem put_calls {id' : ℕ} (h : (s.put id call).calls id' = some call') :
    id' = id ∧ call' = call ∨ id' ≠ id ∧ s.calls id' = some call' := by
  have h : Function.update s.calls id (some call) id' = some call' := h
  by_cases heq : id' = id
  · subst heq
    rw [Function.update_self] at h
    exact .inl ⟨rfl, (Option.some.inj h).symm⟩
  · rw [Function.update_of_ne heq] at h
    exact .inr ⟨heq, h⟩

theorem put_self : (s.put id call).calls id = some call := Function.update_self ..

theorem put_of_ne {id' : ℕ} (h : id' ≠ id) : (s.put id call).calls id' = s.calls id' :=
  Function.update_of_ne h ..

/-- Within a run tickets go, and more of them are rebuilt. -/
structure Within (s t : State) : Prop where
  begun : t.begun = s.begun
  ids : ∀ id ∈ s.begun, id ∈ t.ids → id ∈ s.ids
  rebuilt : ∀ id ∈ s.rebuilt, id ∈ t.rebuilt

theorem State.Covered.within {low high : ℤ} (h : s.Covered low high) (hw : Within s t) :
    t.Covered low high := by
  intro id hid hlow hhigh hmem
  rw [hw.begun] at hid
  exact hw.rebuilt id (h id hid hlow hhigh (hw.ids id hid hmem))

theorem State.Cleared.within {low high : ℤ} (h : s.Cleared low high) (hw : Within s t) :
    t.Cleared low high := by
  intro id hid hlow hhigh hmem
  rw [hw.begun] at hid
  exact h id hid hlow hhigh (hw.ids id hid hmem)

theorem Phase.Holds.within {phase : Phase} (h : phase.Holds s call) (hw : Within s t) :
    phase.Holds t call := by
  cases phase with
  | listed ids =>
    refine ⟨h.1, fun id hid hlow hhigh hmem ↦ ?_⟩
    rw [hw.begun] at hid
    exact h.2 id hid hlow hhigh (hw.ids id hid hmem)
  | rebuilt ids => exact ⟨h.1, h.2.within hw⟩
  | counting => exact State.Cleared.within h hw
  | planning tickets => exact State.Cleared.within h hw
  | snapshots tickets days => exact State.Cleared.within h hw
  | snapped tickets days => exact State.Cleared.within h hw
  | _ => trivial

/-- A step that leaves the calls and the run of the row as they are, if it does not end it. -/
theorem Kept.within (h : Kept s) (hw : Within s t) (hcalls : t.calls = s.calls)
    (htokens : t.tokens = s.tokens) (htoken : t.row.token = s.row.token)
    (hstart : t.row.start = s.row.start) (hcursor : t.row.cursor = s.row.cursor)
    (htarget : t.row.target = s.row.target) (hsince : t.row.since = s.row.since)
    (hstatus : t.row.status = s.row.status ∨ t.row.status = .pending)
    (hvisible : ∀ id ∈ t.begun, id ∈ t.ids ∨ id ∈ t.deleted) : Kept t := by
  refine ⟨?_, ?_, ?_, ?_, ?_, ?_, ?_, hvisible⟩
  · intro id call hcall howner
    rw [hcalls] at hcall
    have hrunning : s.row.status = .running := by
      rcases hstatus with heq | heq
      · exact heq.symm.trans howner.2
      · rw [howner.2] at heq
        cases heq
    have howns := h.owned id call hcall ⟨htoken.symm.trans howner.1, hrunning⟩
    exact ⟨hstart.trans howns.start, hcursor.trans howns.cursor, htarget.trans howns.target,
      hsince.trans howns.since, howns.phase.within hw⟩
  · rw [hcalls]
    exact h.planned
  · rw [hcalls, htokens]
    exact h.used
  · rw [htoken, htokens]
    exact h.token
  · rw [hcalls]
    exact h.apart
  · intro start cursor hs hc
    exact (h.covered start cursor (hstart.symm.trans hs) (hcursor.symm.trans hc)).within hw
  · intro hdone start target hs ht
    have hwas : s.row.status = .done := by
      rcases hstatus with heq | heq
      · exact heq.symm.trans hdone
      · rw [hdone] at heq
        cases heq
    exact (h.complete hwas start target (hstart.symm.trans hs) (htarget.symm.trans ht)).within hw

/-- A call goes on and leaves the row alone. -/
theorem Kept.put (h : Kept s) (hcall : s.calls id = some call) (call' : Call)
    (hrun : call'.run = call.run)
    (howns : s.Owner call → call'.cursor = call.cursor ∧ call'.phase.Holds s call')
    (hplanned : call'.phase.Planned call') : Kept (s.put id call') := by
  have hw : Within s (s.put id call') := ⟨rfl, fun _ _ h ↦ h, fun _ h ↦ h⟩
  refine ⟨?_, ?_, ?_, h.token, ?_, h.covered, h.complete, h.visible⟩
  · intro id' call'' hcall' howner
    rcases put_calls hcall' with ⟨-, rfl⟩ | ⟨-, hold⟩
    · have howner : s.Owner call := ⟨hrun ▸ howner.1, howner.2⟩
      obtain ⟨hstart, hcursor, htarget, hsince, -⟩ := h.owned id call hcall howner
      obtain ⟨hsame, hholds⟩ := howns howner
      exact ⟨hrun ▸ hstart, hsame ▸ hcursor, hrun ▸ htarget, hrun ▸ hsince, hholds.within hw⟩
    · obtain ⟨hstart, hcursor, htarget, hsince, hholds⟩ := h.owned id' call'' hold howner
      exact ⟨hstart, hcursor, htarget, hsince, hholds.within hw⟩
  · intro id' call'' hcall'
    rcases put_calls hcall' with ⟨-, rfl⟩ | ⟨-, hold⟩
    · exact hplanned
    · exact h.planned id' call'' hold
  · intro id' call'' hcall'
    rcases put_calls hcall' with ⟨-, rfl⟩ | ⟨-, hold⟩
    · rw [hrun]
      exact h.used id call hcall
    · exact h.used id' call'' hold
  · intro id₁ id₂ call₁ call₂ hcall₁ hcall₂ heq
    rcases put_calls hcall₁ with ⟨rfl, rfl⟩ | ⟨-, hold₁⟩
    · rcases put_calls hcall₂ with ⟨rfl, rfl⟩ | ⟨-, hold₂⟩
      · rfl
      · exact h.apart _ id₂ call call₂ hcall hold₂ (hrun ▸ heq)
    · rcases put_calls hcall₂ with ⟨rfl, rfl⟩ | ⟨-, hold₂⟩
      · exact h.apart id₁ _ call₁ call hold₁ hcall (hrun ▸ heq)
      · exact h.apart id₁ id₂ call₁ call₂ hold₁ hold₂ heq

theorem mem_chunk {cursor target x : ℤ} (hx : x ∈ s.chunk cursor target) :
    x ∈ s.ids ∧ cursor < x ∧ x ≤ target := by
  have hmem := List.mem_of_mem_take hx
  rw [List.mem_insertionSort, List.mem_filter, decide_eq_true_iff] at hmem
  exact hmem

/-- A chunk has all tickets up to its last one. -/
theorem mem_chunk_of_le {cursor target x y : ℤ} (hlast : (s.chunk cursor target).getLast? = some y)
    (hmem : x ∈ s.ids) (hlow : cursor < x) (hle : x ≤ y) : x ∈ s.chunk cursor target := by
  have htarget : y ≤ target := (mem_chunk (List.mem_of_getLast? hlast)).2.2
  refine mem_take_of_le_getLast (f := id) (List.pairwise_insertionSort _ _)
    (fun _ _ _ _ heq ↦ heq) ?_ hlast hle
  rw [List.mem_insertionSort, List.mem_filter, decide_eq_true_iff]
  exact ⟨hmem, hlow, hle.trans htarget⟩

theorem cleared_of_chunk {cursor target : ℤ} (h : s.chunk cursor target = []) :
    s.Cleared cursor target := by
  intro x _ hlow hhigh hmem
  have hx : x ∈ (s.ids.filter fun id ↦ cursor < id ∧ id ≤ target).insertionSort (· ≤ ·) := by
    rw [List.mem_insertionSort, List.mem_filter, decide_eq_true_iff]
    exact ⟨hmem, hlow, hhigh⟩
  rcases List.take_eq_nil_iff.1 h with hzero | hnil
  · cases hzero
  · rw [hnil] at hx
    cases hx

theorem select_holds : (s.select call).Holds s { call with phase := s.select call } := by
  rw [State.select]
  split
  · next hlow =>
    dsimp only
    split
    · next hnil => exact cleared_of_chunk hnil
    · next hne =>
      obtain ⟨y, hlast⟩ := Option.isSome_iff_exists.1 (List.getLast?_isSome.2 hne)
      have hafter : ∀ phase, ({ call with phase } : Call).after
          (s.chunk call.cursor call.run.target) = y := by
        intro phase
        rw [Call.after, hlast]
        rfl
      refine ⟨?_, fun id _ hid hle hmem ↦ ?_⟩
      · rw [hafter]
        exact (mem_chunk (List.mem_of_getLast? hlast)).2.1.le
      · rw [hafter] at hle
        exact mem_chunk_of_le hlast hmem hid hle
  · next hge =>
    intro id _ hlow hhigh
    exact absurd (hlow.trans_le hhigh) hge

theorem select_planned (h : call'.computed = [] ∧ call'.yesterday = none) :
    (s.select call).Planned call' := by
  rw [State.select]
  split
  · dsimp only
    split
    · exact h
    · exact h
  · exact h

/-- A committed chunk counts as rebuilt, for every call. -/
theorem Kept.rebuild (h : Kept s) (hcall : s.calls id = some call) {ids : List ℤ}
    (hphase : call.phase = .listed ids) :
    Kept { s.put id { call with phase := .rebuilt ids } with
      facts := s.rebuild ids
      rebuilt := s.rebuilt ++ ids } := by
  set t : State := { s with facts := s.rebuild ids, rebuilt := s.rebuilt ++ ids } with ht
  have hw : Within s t := ⟨rfl, fun _ _ h ↦ h, fun _ h ↦ List.mem_append_left _ h⟩
  have hkept : Kept t := h.within hw rfl rfl rfl rfl rfl rfl rfl (.inl rfl) h.visible
  have hplanned := h.planned id call hcall
  rw [hphase] at hplanned
  refine hkept.put hcall { call with phase := .rebuilt ids } rfl (fun howner ↦ ⟨rfl, ?_⟩) hplanned
  obtain ⟨-, -, -, -, hholds⟩ := h.owned id call hcall howner
  rw [hphase] at hholds
  refine ⟨hholds.1, fun x hx hlow hhigh hmem ↦ ?_⟩
  exact List.mem_append_right _ (hholds.2 x hx hlow hhigh hmem)

theorem saveCursor_eq_some {run : Run} {cursor stamp : ℤ} {finish : Option (Option ℤ × String)}
    (h : s.row.saveCursor run cursor stamp finish = some row) :
    (s.row.token = some run.token ∧ s.row.status = .running) ∧
      row.token = s.row.token ∧ row.start = s.row.start ∧
        row.cursor = some (max cursor (s.row.cursor.getD 0)) ∧ row.target = s.row.target ∧
          row.since = s.row.since ∧
            row.status = (if finish = none then .running else .done) ∧
              row.lastSnapshotDate = (finish.bind (·.1)).or s.row.lastSnapshotDate := by
  rw [StateRow.saveCursor] at h
  split at h
  · cases h
  · next howner =>
    rw [not_or, not_not, not_not] at howner
    dsimp only at h
    split at h
    · cases h
      exact ⟨howner, rfl, rfl, rfl, rfl, rfl, howner.2, rfl⟩
    · cases h
      exact ⟨howner, rfl, rfl, rfl, rfl, rfl, rfl, rfl⟩
    · cases h
      exact ⟨howner, rfl, rfl, rfl, rfl, rfl, rfl, rfl⟩

theorem saveCursor_eq_none {run : Run} {cursor stamp : ℤ} {finish : Option (Option ℤ × String)}
    (h : ¬(s.row.token = some run.token ∧ s.row.status = .running)) :
    s.row.saveCursor run cursor stamp finish = none := by
  rw [StateRow.saveCursor, if_pos]
  by_contra hnot
  rw [not_or, not_not, not_not] at hnot
  exact h hnot

/-- Only the owner writes the state row. -/
theorem Kept.other (h : Kept s) (hcall : s.calls id = some call) (howner : s.Owner call)
    {id' : ℕ} (hne : id' ≠ id) (hcall' : s.calls id' = some call')
    (htoken : s.row.token = some call'.run.token) : False := by
  refine hne (h.apart id' id call' call hcall' hcall ?_)
  exact Option.some.inj (htoken.symm.trans howner.1)

theorem Kept.over (h : Kept s) (hcall : s.calls id = some call) (result : Option (ℕ × ℕ)) :
    Kept (s.put id { call with phase := .over result }) :=
  h.put hcall { call with phase := .over result } rfl (fun _ ↦ ⟨rfl, trivial⟩) trivial

/-- The row that the owner writes: the cursor moves on over tickets that are rebuilt. -/
theorem Kept.written (h : Kept s) (hcall : s.calls id = some call) {cursor : ℤ}
    {finish : Option (Option ℤ × String)} {next : Call}
    (hsave : s.row.saveCursor call.run cursor s.now finish = some row)
    (hrun : next.run = call.run) (hcovered : s.Covered call.cursor cursor)
    (hnext : finish = none → call.cursor ≤ cursor ∧ next.cursor = cursor ∧ next.phase.Holds s next)
    (hfinish : finish.isSome → cursor = call.run.target)
    (hplanned : next.phase.Planned next) : Kept { s.put id next with row } := by
  obtain ⟨howner, htoken, hstart, hcursor, htarget, hsince, hstatus, -⟩ := saveCursor_eq_some hsave
  have howns := h.owned id call hcall howner
  have hcovers : s.Covered call.run.start (max cursor call.cursor) := by
    intro x hx hlow hhigh hmem
    by_cases hle : x ≤ call.cursor
    · exact h.covered _ _ howns.start howns.cursor x hx hlow hle hmem
    · rw [not_le] at hle
      exact hcovered x hx hle ((le_max_iff.1 hhigh).resolve_right (not_le.2 hle)) hmem
  have hcursor : row.cursor = some (max cursor call.cursor) := by
    rw [hcursor, howns.cursor]
    rfl
  have hw : Within s { s.put id next with row } := ⟨rfl, fun _ _ h ↦ h, fun _ h ↦ h⟩
  refine ⟨?_, ?_, ?_, ?_, ?_, ?_, ?_, h.visible⟩
  · intro id' call' hcall' howner'
    rcases put_calls hcall' with ⟨-, rfl⟩ | ⟨hne, hold⟩
    · have hnone : finish = none := by
        by_contra hsome
        have hdone : row.status = .running := howner'.2
        rw [hstatus, if_neg hsome] at hdone
        cases hdone
      obtain ⟨hle, hsame, hholds⟩ := hnext hnone
      refine ⟨?_, ?_, ?_, ?_, hholds.within hw⟩
      · rw [hrun]
        exact hstart.trans howns.start
      · rw [hsame]
        exact hcursor.trans (congrArg some (max_eq_left hle))
      · rw [hrun]
        exact htarget.trans howns.target
      · rw [hrun]
        exact hsince.trans howns.since
    · exact (h.other hcall howner hne hold (htoken.symm.trans howner'.1)).elim
  · intro id' call' hcall'
    rcases put_calls hcall' with ⟨-, rfl⟩ | ⟨-, hold⟩
    · exact hplanned
    · exact h.planned id' call' hold
  · intro id' call' hcall'
    rcases put_calls hcall' with ⟨-, rfl⟩ | ⟨-, hold⟩
    · rw [hrun]
      exact h.used id call hcall
    · exact h.used id' call' hold
  · intro token htok
    exact h.token token (htoken.symm.trans htok)
  · intro id₁ id₂ call₁ call₂ hcall₁ hcall₂ heq
    rcases put_calls hcall₁ with ⟨rfl, rfl⟩ | ⟨-, hold₁⟩
    · rcases put_calls hcall₂ with ⟨rfl, rfl⟩ | ⟨-, hold₂⟩
      · rfl
      · exact h.apart _ id₂ call call₂ hcall hold₂ (hrun ▸ heq)
    · rcases put_calls hcall₂ with ⟨rfl, rfl⟩ | ⟨-, hold₂⟩
      · exact h.apart id₁ _ call₁ call hold₁ hcall (hrun ▸ heq)
      · exact h.apart id₁ id₂ call₁ call₂ hold₁ hold₂ heq
  · intro start cursor' hs hc
    have hs : row.start = some start := hs
    have hc : row.cursor = some cursor' := hc
    rw [hstart, howns.start] at hs
    rw [hcursor] at hc
    cases hs
    cases hc
    exact hcovers.within hw
  · intro hdone start target hs ht
    have hdone : row.status = .done := hdone
    have hs : row.start = some start := hs
    have ht : row.target = some target := ht
    rw [hstart, howns.start] at hs
    rw [htarget, howns.target] at ht
    cases hs
    cases ht
    have hsome : finish.isSome := by
      cases finish with
      | none =>
        rw [hstatus] at hdone
        cases hdone
      | some f => rfl
    intro x hx hlow hhigh hmem
    refine hcovers x hx hlow ?_ hmem
    rw [hfinish hsome]
    exact hhigh.trans (le_max_left ..)

theorem Kept.save (h : Kept s) (hcall : s.calls id = some call) {cursor : ℤ}
    {finish : Option (Option ℤ × String)} {next : Call} (hrun : next.run = call.run)
    (hcovered : s.Owner call → s.Covered call.cursor cursor)
    (hnext : s.Owner call → finish = none →
      call.cursor ≤ cursor ∧ next.cursor = cursor ∧ next.phase.Holds s next)
    (hfinish : finish.isSome → cursor = call.run.target)
    (hplanned : next.phase.Planned next) : Kept (s.save id call cursor finish next) := by
  rw [State.save]
  split
  · next row hsave =>
    have howner := (saveCursor_eq_some hsave).1
    exact h.written hcall hsave hrun (hcovered howner) (hnext howner) hfinish hplanned
  · exact h.over hcall none

theorem plan_run {tickets : ℕ} : (s.plan zones call tickets).run = call.run := by
  rw [State.plan]
  split <;> rfl

theorem plan_cursor {tickets : ℕ} : (s.plan zones call tickets).cursor = call.cursor := by
  rw [State.plan]
  split <;> rfl

theorem plan_holds {tickets : ℕ} (h : s.Cleared call.cursor call.run.target) :
    (s.plan zones call tickets).phase.Holds s (s.plan zones call tickets) := by
  rw [State.plan]
  split
  · exact h
  · exact h

theorem plan_planned {tickets : ℕ} (h : call.computed = [] ∧ call.yesterday = none) :
    (s.plan zones call tickets).phase.Planned (s.plan zones call tickets) := by
  rw [State.plan]
  split
  · intro yesterday hyesterday
    cases hyesterday
    refine ⟨fun since hsince ↦ ?_, fun first hfirst ↦ ?_⟩
    · dsimp only
      rw [hsince]
    · dsimp only at hfirst ⊢
      rw [hfirst, h.1, List.nil_append]
  · intro yesterday hyesterday
    rw [show call.yesterday = some yesterday from hyesterday] at h
    cases h.2

theorem Kept.advance (h : Kept s) (hcall : s.calls id = some call)
    (hadvance : s.advance zones id call = some t) : Kept t := by
  have hplanned := h.planned id call hcall
  have hholds : s.Owner call → call.phase.Holds s call := fun howner ↦
    (h.owned id call hcall howner).phase
  rw [State.advance] at hadvance
  split at hadvance
  · next hphase =>
    cases hadvance
    rw [hphase] at hplanned
    exact h.put hcall { call with phase := s.select call } rfl (fun _ ↦ ⟨rfl, select_holds⟩)
      (select_planned hplanned)
  · next ids hphase =>
    cases hadvance
    exact h.rebuild hcall hphase
  · next ids hphase =>
    cases hadvance
    rw [hphase] at hplanned hholds
    exact h.save hcall rfl (fun howner ↦ (hholds howner).2)
      (fun howner _ ↦ ⟨(hholds howner).1, rfl, trivial⟩) (fun hsome ↦ by cases hsome) hplanned
  · next hphase =>
    cases hadvance
    rw [hphase] at hplanned hholds
    exact h.put hcall { call with phase := .planning (s.ticketCount call.run) } rfl
      (fun howner ↦ ⟨rfl, hholds howner⟩) hplanned
  · next tickets hphase =>
    cases hadvance
    rw [hphase] at hplanned hholds
    exact h.put hcall (s.plan zones call tickets) plan_run
      (fun howner ↦ ⟨plan_cursor, plan_holds (hholds howner)⟩) (plan_planned hplanned)
  · next tickets day days hphase =>
    cases hadvance
    rw [hphase] at hplanned hholds
    refine h.put hcall _ rfl (fun howner ↦ ⟨rfl, hholds howner⟩) fun yesterday hyesterday ↦ ?_
    obtain ⟨hsince, hdays⟩ := hplanned yesterday hyesterday
    refine ⟨hsince, fun first hfirst ↦ ?_⟩
    rw [hdays first hfirst, List.append_assoc, List.take_append_drop]
  · next tickets days hphase =>
    cases hadvance
    rw [hphase] at hplanned hholds
    refine h.save hcall rfl (fun _ x _ hlow hhigh _ ↦ ?_)
      (fun howner _ ↦ ⟨le_rfl, rfl, hholds howner⟩) (fun hsome ↦ by cases hsome) hplanned
    exact absurd (hlow.trans_le hhigh) (lt_irrefl _)
  · next tickets hphase =>
    cases hadvance
    rw [hphase] at hholds
    refine h.save hcall rfl (fun howner x hx hlow hhigh hmem ↦ ?_) (fun _ hnone ↦ by cases hnone)
      (fun _ ↦ rfl) trivial
    exact absurd hmem (hholds howner x hx hlow hhigh)
  · cases hadvance

/-- A call begins with a fresh token and owns the run of the row. -/
theorem Kept.begin (h : Kept s) (row : StateRow) {token : ℕ} {payload : Payload}
    (hfresh : token ∉ s.tokens) {runs : ℕ} {begun rebuilt : List ℤ}
    (htoken : row.token = some token) (hrunning : row.status = .running)
    (hstart : row.start.isSome) (hcursor : row.cursor.isSome) (htarget : row.target.isSome)
    (hcovered : ∀ start cursor, row.start = some start → row.cursor = some cursor →
      State.Covered { s with begun, rebuilt } start cursor)
    (hvisible : ∀ id ∈ begun, id ∈ s.ids ∨ id ∈ s.deleted) :
    Kept { s.put id (s.callOf row payload token) with
      row
      tokens := token :: s.tokens
      runs
      begun
      rebuilt } := by
  have hother : ∀ {id' call'}, s.calls id' = some call' → call'.run.token ≠ token :=
    fun hold heq ↦ hfresh (heq ▸ h.used _ _ hold)
  have hsome : ∀ {o : Option ℤ}, o.isSome → o = some (o.getD 0) := by
    intro o ho
    obtain ⟨x, rfl⟩ := Option.isSome_iff_exists.1 ho
    rfl
  refine ⟨?_, ?_, ?_, ?_, ?_, hcovered, ?_, hvisible⟩
  · intro id' call' hcall' howner
    rcases put_calls hcall' with ⟨-, rfl⟩ | ⟨-, hold⟩
    · exact ⟨hsome hstart, hsome hcursor, hsome htarget, rfl, trivial⟩
    · exact absurd (Option.some.inj (howner.1.symm.trans htoken)) (hother hold)
  · intro id' call' hcall'
    rcases put_calls hcall' with ⟨-, rfl⟩ | ⟨-, hold⟩
    · exact ⟨rfl, rfl⟩
    · exact h.planned id' call' hold
  · intro id' call' hcall'
    rcases put_calls hcall' with ⟨-, rfl⟩ | ⟨-, hold⟩
    · exact List.mem_cons_self ..
    · exact List.mem_cons_of_mem _ (h.used id' call' hold)
  · intro token' htoken'
    rw [← Option.some.inj (htoken.symm.trans htoken')]
    exact List.mem_cons_self ..
  · intro id₁ id₂ call₁ call₂ hcall₁ hcall₂ heq
    rcases put_calls hcall₁ with ⟨rfl, rfl⟩ | ⟨-, hold₁⟩
    · rcases put_calls hcall₂ with ⟨rfl, rfl⟩ | ⟨-, hold₂⟩
      · rfl
      · exact absurd heq.symm (hother hold₂)
    · rcases put_calls hcall₂ with ⟨rfl, rfl⟩ | ⟨-, hold₂⟩
      · exact absurd heq (hother hold₁)
      · exact h.apart id₁ id₂ call₁ call₂ hold₁ hold₂ heq
  · intro hdone
    rw [show row.status = .done from hdone] at hrunning
    cases hrunning

theorem resumes_iff {payload : Payload} : s.row.resumes payload = true →
    s.row.status = .running ∧ s.row.cursor.isSome ∧ s.row.start.isSome ∧ s.row.target.isSome := by
  rw [StateRow.resumes]
  simp only [Bool.and_eq_true, decide_eq_true_eq]
  rintro ⟨⟨⟨⟨⟨-, hstatus⟩, hcursor⟩, hstart⟩, htarget⟩, -⟩
  exact ⟨hstatus, hcursor, hstart, htarget⟩

theorem Kept.start (h : Kept s) {token : ℕ} (payload : Payload)
    (hfresh : token ∉ s.tokens) : Kept (s.start zones id payload token) := by
  rw [State.start]
  split
  · next hresumes =>
    obtain ⟨hrunning, hcursor, hstart, htarget⟩ := resumes_iff hresumes
    exact h.begin (s.takenOver token) hfresh rfl hrunning hstart hcursor htarget
      h.covered h.visible
  · refine h.begin (s.newRun zones payload token) hfresh rfl rfl rfl rfl rfl ?_
      fun _ hmem ↦ .inl hmem
    intro start cursor hs hc x _ hlow hhigh
    rw [← Option.some.inj hs] at hlow
    rw [← Option.some.inj hc] at hhigh
    exact absurd (hlow.trans_le hhigh) (lt_irrefl _)

theorem next_kept (h : Kept s) {a : Action} (hnext : s.next zones a = some t) : Kept t := by
  have hsame : ∀ {t : State}, t.begun = s.begun → t.ids = s.ids → t.rebuilt = s.rebuilt →
      Within s t :=
    fun hbegun hids hrebuilt ↦ ⟨hbegun, fun _ _ h ↦ hids ▸ h, fun _ h ↦ hrebuilt ▸ h⟩
  cases a with
  | wait seconds =>
    cases hnext
    exact h.within (hsame rfl rfl rfl) rfl rfl rfl rfl rfl rfl rfl (.inl rfl) h.visible
  | setZone zone =>
    cases hnext
    exact h.within (hsame rfl rfl rfl) rfl rfl rfl rfl rfl rfl rfl (.inl rfl) h.visible
  | insertTicket id createTime =>
    rw [State.next] at hnext
    split at hnext
    · cases hnext
    · next hnew =>
      cases hnext
      rw [not_or] at hnew
      have hids : ∀ x, x ∈ s.ids ++ [id] ↔ x ∈ s.ids ∨ x = id := by
        intro x
        rw [List.mem_append, List.mem_singleton]
      have hmap : ∀ x, x ∈ (s.tickets ++ [(id, createTime)]).map (·.1) ↔ x ∈ s.ids ++ [id] := by
        intro x
        rw [List.map_append]
        rfl
      refine h.within ⟨rfl, fun x hx hmem ↦ ?_, fun _ hmem ↦ hmem⟩ rfl rfl rfl rfl rfl rfl rfl
        (.inl rfl) fun x hx ↦ ?_
      · rcases (hids x).1 ((hmap x).1 hmem) with hold | rfl
        · exact hold
        · rcases h.visible x hx with hold | hgone
          · exact hold
          · exact absurd hgone hnew.2
      · rcases h.visible x hx with hold | hgone
        · exact .inl ((hmap x).2 ((hids x).2 (.inl hold)))
        · exact .inr hgone
  | deleteTicket id =>
    cases hnext
    have hmem : ∀ x, x ∈ (s.tickets.filter fun r ↦ r.1 ≠ id).map (·.1) ↔ x ∈ s.ids ∧ x ≠ id := by
      intro x
      simp only [State.ids, List.mem_map, List.mem_filter, decide_eq_true_eq]
      constructor
      · rintro ⟨r, ⟨hr, hne⟩, rfl⟩
        exact ⟨⟨r, hr, rfl⟩, hne⟩
      · rintro ⟨⟨r, hr, rfl⟩, hne⟩
        exact ⟨r, ⟨hr, hne⟩, rfl⟩
    refine h.within ⟨rfl, fun x _ hx ↦ ((hmem x).1 hx).1, fun _ hx ↦ hx⟩ rfl rfl rfl rfl rfl rfl
      rfl (.inl rfl) fun x hx ↦ ?_
    by_cases heq : x = id
    · exact .inr (heq ▸ List.mem_cons_self ..)
    · rcases h.visible x hx with hold | hgone
      · exact .inl ((hmem x).2 ⟨hold, heq⟩)
      · exact .inr (List.mem_cons_of_mem _ hgone)
  | writeHistory id =>
    cases hnext
    exact h.within (hsame rfl rfl rfl) rfl rfl rfl rfl rfl rfl rfl (.inl rfl) h.visible
  | requestRebuild =>
    cases hnext
    exact h.within (hsame rfl rfl rfl) rfl rfl rfl rfl rfl rfl rfl (.inr rfl) h.visible
  | tickSnapshot day =>
    rw [State.next] at hnext
    split at hnext
    · cases hnext
      exact h.within (hsame rfl rfl rfl) rfl rfl rfl rfl rfl rfl rfl (.inl rfl) h.visible
    · cases hnext
  | start id payload token =>
    rw [State.next] at hnext
    split at hnext
    · next hfresh =>
      cases hnext
      exact h.start payload hfresh.2
    · cases hnext
  | advance id =>
    obtain ⟨call, hcall, hadvance⟩ := Option.bind_eq_some_iff.1 hnext
    exact h.advance hcall hadvance
  | cut id =>
    obtain ⟨call, hcall, rfl⟩ := Option.map_eq_some_iff.1 hnext
    exact h.over hcall none

theorem initial_kept (h : Initial s) : Kept s := by
  obtain ⟨hcalls, htoken, hbegun, -⟩ := h
  refine ⟨?_, ?_, ?_, htoken, ?_, ?_, ?_, ?_⟩ <;> simp [hcalls, hbegun, State.Covered]

theorem reachable_kept (hrun : (backfill zones).Reachable s) : Kept s := by
  refine hrun.invariant ?_ ?_
  · intro u hu
    exact initial_kept hu
  · intro u a v hu hst
    exact next_kept hu hst

/-- The token of the call was replaced, or its run is over. -/
def State.Lost (s : State) (call : Call) : Prop := ¬s.Owner call

/-- A call advances: the row stays, or the call owns it and saves a cursor. -/
theorem advance_row (hadvance : s.advance zones id call = some t) :
    t.row = s.row ∨ ∃ cursor finish, s.row.saveCursor call.run cursor s.now finish = some t.row ∧
      (finish.isSome → finish = some (call.yesterday, call.run.zone) ∧
        ∃ tickets, call.phase = .snapshots tickets []) := by
  have hsave : ∀ {cursor : ℤ} {finish : Option (Option ℤ × String)} {next : Call},
      s.save id call cursor finish next = t → t.row = s.row ∨
        s.row.saveCursor call.run cursor s.now finish = some t.row := by
    intro cursor finish next heq
    rw [State.save] at heq
    split at heq
    · next row hsaved =>
      rw [← heq]
      exact .inr hsaved
    · rw [← heq]
      exact .inl rfl
  rw [State.advance] at hadvance
  split at hadvance
  · cases hadvance
    exact .inl rfl
  · cases hadvance
    exact .inl rfl
  · rcases hsave (Option.some.inj hadvance) with heq | hsaved
    · exact .inl heq
    · exact .inr ⟨_, _, hsaved, fun hsome ↦ by cases hsome⟩
  · cases hadvance
    exact .inl rfl
  · cases hadvance
    exact .inl rfl
  · cases hadvance
    exact .inl rfl
  · rcases hsave (Option.some.inj hadvance) with heq | hsaved
    · exact .inl heq
    · exact .inr ⟨_, _, hsaved, fun hsome ↦ by cases hsome⟩
  · next tickets hphase =>
    rcases hsave (Option.some.inj hadvance) with heq | hsaved
    · exact .inl heq
    · exact .inr ⟨_, _, hsaved, fun _ ↦ ⟨rfl, tickets, hphase⟩⟩
  · cases hadvance

/-- A lost call changes nothing. -/
theorem advance_lost (hlost : s.Lost call) (hadvance : s.advance zones id call = some t) :
    t.row = s.row := by
  rcases advance_row hadvance with heq | ⟨cursor, finish, hsave, -⟩
  · exact heq
  · exact absurd (saveCursor_eq_some hsave).1 hlost

theorem advance_calls (hadvance : s.advance zones id call = some t) :
    (∃ next : Call, t.calls = (s.put id next).calls ∧ next.run = call.run) ∧ t.runs = s.runs := by
  have hsave : ∀ {cursor : ℤ} {finish : Option (Option ℤ × String)} {next : Call},
      s.save id call cursor finish next = t → next.run = call.run →
        (∃ next : Call, t.calls = (s.put id next).calls ∧ next.run = call.run) ∧
          t.runs = s.runs := by
    intro cursor finish next heq hrun
    rw [State.save] at heq
    split at heq
    · rw [← heq]
      exact ⟨⟨next, rfl, hrun⟩, rfl⟩
    · rw [← heq]
      exact ⟨⟨{ call with phase := .over none }, rfl, rfl⟩, rfl⟩
  rw [State.advance] at hadvance
  split at hadvance
  · cases hadvance
    exact ⟨⟨{ call with phase := s.select call }, rfl, rfl⟩, rfl⟩
  · next ids _ =>
    cases hadvance
    exact ⟨⟨{ call with phase := .rebuilt ids }, rfl, rfl⟩, rfl⟩
  · have heq := Option.some.inj hadvance
    exact hsave heq rfl
  · cases hadvance
    exact ⟨⟨{ call with phase := .planning (s.ticketCount call.run) }, rfl, rfl⟩, rfl⟩
  · next tickets _ =>
    cases hadvance
    exact ⟨⟨s.plan zones call tickets, rfl, plan_run⟩, rfl⟩
  · cases hadvance
    refine ⟨⟨_, rfl, ?_⟩, rfl⟩
    rfl
  · have heq := Option.some.inj hadvance
    exact hsave heq rfl
  · have heq := Option.some.inj hadvance
    exact hsave heq rfl
  · cases hadvance

theorem start_row {payload : Payload} {token : ℕ} :
    (s.start zones id payload token).row.token = some token := by
  rw [State.start]
  split <;> rfl

/-- The token of the row stays and a run that is over stays so, or the token is a fresh one. -/
theorem next_row {a : Action} (hnext : s.next zones a = some t) :
    (t.row.token = s.row.token ∧ (t.row.status = .running → s.row.status = .running)) ∨
      ∃ token, token ∉ s.tokens ∧ t.row.token = some token := by
  cases a with
  | wait seconds =>
    cases hnext
    exact .inl ⟨rfl, fun h ↦ h⟩
  | setZone zone =>
    cases hnext
    exact .inl ⟨rfl, fun h ↦ h⟩
  | insertTicket id createTime =>
    rw [State.next] at hnext
    split at hnext
    · cases hnext
    · cases hnext
      exact .inl ⟨rfl, fun h ↦ h⟩
  | deleteTicket id =>
    cases hnext
    exact .inl ⟨rfl, fun h ↦ h⟩
  | writeHistory id =>
    cases hnext
    exact .inl ⟨rfl, fun h ↦ h⟩
  | requestRebuild =>
    cases hnext
    exact .inl ⟨rfl, fun h ↦ by cases h⟩
  | tickSnapshot day =>
    rw [State.next] at hnext
    split at hnext
    · cases hnext
      exact .inl ⟨rfl, fun h ↦ h⟩
    · cases hnext
  | start id payload token =>
    rw [State.next] at hnext
    split at hnext
    · next hfresh =>
      cases hnext
      exact .inr ⟨token, hfresh.2, start_row⟩
    · cases hnext
  | advance id =>
    obtain ⟨call, -, hadvance⟩ := Option.bind_eq_some_iff.1 hnext
    rcases advance_row hadvance with heq | ⟨cursor, finish, hsave, -⟩
    · rw [heq]
      exact .inl ⟨rfl, fun h ↦ h⟩
    · obtain ⟨howner, htoken, -⟩ := saveCursor_eq_some hsave
      exact .inl ⟨htoken, fun _ ↦ howner.2⟩
  | cut id =>
    obtain ⟨call, -, rfl⟩ := Option.map_eq_some_iff.1 hnext
    exact .inl ⟨rfl, fun h ↦ h⟩

/-- A call stays with its run and its token. -/
theorem next_calls {a : Action} (hnext : s.next zones a = some t)
    (hcall : s.calls id = some call) : ∃ call', t.calls id = some call' ∧
      call'.run = call.run := by
  have hput : ∀ {id' : ℕ} {old new : Call}, s.calls id' = some old → new.run = old.run →
      ∃ call', (s.put id' new).calls id = some call' ∧ call'.run = call.run := by
    intro id' old new hold hrun
    by_cases heq : id = id'
    · subst heq
      rw [hcall] at hold
      cases hold
      exact ⟨new, put_self, hrun⟩
    · exact ⟨call, (put_of_ne heq).trans hcall, rfl⟩
  cases a with
  | wait seconds =>
    cases hnext
    exact ⟨call, hcall, rfl⟩
  | setZone zone =>
    cases hnext
    exact ⟨call, hcall, rfl⟩
  | insertTicket id createTime =>
    rw [State.next] at hnext
    split at hnext
    · cases hnext
    · cases hnext
      exact ⟨call, hcall, rfl⟩
  | deleteTicket id =>
    cases hnext
    exact ⟨call, hcall, rfl⟩
  | writeHistory id =>
    cases hnext
    exact ⟨call, hcall, rfl⟩
  | requestRebuild =>
    cases hnext
    exact ⟨call, hcall, rfl⟩
  | tickSnapshot day =>
    rw [State.next] at hnext
    split at hnext
    · cases hnext
      exact ⟨call, hcall, rfl⟩
    · cases hnext
  | start id' payload token =>
    rw [State.next] at hnext
    split at hnext
    · next hfresh =>
      have hne : id ≠ id' := by
        rintro rfl
        rw [hcall] at hfresh
        cases hfresh.1
      cases hnext
      rw [State.start]
      split
      · exact ⟨call, (put_of_ne hne).trans hcall, rfl⟩
      · exact ⟨call, (put_of_ne hne).trans hcall, rfl⟩
    · cases hnext
  | advance id' =>
    obtain ⟨old, hold, hadvance⟩ := Option.bind_eq_some_iff.1 hnext
    obtain ⟨⟨new, hcalls, hrun⟩, -⟩ := advance_calls hadvance
    rw [hcalls]
    exact hput hold hrun
  | cut id' =>
    obtain ⟨old, hold, rfl⟩ := Option.map_eq_some_iff.1 hnext
    exact hput hold rfl

/-- A lost call stays lost. -/
theorem run_lost {as : List Action} (hrun : (backfill zones).Run s as u) :
    Kept s → ∀ call, s.calls id = some call → s.Lost call →
      ∃ call', u.calls id = some call' ∧ u.Lost call' := by
  induction hrun with
  | nil => exact fun _ call hcall hlost ↦ ⟨call, hcall, hlost⟩
  | cons hstep _ ih =>
    intro hkept call hcall hlost
    obtain ⟨call', hcall', hsame⟩ := next_calls hstep hcall
    refine ih (next_kept hkept hstep) call' hcall' fun howner ↦ ?_
    rw [State.Owner, hsame] at howner
    rcases next_row hstep with ⟨htoken, hstatus⟩ | ⟨token, hfresh, htoken⟩
    · exact hlost ⟨htoken.symm.trans howner.1, hstatus howner.2⟩
    · rw [Option.some.inj (htoken.symm.trans howner.1)] at hfresh
      exact hfresh (hkept.used id call hcall)

/-- Within a run the cursor never decreases. -/
theorem next_cursor {a : Action} (hnext : s.next zones a = some t) (hruns : t.runs = s.runs)
    {cursor : ℤ} (hcursor : s.row.cursor = some cursor) :
    ∃ cursor', t.row.cursor = some cursor' ∧ cursor ≤ cursor' := by
  cases a with
  | wait seconds =>
    cases hnext
    exact ⟨cursor, hcursor, le_rfl⟩
  | setZone zone =>
    cases hnext
    exact ⟨cursor, hcursor, le_rfl⟩
  | insertTicket id createTime =>
    rw [State.next] at hnext
    split at hnext
    · cases hnext
    · cases hnext
      exact ⟨cursor, hcursor, le_rfl⟩
  | deleteTicket id =>
    cases hnext
    exact ⟨cursor, hcursor, le_rfl⟩
  | writeHistory id =>
    cases hnext
    exact ⟨cursor, hcursor, le_rfl⟩
  | requestRebuild =>
    cases hnext
    exact ⟨cursor, hcursor, le_rfl⟩
  | tickSnapshot day =>
    rw [State.next] at hnext
    split at hnext
    · cases hnext
      exact ⟨cursor, hcursor, le_rfl⟩
    · cases hnext
  | start id payload token =>
    rw [State.next] at hnext
    split at hnext
    · cases hnext
      rw [State.start] at hruns ⊢
      split at hruns
      · next hresumes =>
        rw [if_pos hresumes]
        exact ⟨cursor, hcursor, le_rfl⟩
      · exact absurd hruns (Nat.succ_ne_self _)
    · cases hnext
  | advance id =>
    obtain ⟨call, -, hadvance⟩ := Option.bind_eq_some_iff.1 hnext
    rcases advance_row hadvance with heq | ⟨cursor', finish, hsave, -⟩
    · rw [heq]
      exact ⟨cursor, hcursor, le_rfl⟩
    · obtain ⟨-, -, -, hsaved, -⟩ := saveCursor_eq_some hsave
      rw [hcursor] at hsaved
      exact ⟨_, hsaved, le_max_right ..⟩
  | cut id =>
    obtain ⟨call, -, rfl⟩ := Option.map_eq_some_iff.1 hnext
    exact ⟨cursor, hcursor, le_rfl⟩

theorem mem_daysBetween {first last day : ℤ} (hfirst : first ≤ day) (hlast : day ≤ last) :
    day ∈ daysBetween first last := by
  refine List.mem_map.2 ⟨(day - first).toNat, List.mem_range.2 ?_, ?_⟩ <;> omega

/-- The snapshot date that the call writes at the end of the run is its `yesterday`, and it has
computed all days of the run up to it. -/
structure Finishes (s t : State) (call : Call) : Prop where
  date : t.row.lastSnapshotDate = call.yesterday.or s.row.lastSnapshotDate
  since : call.yesterday.isSome → ∀ since, s.row.since = some since → call.firstDay = some since
  days : ∀ last, call.yesterday = some last → ∀ first, call.firstDay = some first →
    ∀ day, first ≤ day → day ≤ last → day ∈ call.computed

theorem advance_snapshot (h : Kept s) (hcall : s.calls id = some call)
    (hadvance : s.advance zones id call = some t) :
    t.row.lastSnapshotDate = s.row.lastSnapshotDate ∧ t.row.status = s.row.status ∨
      Finishes s t call := by
  rcases advance_row hadvance with heq | ⟨cursor, finish, hsave, hfinish⟩
  · rw [heq]
    exact .inl ⟨rfl, rfl⟩
  · obtain ⟨howner, -, -, -, -, -, hstatus, hdate⟩ := saveCursor_eq_some hsave
    cases finish with
    | none => exact .inl ⟨hdate, hstatus.trans howner.2.symm⟩
    | some f =>
      obtain ⟨heq, tickets, hphase⟩ := hfinish rfl
      cases heq
      have hplanned := h.planned id call hcall
      rw [hphase] at hplanned
      have hsince := (h.owned id call hcall howner).since
      refine .inr ⟨hdate, fun hsome since heq ↦ ?_, fun last hlast first hfirst day hlow hhigh ↦ ?_⟩
      · obtain ⟨last, hlast⟩ := Option.isSome_iff_exists.1 hsome
        exact (hplanned last hlast).1 since (hsince.symm.trans heq)
      · have hmem := mem_daysBetween hlow hhigh
        rwa [(hplanned last hlast).2 first hfirst, List.append_nil] at hmem

/-- Up to the cursor, and up to the target of a run that is done, the tickets that the run saw at
its begin have been rebuilt since. Within a run the cursor never decreases. A call that lost its run
never writes the state row again, and a call that ends a run has computed the days up to the
snapshot date that it writes. -/
theorem backfill_complete (hrun : (backfill zones).Reachable s) :
    (∀ start cursor, s.row.start = some start → s.row.cursor = some cursor →
      s.Covered start cursor) ∧
    (s.row.status = .done → ∀ start target, s.row.start = some start →
      s.row.target = some target → s.Covered start target) ∧
    (∀ a t, s.next zones a = some t → t.runs = s.runs → ∀ cursor, s.row.cursor = some cursor →
      ∃ cursor', t.row.cursor = some cursor' ∧ cursor ≤ cursor') ∧
    (∀ id call, s.calls id = some call → s.Lost call → ∀ as u, (backfill zones).Run s as u →
      ∀ t, u.next zones (.advance id) = some t → t.row = u.row) ∧
    ∀ id t, s.next zones (.advance id) = some t →
      t.row.lastSnapshotDate = s.row.lastSnapshotDate ∧ t.row.status = s.row.status ∨
        ∃ call, s.calls id = some call ∧ Finishes s t call := by
  have h := reachable_kept hrun
  refine ⟨h.covered, h.complete, ?_, ?_, ?_⟩
  · intro a t hnext hruns cursor hcursor
    exact next_cursor hnext hruns hcursor
  · intro id call hcall hlost as u hsteps t hnext
    obtain ⟨call', hcall', hlost'⟩ := run_lost hsteps h call hcall hlost
    obtain ⟨call₂, hcall₂, hadvance⟩ := Option.bind_eq_some_iff.1 hnext
    rw [hcall'] at hcall₂
    cases hcall₂
    exact advance_lost hlost' hadvance
  · intro id t hnext
    obtain ⟨call, hcall, hadvance⟩ := Option.bind_eq_some_iff.1 hnext
    rcases advance_snapshot h hcall hadvance with hsame | hfinishes
    · exact .inl hsame
    · exact .inr ⟨call, hcall, hfinishes⟩

section Sample

/-- Days of 100 ticks in one zone. -/
def sampleZones : Zones where
  localMidnightUtc day _ := day * 100
  localDate moment _ := moment / 100

def emptyRow : StateRow where
  lastHistoryId := 0
  status := .pending
  start := none
  cursor := none
  target := none
  since := none
  token := none
  finishedAt := none
  lastSnapshotDate := none
  snapshotTimeZone := none

def idleState : State where
  now := 1000
  zone := "UTC"
  row := emptyRow
  tickets := [(5, 700), (3, 650)]
  history := 9
  facts := []
  calls := fun _ ↦ none
  deleted := []
  tokens := []
  runs := 0
  begun := []
  rebuilt := []

/-- A call is taken over before it saves its cursor, and the second one ends the run. -/
def takeover : List Action :=
  [.start 0 ⟨none, false, true⟩ 0, .advance 0, .advance 0, .start 1 ⟨none, false, true⟩ 1,
    .advance 0] ++ List.replicate 9 (.advance 1)

theorem backfill_complete_sample : ∃ s : State, s.row.status = .done ∧ s.row.cursor = some 5 ∧
    s.row.lastSnapshotDate = some 9 ∧ s.rebuilt = [3, 5, 3, 5] ∧ s.Covered 2 5 := by
  have hrun : (takeover.foldlM (State.next sampleZones) idleState).map (fun s ↦
      (s.row.status, [s.row.start, s.row.cursor, s.row.target, s.row.lastSnapshotDate],
        s.rebuilt)) =
        some (.done, [some 2, some 5, some 5, some 9], [3, 5, 3, 5]) := by
    decide +kernel
  have hinitial : Initial idleState := by
    refine ⟨rfl, fun _ h ↦ ?_, rfl, rfl⟩
    cases h
  obtain ⟨s, hs, hvalues⟩ := Machine.exists_reachable_of_foldlM _ hinitial hrun
  simp only [Prod.mk.injEq, List.cons.injEq, and_true] at hvalues
  obtain ⟨hstatus, ⟨hstart, hcursor, htarget, hdate⟩, hrebuilt⟩ := hvalues
  obtain ⟨-, hcomplete, -⟩ := backfill_complete hs
  exact ⟨s, hstatus, hcursor, hdate, hrebuilt, hcomplete hstatus 2 5 hstart htarget⟩

end Sample

end Tiqora.Reporting.Backfill
