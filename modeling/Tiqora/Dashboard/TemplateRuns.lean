import Tiqora.Dashboard.StoreKept

namespace Tiqora.Dashboard

open Tiqora.Foundation

variable {ι κ : Type}

namespace State

variable {s s' : State ι κ} {d : ℕ} {row row' : TiqoraDashboard ι κ}

theorem find_put {t : ℕ} :
    (s.put d row).rows.find t = if t = d then some row else s.rows.find t := by
  split
  · rename_i heq
    rw [heq]
    exact Table.find_set_self
  · exact Table.find_set_of_ne ‹_›

theorem find_add {t : ℕ} :
    (s.add row).rows.find t = if t = s.nextId then some row else s.rows.find t := by
  split
  · rename_i heq
    rw [heq]
    exact Table.find_set_self
  · exact Table.find_set_of_ne ‹_›

theorem find_drop {t : ℕ} :
    (s.drop d).rows.find t = if t = d then none else s.rows.find t := by
  split
  · rename_i heq
    rw [heq]
    exact Table.find_set_self
  · exact Table.find_set_of_ne ‹_›

/-- The later life of the rows that are there: versions only grow, and an origin stays. -/
structure Grows (s s' : State ι κ) : Prop where
  counted : s.nextId ≤ s'.nextId
  rows : ∀ d row', d < s.nextId → s'.rows.find d = some row' →
    ∃ row, s.rows.find d = some row ∧ row.version ≤ row'.version ∧
      row'.sourceTemplateId = row.sourceTemplateId ∧
      ∀ seen, row.sourceTemplateVersion = some seen →
        ∃ seen', row'.sourceTemplateVersion = some seen' ∧ seen ≤ seen'

theorem Grows.refl (s : State ι κ) : s.Grows s where
  counted := le_rfl
  rows _ row _ hrow := ⟨row, hrow, le_rfl, rfl, fun seen hseen ↦ ⟨seen, hseen, le_rfl⟩⟩

theorem Grows.trans {s₁ s₂ s₃ : State ι κ} (h : s₁.Grows s₂) (h' : s₂.Grows s₃) : s₁.Grows s₃ where
  counted := h.counted.trans h'.counted
  rows d row₃ hd hrow₃ := by
    obtain ⟨row₂, hrow₂, hversion₂, hsource₂, hseen₂⟩ :=
      h'.rows d row₃ (hd.trans_le h.counted) hrow₃
    obtain ⟨row₁, hrow₁, hversion₁, hsource₁, hseen₁⟩ := h.rows d row₂ hd hrow₂
    refine ⟨row₁, hrow₁, hversion₁.trans hversion₂, hsource₂.trans hsource₁, fun seen hseen ↦ ?_⟩
    obtain ⟨seen₂, hseen₂', hle⟩ := hseen₁ seen hseen
    obtain ⟨seen₃, hseen₃, hle'⟩ := hseen₂ seen₂ hseen₂'
    exact ⟨seen₃, hseen₃, hle.trans hle'⟩

theorem Effect.grows (h : s.Effect s') : s.Grows s' := by
  cases h with
  | same => exact .refl s
  | @put d row row' hrow good version source seen =>
    refine ⟨le_rfl, fun t found ht hfound ↦ ?_⟩
    rw [find_put] at hfound
    split at hfound
    · rename_i heq
      cases hfound
      refine ⟨row, heq ▸ hrow, version, source, fun v hv ↦ ?_⟩
      rcases seen with heq | ⟨t', template, -, -, hlt, heq⟩
      · exact ⟨v, heq.trans hv, le_rfl⟩
      · exact ⟨template.version, heq, (hlt v hv).le⟩
    · exact (Grows.refl s).rows t found ht hfound
  | @add row good source =>
    refine ⟨Nat.le_succ _, fun t found ht hfound ↦ ?_⟩
    rw [find_add, if_neg ht.ne] at hfound
    exact (Grows.refl s).rows t found ht hfound
  | drop d =>
    refine ⟨le_rfl, fun t found ht hfound ↦ ?_⟩
    rw [find_drop] at hfound
    split at hfound
    · cases hfound
    · exact (Grows.refl s).rows t found ht hfound
  | @order f hf =>
    refine ⟨le_rfl, fun t found ht hfound ↦ ?_⟩
    obtain ⟨row, hrow, rfl⟩ := Table.mem_update.1 (Table.find_eq_some.1 hfound)
    obtain ⟨sort, heq⟩ := hf t row
    rw [heq]
    exact ⟨row, Table.find_eq_some.2 hrow, le_rfl, rfl, fun seen hseen ↦ ⟨seen, hseen, le_rfl⟩⟩

/-- A good row that has seen no more of its template than there is. -/
structure Fine (s : State ι κ) (row : TiqoraDashboard ι κ) : Prop where
  good : row.Good
  source : ∀ t, row.sourceTemplateId = some t → t < s.nextId ∧
    ∀ seen, row.sourceTemplateVersion = some seen →
      ∀ template, s.rows.find t = some template → seen ≤ template.version

theorem Kept.fine (hs : s.Kept) (hrow : s.rows.find d = some row) : s.Fine row :=
  ⟨hs.good d row hrow, hs.sources d row hrow⟩

/-- A row that a request leaves is fine by the templates of before. -/
theorem Effect.fine (hs : s.Kept) (h : s.Effect s') (hfound : s'.rows.find d = some row') :
    d < s'.nextId ∧ s.Fine row' := by
  cases h with
  | same => exact ⟨hs.counted d row' hfound, hs.fine hfound⟩
  | @put d' row new hrow good version source seen =>
    rw [find_put] at hfound
    split at hfound
    · rename_i heq
      cases hfound
      refine ⟨heq ▸ hs.counted d' row hrow, good, fun t ht ↦ ?_⟩
      rw [source] at ht
      obtain ⟨hlt, hle⟩ := hs.sources d' row hrow t ht
      refine ⟨hlt, fun v hv template htemplate ↦ ?_⟩
      rcases seen with hsame | ⟨t', template', ht', htemplate', -, hnew⟩
      · exact hle v (hsame.symm.trans hv) template htemplate
      · cases ht.symm.trans ht'
        cases htemplate.symm.trans htemplate'
        cases hv.symm.trans hnew
        exact le_rfl
    · exact ⟨hs.counted d row' hfound, hs.fine hfound⟩
  | @add new good source =>
    rw [find_add] at hfound
    split at hfound
    · rename_i heq
      cases hfound
      refine ⟨heq ▸ Nat.lt_succ_self _, good, fun t ht ↦ ?_⟩
      obtain ⟨template, htemplate, hseen⟩ := source t ht
      refine ⟨hs.counted t template htemplate, fun v hv template' htemplate' ↦ ?_⟩
      cases htemplate.symm.trans htemplate'
      cases hv.symm.trans hseen
      exact le_rfl
    · exact ⟨(hs.counted d row' hfound).trans (Nat.lt_succ_self _), hs.fine hfound⟩
  | drop d' =>
    rw [find_drop] at hfound
    split at hfound
    · cases hfound
    · exact ⟨hs.counted d row' hfound, hs.fine hfound⟩
  | @order f hf =>
    obtain ⟨row, hrow, rfl⟩ := Table.mem_update.1 (Table.find_eq_some.1 hfound)
    have hrow := Table.find_eq_some.2 hrow
    obtain ⟨sort, heq⟩ := hf d row
    rw [heq]
    exact ⟨hs.counted d row hrow, (hs.good d row hrow).same rfl le_rfl, hs.sources d row hrow⟩

theorem Effect.kept (hs : s.Kept) (h : s.Effect s') : s'.Kept where
  good _ _ hfound := (h.fine hs hfound).2.good
  counted _ _ hfound := (h.fine hs hfound).1
  sources d row' hfound t ht := by
    obtain ⟨hlt, hle⟩ := (h.fine hs hfound).2.source t ht
    refine ⟨hlt.trans_le h.grows.counted, fun seen hseen template htemplate ↦ ?_⟩
    obtain ⟨old, hold, hversion, -⟩ := h.grows.rows t template hlt htemplate
    exact (hle seen hseen old hold).trans hversion

end State

variable [LinearOrder ι] {checks : Checks κ} {content : ℕ → κ} {s s' : State ι κ}

theorem serve_of_step {a : Action ι κ} (h : (dashboards checks content).step s a s') :
    s.serve checks content a = .ok s' := by
  change (s.serve checks content a).toOption = some s' at h
  cases hserve : s.serve checks content a with
  | error e => simp [hserve, Except.toOption] at h
  | ok t =>
    rw [hserve] at h
    exact congrArg _ (Option.some.inj h)

theorem kept_step {a : Action ι κ} (hs : s.Kept) (h : (dashboards checks content).step s a s') :
    s'.Kept :=
  (State.serve_effect hs (serve_of_step h)).kept hs

theorem kept_of_reachable (h : (dashboards checks content).Reachable s) : s.Kept := by
  refine h.invariant (fun s hs ↦ ?_) fun s a t ↦ kept_step
  have hnone (d : ℕ) : s.rows.find d = none := by rw [hs.1]; rfl
  refine ⟨fun d row hrow ↦ ?_, fun d row hrow ↦ ?_, fun d row hrow ↦ ?_⟩
  all_goals rw [hnone d] at hrow; cases hrow

theorem grows_of_run {as : List (Action ι κ)} (h : (dashboards checks content).Run s as s')
    (hs : s.Kept) : s.Grows s' :=
  h.relates (fun _ _ _ ↦ kept_step) State.Grows.refl (fun _ _ _ ↦ .trans)
    (fun _ _ _ hs hst ↦ (State.serve_effect hs (serve_of_step hst)).grows) hs

omit [LinearOrder ι] in
/-- The layouts of a merge do not depend on the ids. -/
theorem placeNew_layout {fresh : ℕ → ι} (fresh' : ℕ → ι) {i : ℕ} (i' : ℕ)
    {rects : List Cell} {new added : List (Widget ι κ)} (h : placeNew fresh i rects new = .ok added) :
    ∃ shown, placeNew fresh' i' rects new = .ok shown ∧
      shown.map (·.layout) = added.map (·.layout) := by
  induction new generalizing i i' rects added with
  | nil =>
    cases h
    exact ⟨[], rfl, rfl⟩
  | cons w rest ih =>
    obtain ⟨placed, hplaced, h⟩ := bind_eq_ok.1 h
    obtain ⟨tail, htail, h⟩ := bind_eq_ok.1 h
    cases h
    obtain ⟨shown, hshown, hlayout⟩ := ih (i' + 1) htail
    exact ⟨_, bind_eq_ok.2 ⟨placed, hplaced, bind_eq_ok.2 ⟨shown, hshown, rfl⟩⟩, by simp [hlayout]⟩

/-- What a decision does to the row. -/
theorem applyUpdate_spec {viewer : Viewer} {d version : ℕ} {action : UpdateAction} {fresh : ℕ → ι}
    (h : s.applyUpdate viewer d action version fresh = .ok s') :
    ∃ row template new row' added, s.ownedRow viewer d = .ok row ∧
      s.pendingUpdate viewer row = some (template, new) ∧ s'.rows.find d = some row' ∧
      row'.sourceTemplateVersion = some template.version ∧ row'.widgets = row.widgets ++ added ∧
      (action = .dismiss → added = []) ∧
      (action = .merge →
        placeNew fresh 0 (row.widgets.map (·.layout.lg.toCell)) new = .ok added) := by
  obtain ⟨row, hrow, h⟩ := bind_eq_ok.1 h
  obtain ⟨-, h⟩ := require_bind_eq_ok.1 h
  split at h
  · cases h
  · rename_i template new hpending
    cases action with
    | dismiss =>
      cases h
      exact ⟨row, template, new, _, [], hrow, hpending, by rw [State.find_put, if_pos rfl], rfl,
        by simp, fun _ ↦ rfl, fun hmerge ↦ by cases hmerge⟩
    | merge =>
      obtain ⟨-, h⟩ := require_bind_eq_ok.1 h
      obtain ⟨added, hadded, h⟩ := bind_eq_ok.1 h
      obtain ⟨-, h⟩ := require_bind_eq_ok.1 h
      cases h
      exact ⟨row, template, new, _, added, hrow, hpending, by rw [State.find_put, if_pos rfl], rfl,
        rfl, fun hdismiss ↦ (by cases hdismiss), fun _ ↦ hadded⟩

/-- What a copy has seen of its template is not offered to it any more. -/
theorem newer_of_run {as : List (Action ι κ)} {s'' : State ι κ} (hs : s'.Kept)
    (hrun : (dashboards checks content).Run s' as s'') {d seen : ℕ} {row later : TiqoraDashboard ι κ}
    (hrow : s'.rows.find d = some row) (hseen : row.sourceTemplateVersion = some seen)
    (hlater : s''.rows.find d = some later) {viewer : Viewer} {template : TiqoraDashboard ι κ}
    {new : List (Widget ι κ)} (hpending : s''.pendingUpdate viewer later = some (template, new))
    {w : Widget ι κ} (hw : w ∈ new) : seen < w.addedInVersion.getD 0 := by
  obtain ⟨old, hold, -, -, hgrows⟩ :=
    (grows_of_run hrun hs).rows d later (hs.counted d row hrow) hlater
  cases hrow.symm.trans hold
  obtain ⟨seen', hseen', hle⟩ := hgrows seen hseen
  obtain ⟨t, seen'', -, hseen'', -, -, rfl⟩ := pendingUpdate_spec hpending
  cases hseen'.symm.trans hseen''
  exact hle.trans_lt (of_decide_eq_true (List.mem_filter.1 hw).2).1

section Sample

def anyChecks : Checks Unit := ⟨fun _ _ ↦ .ok (), fun _ _ ↦ .ok ()⟩

def sampleAdmin : Viewer := ⟨1, true, [], [7]⟩

def sampleBody : DashboardSaveIn ℕ Unit where
  version := 1
  widgets := [⟨50, (), ⟨⟨⟨0, 0, 6, 4⟩, by decide, by decide, by decide, by decide, by decide,
    by decide⟩, none⟩⟩]
  few := by decide
  unique := by decide

/-- A template, a copy of it, and a widget that the template gets afterwards. -/
def sampleActions : List (Action ℕ Unit) :=
  [.createTemplate [7] ⟨0, false, [7]⟩ id, .create sampleAdmin (some 0) (· + 100),
    .save sampleAdmin 0 sampleBody]

theorem sample_reachable : ∃ s, (dashboards anyChecks fun _ ↦ ()).Reachable s ∧
    ((s.rows.find 0).isSome = true ∧
      (s.applyUpdate sampleAdmin 1 .merge 1 (· + 200)).toOption.isSome = true) := by
  have hstart : (dashboards anyChecks fun _ : ℕ ↦ ()).init (⟨.empty, 0⟩ : State ℕ Unit) :=
    ⟨rfl, rfl⟩
  have hreach : ∃ s : State ℕ Unit, (dashboards anyChecks fun _ ↦ ()).Reachable s ∧
      ((s.rows.find 0).isSome &&
        (s.applyUpdate sampleAdmin 1 .merge 1 (· + 200)).toOption.isSome) = true :=
    Machine.exists_reachable_of_foldlM sampleActions hstart (by decide +kernel)
  obtain ⟨s, hs, heq⟩ := hreach
  exact ⟨s, hs, by simpa using heq⟩

end Sample

theorem dashboards_stay_good (hs : (dashboards checks content).Reachable s) {d : ℕ}
    {row : TiqoraDashboard ι κ} (hrow : s.rows.find d = some row) :
    row.Good ∧ ∀ t seen template, row.sourceTemplateId = some t →
      row.sourceTemplateVersion = some seen → s.rows.find t = some template →
      seen ≤ template.version := by
  have hkept := kept_of_reachable hs
  exact ⟨hkept.good d row hrow, fun t seen template ht hseen htemplate ↦
    (hkept.sources d row hrow t ht).2 seen hseen template htemplate⟩

theorem dashboards_stay_good_sample : ∃ (s : State ℕ Unit) (row : TiqoraDashboard ℕ Unit),
    s.rows.find 0 = some row ∧ row.Good := by
  obtain ⟨s, hs, hrow, -⟩ := sample_reachable
  obtain ⟨row, hrow⟩ := Option.isSome_iff_exists.1 hrow
  exact ⟨s, row, hrow, (dashboards_stay_good hs hrow).1⟩

/-- A decision on the news of a template is for good: what is offered later came to the template
later. A merge adds the offered widgets as its preview shows them, a dismissal adds none, and
neither touches a widget that is there. -/
theorem template_updates_once (hs : (dashboards checks content).Reachable s) {viewer : Viewer}
    {d version : ℕ} {action : UpdateAction} {fresh : ℕ → ι}
    (h : s.applyUpdate viewer d action version fresh = .ok s') {s'' : State ι κ}
    {as : List (Action ι κ)} (hrun : (dashboards checks content).Run s' as s'') :
    ∃ row template new row' added, s.rows.find d = some row ∧
      s.pendingUpdate viewer row = some (template, new) ∧
      s'.rows.find d = some row' ∧ row'.widgets = row.widgets ++ added ∧
      (action = .dismiss → added = []) ∧
      (action = .merge → added.map (·.templateWidgetId) = new.map (fun w ↦ some w.id) ∧
        ∀ fresh' : ℕ → ι, ∃ shown, s.previewUpdate viewer d fresh' = .ok shown ∧
          shown.map (·.layout) = added.map (·.layout)) ∧
      ∀ viewer' later template' new', s''.rows.find d = some later →
        s''.pendingUpdate viewer' later = some (template', new') →
        ∀ w ∈ new, ∀ w' ∈ new', w.addedInVersion.getD 0 < w'.addedInVersion.getD 0 := by
  have hkept := kept_of_reachable hs
  have hstep : (dashboards checks content).step s (.update viewer d action version fresh) s' := by
    change (s.applyUpdate viewer d action version fresh).toOption = some s'
    rw [h]
    rfl
  have hkept' := kept_step hkept hstep
  obtain ⟨row, template, new, row', added, howned, hpending, hrow', hseen, hwidgets, hdismiss,
    hmerge⟩ := applyUpdate_spec h
  refine ⟨row, template, new, row', added, State.ownedRow_eq_ok howned, hpending, hrow', hwidgets,
    hdismiss, fun heq ↦ ⟨(placeNew_spec (hmerge heq)).origin_map, fun fresh' ↦ ?_⟩, ?_⟩
  · obtain ⟨shown, hshown, hlayout⟩ := placeNew_layout fresh' 0 (hmerge heq)
    refine ⟨shown, bind_eq_ok.2 ⟨row, howned, ?_⟩, hlayout⟩
    simp only [hpending]
    exact hshown
  · intro viewer' later template' new' hlater hpending' w hw w' hw'
    obtain ⟨t, seen, -, -, htemplate, -, rfl⟩ := pendingUpdate_spec hpending
    have hle := (hkept.good t template htemplate).added w (List.mem_filter.1 hw).1
    exact hle.trans_lt (newer_of_run hkept' hrun hrow' hseen hlater hpending' hw')

theorem template_updates_once_sample : ∃ (s s' : State ℕ Unit) (row row' : TiqoraDashboard ℕ Unit),
    s.rows.find 1 = some row ∧ s'.rows.find 1 = some row' ∧
      ∃ added, row'.widgets = row.widgets ++ added := by
  obtain ⟨s, hs, -, hupdate⟩ := sample_reachable
  cases happly : s.applyUpdate sampleAdmin 1 .merge 1 (· + 200) with
  | error e => simp [happly, Except.toOption] at hupdate
  | ok s' =>
    obtain ⟨row, -, -, row', added, hrow, -, hrow', hwidgets, -⟩ :=
      template_updates_once hs happly (.nil s')
    exact ⟨s, s', row, row', hrow, hrow', added, hwidgets⟩

end Tiqora.Dashboard
