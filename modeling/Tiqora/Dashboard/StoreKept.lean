import Tiqora.Dashboard.Layout
import Tiqora.Dashboard.Store
import Tiqora.Foundation.Dicts

namespace Tiqora.Dashboard

open Tiqora.Foundation

variable {ι κ : Type}

/-- Two widgets of one row: other origins, and no overlap in either grid. -/
def Widget.Apart (a b : Widget ι κ) : Prop :=
  (∀ id, a.templateWidgetId = some id → b.templateWidgetId ≠ some id) ∧
    collides a.layout.lg.toCell b.layout.lg.toCell = false ∧
    ∀ r ∈ a.layout.md, ∀ r' ∈ b.layout.md, collides r.toCell r'.toCell = false

theorem Widget.Apart.symm {a b : Widget ι κ} (h : a.Apart b) : b.Apart a := by
  obtain ⟨horigin, hlg, hmd⟩ := h
  refine ⟨fun id hb ha ↦ horigin id ha hb, by rwa [collides_comm], fun r hr r' hr' ↦ ?_⟩
  rw [collides_comm]
  exact hmd r' hr' r hr

def WidgetLayouts.Inside (l : WidgetLayouts) : Prop :=
  l.lg.x + l.lg.w ≤ gridCols ∧ ∀ r ∈ l.md, r.x + r.w ≤ mediumCols

/-- What a stored row keeps. -/
structure TiqoraDashboard.Good (row : TiqoraDashboard ι κ) : Prop where
  ids : (row.widgets.map (·.id)).Nodup
  apart : row.widgets.Pairwise Widget.Apart
  inside : ∀ w ∈ row.widgets, w.layout.Inside
  few : row.widgets.length ≤ maxWidgetsPerDashboard
  added : ∀ w ∈ row.widgets, w.addedInVersion.getD 0 ≤ row.version

/-- A change that leaves ids, layouts and origins of the widgets alone. -/
theorem TiqoraDashboard.Good.map {row row' : TiqoraDashboard ι κ} (h : row.Good)
    {f : Widget ι κ → Widget ι κ} (hf : ∀ w, (f w).id = w.id ∧ (f w).layout = w.layout ∧
      (f w).templateWidgetId = w.templateWidgetId ∧ (f w).addedInVersion = w.addedInVersion)
    (hwidgets : row'.widgets = row.widgets.map f) (hversion : row.version ≤ row'.version) :
    row'.Good := by
  have hapart {a b : Widget ι κ} (hab : a.Apart b) : (f a).Apart (f b) := by
    simpa [Widget.Apart, hf] using hab
  refine ⟨?_, ?_, fun w hw ↦ ?_, ?_, fun w hw ↦ ?_⟩
  · simpa [hwidgets, Function.comp_def, hf] using h.ids
  · rw [hwidgets, List.pairwise_map]
    exact h.apart.imp hapart
  · rw [hwidgets] at hw
    obtain ⟨old, hold, rfl⟩ := List.mem_map.1 hw
    rw [(hf old).2.1]
    exact h.inside old hold
  · simpa [hwidgets] using h.few
  · rw [hwidgets] at hw
    obtain ⟨old, hold, rfl⟩ := List.mem_map.1 hw
    rw [(hf old).2.2.2]
    exact (h.added old hold).trans hversion

theorem TiqoraDashboard.Good.same {row row' : TiqoraDashboard ι κ} (h : row.Good)
    (hwidgets : row'.widgets = row.widgets) (hversion : row.version ≤ row'.version) : row'.Good :=
  h.map (f := id) (fun _ ↦ ⟨rfl, rfl, rfl, rfl⟩) (by simp [hwidgets]) hversion

theorem defaultRects_apart : defaultRects.Pairwise (fun a b ↦ collides a.toCell b.toCell = false) ∧
    (∀ r ∈ defaultRects, r.x + r.w ≤ gridCols) ∧ defaultRects.length ≤ maxWidgetsPerDashboard := by
  decide

theorem pairwise_zipIdx {α : Type} {R : α → α → Prop} {l : List α} (h : l.Pairwise R) (n : ℕ) :
    (l.zipIdx n).Pairwise fun a b ↦ R a.1 b.1 := by
  refine List.pairwise_map.1 ?_
  rwa [List.zipIdx_map_fst]

theorem good_defaultWidgets {content : ℕ → κ} {fresh : ℕ → ι} {row : TiqoraDashboard ι κ}
    (hwidgets : row.widgets = defaultWidgets content fresh)
    (hids : (row.widgets.map (·.id)).Nodup) : row.Good := by
  obtain ⟨hapart, hinside, hfew⟩ := defaultRects_apart
  refine ⟨hids, ?_, ?_, ?_, ?_⟩
  · rw [hwidgets, defaultWidgets, List.pairwise_map]
    refine (pairwise_zipIdx hapart 0).imp fun hab ↦ ⟨fun id ha ↦ ?_, hab, fun r hr ↦ ?_⟩
    · cases ha
    · cases hr
  · intro w hw
    rw [hwidgets, defaultWidgets] at hw
    obtain ⟨⟨rect, i⟩, hmem, rfl⟩ := List.mem_map.1 hw
    refine ⟨hinside rect (List.fst_mem_of_mem_zipIdx hmem), fun r hr ↦ ?_⟩
    cases hr
  · rw [hwidgets, defaultWidgets, List.length_map, List.length_zipIdx]
    exact hfew
  · intro w hw
    rw [hwidgets, defaultWidgets] at hw
    obtain ⟨⟨rect, i⟩, hmem, rfl⟩ := List.mem_map.1 hw
    exact Nat.zero_le _

/-- Copies of a good row are good; the ones of a template have their origins from its ids. -/
theorem good_copyWidgets {fresh : ℕ → ι} {fromTemplate : Bool} {source row : TiqoraDashboard ι κ}
    (hsource : source.Good) (hwidgets : row.widgets = copyWidgets fresh fromTemplate source.widgets)
    (hids : (row.widgets.map (·.id)).Nodup) : row.Good := by
  have hpairwise := (List.pairwise_map.1 hsource.ids).and hsource.apart
  refine ⟨hids, ?_, ?_, ?_, ?_⟩
  · rw [hwidgets, copyWidgets, List.pairwise_map]
    refine (pairwise_zipIdx hpairwise 0).imp fun hab ↦ ⟨fun id ha hb ↦ ?_, hab.2.2⟩
    cases fromTemplate with
    | false => cases ha
    | true => exact hab.1 (Option.some.inj (ha.trans hb.symm))
  · intro w hw
    rw [hwidgets, copyWidgets] at hw
    obtain ⟨⟨old, i⟩, hmem, rfl⟩ := List.mem_map.1 hw
    exact hsource.inside old (List.fst_mem_of_mem_zipIdx hmem)
  · rw [hwidgets, copyWidgets, List.length_map, List.length_zipIdx]
    exact hsource.few
  · intro w hw
    rw [hwidgets, copyWidgets] at hw
    obtain ⟨⟨old, i⟩, hmem, rfl⟩ := List.mem_map.1 hw
    exact Nat.zero_le _

section Save

variable [LinearOrder ι]

theorem mapError_eq_ok {ε ε' α : Type} {f : ε → ε'} {x : Except ε α} {a : α}
    (h : x.mapError f = .ok a) : x = .ok a := by
  cases x with
  | error e => cases h
  | ok b =>
    cases h
    rfl

/-- Two rectangles of a normal form under different ids do not overlap. -/
theorem collides_normalizeRects {cols : ℕ} {items out : List (ι × Rect)}
    (h : normalizeRects cols items = .ok out) {a b : ι × Rect} (ha : a ∈ out) (hb : b ∈ out)
    (hne : a.1 ≠ b.1) : collides a.2.toCell b.2.toCell = false := by
  have hapart := (stacked_of_normalizeRects h).apart .nil
  rw [List.nil_append, cells, List.pairwise_map] at hapart
  have hsymm : Std.Symm fun a b : ι × Rect ↦ collides a.2.toCell b.2.toCell = false :=
    ⟨fun _ _ h ↦ by rwa [collides_comm]⟩
  exact hapart.forall ha hb fun heq ↦ hne (congrArg Prod.fst heq)

theorem inside_normalizeRects {cols : ℕ} {items out : List (ι × Rect)}
    (h : normalizeRects cols items = .ok out) {a : ι × Rect} (ha : a ∈ out) :
    a.2.x + a.2.w ≤ max 1 cols :=
  (within_of_stacked (stacked_of_normalizeRects h)
    (List.mem_map_of_mem (f := fun item : ι × Rect ↦ (item.1, item.2.toCell)) ha)).2

/-- The widgets of a save keep their ids; their layouts do not overlap. -/
structure Prepared (body : DashboardSaveIn ι κ) (prepared : List (WidgetIn ι κ)) : Prop where
  ids : prepared.map (·.id) = body.widgets.map (·.id)
  apart : prepared.Pairwise fun a b ↦ collides a.layout.lg.toCell b.layout.lg.toCell = false ∧
    ∀ r ∈ a.layout.md, ∀ r' ∈ b.layout.md, collides r.toCell r'.toCell = false
  inside : ∀ w ∈ prepared, w.layout.Inside

theorem prepareWidgets_spec {checks : Checks κ} {body : DashboardSaveIn ι κ}
    {prepared : List (WidgetIn ι κ)} (h : prepareWidgets checks body = .ok prepared) :
    Prepared body prepared := by
  obtain ⟨lg, hlg, h⟩ := bind_eq_ok.1 h
  obtain ⟨md, hmd, h⟩ := bind_eq_ok.1 h
  have hlg := mapError_eq_ok hlg
  have hmd := mapError_eq_ok hmd
  have hall := mapM_eq_ok h
  have hwidget : List.Forall₂ (fun a (w : WidgetIn ι κ) ↦ w.id = a.1.id ∧
      lg.lookup w.id = some w.layout.lg ∧ w.layout.md = md.lookup w.id)
      body.widgets.zipIdx prepared := by
    refine hall.imp fun a w hw ↦ ?_
    obtain ⟨content, -, hw⟩ := bind_eq_ok.1 hw
    split at hw
    · cases hw
    · cases hw
      exact ⟨rfl, ‹_›, rfl⟩
  have hids : prepared.map (·.id) = body.widgets.map (·.id) := by
    have hsame : List.Forall₂ (· = ·) (body.widgets.zipIdx.map (·.1.id)) (prepared.map (·.id)) := by
      rw [List.forall₂_map_left_iff, List.forall₂_map_right_iff]
      exact hwidget.imp fun _ _ hw ↦ hw.1.symm
    rw [List.forall₂_eq_eq_eq] at hsame
    rw [← hsame, ← List.zipIdx_map_fst 0 body.widgets, List.map_map, List.zipIdx_map_fst]
    rfl
  have hmem : ∀ w ∈ prepared, (w.id, w.layout.lg) ∈ lg ∧
      ∀ r ∈ w.layout.md, (w.id, r) ∈ md := by
    intro w hw
    obtain ⟨i, hi, rfl⟩ := List.mem_iff_getElem.1 hw
    obtain ⟨-, hlookup, hmdlookup⟩ := hwidget.get (hwidget.length_eq ▸ hi) hi
    exact ⟨mem_of_lookup hlookup, fun r hr ↦ mem_of_lookup (hmdlookup.symm.trans hr)⟩
  have hnodup : (prepared.map (·.id)).Nodup := hids ▸ body.unique
  refine ⟨hids, ?_, fun w hw ↦ ⟨inside_normalizeRects hlg (hmem w hw).1,
    fun r hr ↦ inside_normalizeRects hmd ((hmem w hw).2 r hr)⟩⟩
  refine (List.pairwise_map.1 hnodup).imp_of_mem fun ha hb hne ↦ ⟨?_, fun r hr r' hr' ↦ ?_⟩
  · exact collides_normalizeRects hlg (hmem _ ha).1 (hmem _ hb).1 hne
  · exact collides_normalizeRects hmd ((hmem _ ha).2 r hr) ((hmem _ hb).2 r' hr') hne

theorem saved_id (row : TiqoraDashboard ι κ) (w : WidgetIn ι κ) : (row.saved w).id = w.id := by
  rw [TiqoraDashboard.saved]
  split
  · rename_i old hold
    simpa using List.find?_some hold
  · rfl

theorem saved_layout (row : TiqoraDashboard ι κ) (w : WidgetIn ι κ) :
    (row.saved w).layout = w.layout := by
  rw [TiqoraDashboard.saved]
  split <;> rfl

/-- What a saved widget says of its origin was said before under its id. -/
theorem saved_origin {row : TiqoraDashboard ι κ} {w : WidgetIn ι κ} {id : ι}
    (h : (row.saved w).templateWidgetId = some id) :
    ∃ old ∈ row.widgets, old.id = w.id ∧ old.templateWidgetId = some id := by
  rw [TiqoraDashboard.saved] at h
  split at h
  · rename_i old hold
    exact ⟨old, List.mem_of_find?_eq_some hold, by simpa using List.find?_some hold, h⟩
  · cases h

theorem saved_added {row : TiqoraDashboard ι κ} (hrow : row.Good) (w : WidgetIn ι κ) :
    (row.saved w).addedInVersion.getD 0 ≤ row.version + 1 := by
  rw [TiqoraDashboard.saved]
  split
  · rename_i old hold
    exact (hrow.added old (List.mem_of_find?_eq_some hold)).trans (Nat.le_succ _)
  · split
    · exact le_rfl
    · exact Nat.zero_le _

theorem good_saved {row : TiqoraDashboard ι κ} (hrow : row.Good) {body : DashboardSaveIn ι κ}
    {prepared : List (WidgetIn ι κ)} (hprepared : Prepared body prepared) :
    ({ row with version := row.version + 1, widgets := prepared.map row.saved } :
      TiqoraDashboard ι κ).Good := by
  have hids : (prepared.map (·.id)).Nodup := hprepared.ids ▸ body.unique
  have horigin := hrow.apart
  refine ⟨?_, ?_, ?_, ?_, ?_⟩
  · simpa [Function.comp_def, saved_id] using hids
  · rw [List.pairwise_map]
    refine ((List.pairwise_map.1 hids).and hprepared.apart).imp fun hab ↦ ?_
    refine ⟨fun id ha hb ↦ ?_, by simpa [saved_layout] using hab.2.1,
      by simpa [saved_layout] using hab.2.2⟩
    -- two widgets of one origin would be one widget before the save
    obtain ⟨old, hold, holdid, holdorigin⟩ := saved_origin ha
    obtain ⟨old', hold', holdid', holdorigin'⟩ := saved_origin hb
    have hsymm : Std.Symm (@Widget.Apart ι κ) := ⟨fun _ _ ↦ Widget.Apart.symm⟩
    refine (horigin.forall hold hold' fun heq ↦ ?_).1 id holdorigin holdorigin'
    exact hab.1 (holdid.symm.trans ((congrArg (·.id) heq).trans holdid'))
  · intro w hw
    obtain ⟨source, hsource, rfl⟩ := List.mem_map.1 hw
    rw [saved_layout]
    exact hprepared.inside source hsource
  · have hlength := congrArg List.length hprepared.ids
    simp only [List.length_map] at hlength
    simpa [hlength] using body.few
  · intro w hw
    obtain ⟨source, -, rfl⟩ := List.mem_map.1 hw
    exact saved_added hrow source

end Save

section Merge

/-- The widgets that a merge adds: one for each, with its content and size, below nothing. -/
structure Placed (rects : List Cell) (new added : List (Widget ι κ)) : Prop where
  same : List.Forall₂ (fun a b ↦ b.content = a.content ∧ b.templateWidgetId = some a.id ∧
    b.addedInVersion = none ∧ b.layout.md = none ∧ b.layout.lg.w = a.layout.lg.w ∧
    b.layout.lg.h = a.layout.lg.h) new added
  free : ∀ b ∈ added, Free rects b.layout.lg.toCell
  apart : added.Pairwise fun a b ↦ collides a.layout.lg.toCell b.layout.lg.toCell = false
  inside : ∀ b ∈ added, b.layout.lg.x + b.layout.lg.w ≤ gridCols

theorem Placed.origin_map {rects : List Cell} {new added : List (Widget ι κ)}
    (h : Placed rects new added) :
    added.map (·.templateWidgetId) = new.map fun w ↦ some w.id := by
  have hsame : List.Forall₂ (· = ·) (new.map fun w ↦ some w.id) (added.map (·.templateWidgetId)) := by
    rw [List.forall₂_map_left_iff, List.forall₂_map_right_iff]
    exact h.same.imp fun _ _ hw ↦ hw.2.1.symm
  rw [List.forall₂_eq_eq_eq] at hsame
  exact hsame.symm

theorem Placed.origins {rects : List Cell} {new added : List (Widget ι κ)}
    (h : Placed rects new added) (hids : (new.map (·.id)).Nodup) :
    added.Pairwise fun a b ↦ ∀ id, a.templateWidgetId = some id → b.templateWidgetId ≠ some id := by
  have hmap : (new.map fun w ↦ some w.id).Pairwise fun a b ↦ ∀ id, a = some id → b ≠ some id :=
    List.pairwise_map.2 ((List.pairwise_map.1 hids).imp fun hne id ha hb ↦
      hne (Option.some.inj (ha.trans hb.symm)))
  exact List.pairwise_map.1 (h.origin_map ▸ hmap)

theorem placeNew_spec {fresh : ℕ → ι} {i : ℕ} {rects : List Cell} {new added : List (Widget ι κ)}
    (h : placeNew fresh i rects new = .ok added) : Placed rects new added := by
  induction new generalizing i rects added with
  | nil =>
    cases h
    exact ⟨.nil, by simp, .nil, by simp⟩
  | cons w rest ih =>
    obtain ⟨placed, hplaced, h⟩ := bind_eq_ok.1 h
    obtain ⟨tail, htail, h⟩ := bind_eq_ok.1 h
    cases h
    have hcell := toCell_of_toRect (mapError_eq_ok hplaced)
    obtain ⟨hsame, hfree, hapart, hinside⟩ := ih htail
    have hw := w.layout.lg.w_pos
    have hw' := w.layout.lg.w_le
    have hcols : 1 ≤ gridCols := by decide
    obtain ⟨hx, -, hspot, -⟩ := firstFreeSpot_spec rects w.layout.lg.w w.layout.lg.h hcols
    have hwidth : max 1 (min w.layout.lg.w gridCols) = w.layout.lg.w := by
      simp only [gridCols]
      omega
    rw [hwidth] at hx hspot
    have hhere : Free rects placed.toCell := by
      rw [hcell]
      exact hspot
    refine ⟨.cons ⟨rfl, rfl, rfl, rfl, by rw [hcell], by rw [hcell]⟩ hsame, ?_, ?_, ?_⟩
    · exact List.forall_mem_cons.2 ⟨hhere, fun b hb p hp ↦ hfree b hb p (List.mem_append_left _ hp)⟩
    · refine List.pairwise_cons.2 ⟨fun b hb ↦ ?_, hapart⟩
      rw [collides_comm]
      exact hfree b hb _ (List.mem_append_right _ List.mem_cons_self)
    · refine List.forall_mem_cons.2 ⟨?_, hinside⟩
      rw [hcell]
      exact hx

end Merge

/-- What a store keeps: its rows are good, and no copy has seen more of its template than there
is. -/
structure State.Kept (s : State ι κ) : Prop where
  good : ∀ d row, s.rows.find d = some row → row.Good
  counted : ∀ d row, s.rows.find d = some row → d < s.nextId
  sources : ∀ d row, s.rows.find d = some row → ∀ t, row.sourceTemplateId = some t →
    t < s.nextId ∧ ∀ seen, row.sourceTemplateVersion = some seen →
      ∀ template, s.rows.find t = some template → seen ≤ template.version

/-- All that a request can do to a store. -/
inductive State.Effect (s : State ι κ) : State ι κ → Prop
  | same : Effect s s
  | put {d : ℕ} {row row' : TiqoraDashboard ι κ} (hrow : s.rows.find d = some row)
      (good : row'.Good) (version : row.version ≤ row'.version)
      (source : row'.sourceTemplateId = row.sourceTemplateId)
      (seen : row'.sourceTemplateVersion = row.sourceTemplateVersion ∨
        ∃ t template, row.sourceTemplateId = some t ∧ s.rows.find t = some template ∧
          (∀ v, row.sourceTemplateVersion = some v → v < template.version) ∧
          row'.sourceTemplateVersion = some template.version) :
      Effect s (s.put d row')
  | add {row : TiqoraDashboard ι κ} (good : row.Good)
      (source : ∀ t, row.sourceTemplateId = some t → ∃ template,
        s.rows.find t = some template ∧ row.sourceTemplateVersion = some template.version) :
      Effect s (s.add row)
  | drop (d : ℕ) : Effect s (s.drop d)
  | order {f : ℕ → TiqoraDashboard ι κ → TiqoraDashboard ι κ}
      (hf : ∀ d row, ∃ sort, f d row = { row with sort := sort }) :
      Effect s { s with rows := s.rows.update f }

namespace State

variable {s s' : State ι κ}

theorem loadRow_eq_ok {d : ℕ} {row : TiqoraDashboard ι κ} (h : s.loadRow d = .ok row) :
    s.rows.find d = some row := by
  rw [loadRow] at h
  split at h
  · cases h
  · cases h
    assumption

theorem visibleRow_eq_ok {viewer : Viewer} {d : ℕ} {row : TiqoraDashboard ι κ}
    (h : s.visibleRow viewer d = .ok row) : s.rows.find d = some row := by
  obtain ⟨row', hload, h⟩ := bind_eq_ok.1 h
  obtain ⟨-, h⟩ := require_bind_eq_ok.1 h
  cases h
  exact loadRow_eq_ok hload

theorem ownedRow_eq_ok {viewer : Viewer} {d : ℕ} {row : TiqoraDashboard ι κ}
    (h : s.ownedRow viewer d = .ok row) : s.rows.find d = some row := by
  obtain ⟨row', hrow, h⟩ := bind_eq_ok.1 h
  obtain ⟨-, h⟩ := require_bind_eq_ok.1 h
  cases h
  exact visibleRow_eq_ok hrow

theorem templateRow_eq_ok {d : ℕ} {row : TiqoraDashboard ι κ} (h : s.templateRow d = .ok row) :
    s.rows.find d = some row := by
  obtain ⟨row', hload, h⟩ := bind_eq_ok.1 h
  obtain ⟨-, h⟩ := require_bind_eq_ok.1 h
  cases h
  exact loadRow_eq_ok hload

/-- An edit that leaves the widgets and the source of a row alone. -/
theorem Kept.edit (hs : s.Kept) {d : ℕ} {row row' : TiqoraDashboard ι κ}
    (hfind : s.rows.find d = some row) (hwidgets : row'.widgets = row.widgets)
    (hversion : row'.version = row.version + 1)
    (hsource : row'.sourceTemplateId = row.sourceTemplateId)
    (hseen : row'.sourceTemplateVersion = row.sourceTemplateVersion) : s.Effect (s.put d row') := by
  have hle : row.version ≤ row'.version := (Nat.le_succ _).trans hversion.ge
  exact .put hfind ((hs.good d row hfind).same hwidgets hle) hle hsource (.inl hseen)

theorem setFilters_effect (hs : s.Kept) {viewer : Viewer} {d version : ℕ}
    (h : s.setFilters viewer d version = .ok s') : s.Effect s' := by
  obtain ⟨row, hrow, h⟩ := bind_eq_ok.1 h
  have hfind := visibleRow_eq_ok hrow
  obtain ⟨-, h⟩ := require_bind_eq_ok.1 h
  obtain ⟨-, h⟩ := require_bind_eq_ok.1 h
  cases h
  exact hs.edit hfind rfl rfl rfl rfl

theorem setShare_effect (hs : s.Kept) {viewer : Viewer} {d : ℕ} {wanted : List ℕ}
    (h : s.setShare viewer d wanted = .ok s') : s.Effect s' := by
  obtain ⟨row, hrow, h⟩ := bind_eq_ok.1 h
  have hfind := visibleRow_eq_ok hrow
  obtain ⟨-, h⟩ := require_bind_eq_ok.1 h
  obtain ⟨-, h⟩ := require_bind_eq_ok.1 h
  cases h
  exact hs.edit hfind rfl rfl rfl rfl

theorem updateTemplate_effect (hs : s.Kept) {known : List ℕ} {d : ℕ} {body : DashboardTemplateIn}
    {version : Option ℕ} (h : s.updateTemplate known d body version = .ok s') : s.Effect s' := by
  obtain ⟨row, hrow, h⟩ := bind_eq_ok.1 h
  have hfind := templateRow_eq_ok hrow
  obtain ⟨-, h⟩ := require_bind_eq_ok.1 h
  obtain ⟨roleIds, -, h⟩ := bind_eq_ok.1 h
  cases h
  exact hs.edit hfind rfl rfl rfl rfl

theorem deleteDashboard_effect {viewer : Viewer} {d : ℕ}
    (h : s.deleteDashboard viewer d = .ok s') : s.Effect s' := by
  obtain ⟨row, -, h⟩ := bind_eq_ok.1 h
  obtain ⟨-, h⟩ := require_bind_eq_ok.1 h
  obtain ⟨-, h⟩ := require_bind_eq_ok.1 h
  cases h
  exact .drop d

theorem deleteTemplate_effect {d : ℕ} (h : s.deleteTemplate d = .ok s') : s.Effect s' := by
  obtain ⟨row, -, h⟩ := bind_eq_ok.1 h
  cases h
  exact .drop d

theorem setOrder_effect {viewer : Viewer} {ids : List ℕ}
    (h : s.setOrder viewer ids = .ok s') : s.Effect s' := by
  obtain ⟨-, h⟩ := require_bind_eq_ok.1 h
  obtain ⟨-, h⟩ := require_bind_eq_ok.1 h
  cases h
  refine .order fun d row ↦ ?_
  split
  · exact ⟨_, rfl⟩
  · exact ⟨row.sort, rfl⟩

end State

variable [LinearOrder ι]

/-- What is pending: the widgets of a newer template that came later and are not copied. -/
theorem pendingUpdate_spec {s : State ι κ} {viewer : Viewer} {row template : TiqoraDashboard ι κ}
    {new : List (Widget ι κ)} (h : s.pendingUpdate viewer row = some (template, new)) :
    ∃ d seen, row.sourceTemplateId = some d ∧ row.sourceTemplateVersion = some seen ∧
      s.rows.find d = some template ∧ seen < template.version ∧
      new = template.widgets.filter fun w ↦ seen < w.addedInVersion.getD 0 ∧
        w.id ∉ row.widgets.filterMap (·.templateWidgetId) := by
  simp only [State.pendingUpdate, Option.bind_eq_bind, Option.bind_eq_some_iff] at h
  obtain ⟨_, -, d, hd, seen, hseen, template', htemplate, _, hguard, _, -, _, -, h⟩ := h
  have hversion := ((Option.guard_eq_some' _).1 hguard).2.2
  cases h
  refine ⟨d, seen, hd, hseen, htemplate, hversion, List.filter_congr fun w _ ↦ ?_⟩
  rw [decide_eq_decide, List.any_eq_false]
  refine and_congr_right fun _ ↦ ⟨fun hany hmem ↦ hany _ hmem (decide_eq_true rfl), ?_⟩
  rintro hmem id hid heq
  exact hmem (of_decide_eq_true heq ▸ hid)

theorem good_merged {s : State ι κ} {row template : TiqoraDashboard ι κ} (hrow : row.Good)
    (htemplate : template.Good) {new added : List (Widget ι κ)} {seen version : ℕ}
    (hversion : row.version ≤ version)
    (hnew : new = template.widgets.filter fun w ↦ seen < w.addedInVersion.getD 0 ∧
      w.id ∉ row.widgets.filterMap (·.templateWidgetId))
    (hfew : row.widgets.length + new.length ≤ maxWidgetsPerDashboard)
    (hplaced : Placed (row.widgets.map (·.layout.lg.toCell)) new added)
    (hfresh : s.Insertable added) {d : ℕ} (hfind : s.rows.find d = some row) :
    ({ row with version := version, widgets := row.widgets ++ added } :
      TiqoraDashboard ι κ).Good := by
  have hpast : ∀ b ∈ added, b.addedInVersion = none ∧ b.layout.md = none ∧
      ∃ a ∈ new, b.templateWidgetId = some a.id := by
    intro b hb
    obtain ⟨i, hi, rfl⟩ := List.mem_iff_getElem.1 hb
    have hsame := hplaced.same.get (hplaced.same.length_eq ▸ hi) hi
    exact ⟨hsame.2.2.1, hsame.2.2.2.1, _, List.getElem_mem _, hsame.2.1⟩
  have horigins : added.Pairwise fun a b ↦ ∀ id, a.templateWidgetId = some id →
      b.templateWidgetId ≠ some id := by
    refine hplaced.origins (htemplate.ids.sublist ?_)
    rw [hnew]
    exact List.filter_sublist.map _
  refine ⟨?_, ?_, ?_, ?_, ?_⟩
  · rw [List.map_append, List.nodup_append]
    refine ⟨hrow.ids, hfresh.1, fun a ha b hb heq ↦ ?_⟩
    obtain ⟨w, hw, rfl⟩ := List.mem_map.1 hb
    exact hfresh.2 w hw (d, row) (Table.find_eq_some.1 hfind) (heq ▸ ha)
  · refine List.pairwise_append.2 ⟨hrow.apart, ?_, fun a ha b hb ↦ ⟨fun id hid hid' ↦ ?_, ?_, ?_⟩⟩
    · refine (horigins.and hplaced.apart).imp_of_mem fun ha hb hab ↦ ⟨hab.1, hab.2, ?_⟩
      simp [(hpast _ ha).2.1]
    · obtain ⟨-, -, w, hw, horigin⟩ := hpast b hb
      rw [hnew] at hw
      have hnot := (of_decide_eq_true (List.mem_filter.1 hw).2).2
      rw [horigin] at hid'
      cases hid'
      exact hnot (List.mem_filterMap.2 ⟨a, ha, hid⟩)
    · rw [collides_comm]
      exact hplaced.free b hb _ (List.mem_map_of_mem ha)
    · simp [(hpast b hb).2.1]
  · intro w hw
    rcases List.mem_append.1 hw with hw | hw
    · exact hrow.inside w hw
    · refine ⟨hplaced.inside w hw, ?_⟩
      simp [(hpast w hw).2.1]
  · simpa [hplaced.same.length_eq] using hfew
  · intro w hw
    rcases List.mem_append.1 hw with hw | hw
    · exact (hrow.added w hw).trans hversion
    · simp [(hpast w hw).1]

namespace State

variable {s s' : State ι κ}

theorem saveDashboard_effect (hs : s.Kept) {checks : Checks κ} {viewer : Viewer} {d : ℕ}
    {body : DashboardSaveIn ι κ} (h : s.saveDashboard checks viewer d body = .ok s') :
    s.Effect s' := by
  obtain ⟨row, hrow, h⟩ := bind_eq_ok.1 h
  have hfind := visibleRow_eq_ok hrow
  obtain ⟨-, h⟩ := require_bind_eq_ok.1 h
  obtain ⟨-, h⟩ := require_bind_eq_ok.1 h
  obtain ⟨prepared, hprepared, h⟩ := bind_eq_ok.1 h
  obtain ⟨-, -, h⟩ := bind_eq_ok.1 h
  split at h
  · cases h
  · cases h
    exact .put hfind (good_saved (hs.good d row hfind) (prepareWidgets_spec hprepared))
      (Nat.le_succ _) rfl (.inl rfl)

theorem patchWidgetSettings_effect (hs : s.Kept) {checks : Checks κ} {viewer : Viewer} {d : ℕ}
    {id : ι} {version : ℕ} {content : κ}
    (h : s.patchWidgetSettings checks viewer d id version content = .ok s') : s.Effect s' := by
  obtain ⟨row, hrow, h⟩ := bind_eq_ok.1 h
  have hfind := visibleRow_eq_ok hrow
  obtain ⟨-, h⟩ := require_bind_eq_ok.1 h
  obtain ⟨-, h⟩ := require_bind_eq_ok.1 h
  obtain ⟨-, h⟩ := require_bind_eq_ok.1 h
  obtain ⟨content', -, h⟩ := bind_eq_ok.1 h
  obtain ⟨-, -, h⟩ := bind_eq_ok.1 h
  cases h
  refine .put hfind ((hs.good d row hfind).map (fun w ↦ ?_) rfl (Nat.le_succ _)) (Nat.le_succ _)
    rfl (.inl rfl)
  by_cases hw : w.id = id <;> simp [hw]

theorem addRow_effect {row : TiqoraDashboard ι κ} (h : s.addRow row = .ok s')
    (good : (row.widgets.map (·.id)).Nodup → row.Good)
    (source : ∀ t, row.sourceTemplateId = some t → ∃ template,
      s.rows.find t = some template ∧ row.sourceTemplateVersion = some template.version) :
    s.Effect s' := by
  obtain ⟨hfresh, h⟩ := require_bind_eq_ok.1 h
  cases h
  exact .add (good hfresh.1) source

theorem createTemplate_effect {known : List ℕ} {body : DashboardTemplateIn} {content : ℕ → κ}
    {fresh : ℕ → ι} (h : s.createTemplate known body content fresh = .ok s') : s.Effect s' := by
  obtain ⟨roleIds, -, h⟩ := bind_eq_ok.1 h
  exact addRow_effect h (good_defaultWidgets rfl) fun t ht ↦ by cases ht

theorem createDashboard_effect (hs : s.Kept) {viewer : Viewer} {copyFrom : Option ℕ}
    {fresh : ℕ → ι} (h : s.createDashboard viewer copyFrom fresh = .ok s') : s.Effect s' := by
  obtain ⟨-, h⟩ := require_bind_eq_ok.1 h
  cases copyFrom with
  | none =>
    obtain ⟨source, hsource, h⟩ := bind_eq_ok.1 h
    cases hsource
    refine addRow_effect h (fun hids ↦ ⟨hids, .nil, ?_, Nat.zero_le _, ?_⟩) fun t ht ↦ by cases ht
    all_goals exact fun w hw ↦ absurd hw List.not_mem_nil
  | some d =>
    obtain ⟨source, hsource, h⟩ := bind_eq_ok.1 h
    cases hrow : s.visibleRow viewer d with
    | error e => simp [hrow, Except.map] at hsource
    | ok row =>
      rw [hrow] at hsource
      cases hsource
      have hfind := visibleRow_eq_ok hrow
      simp only at h
      split at h
      · refine addRow_effect h (good_copyWidgets (hs.good d row hfind) rfl) fun t ht ↦ ?_
        cases ht
        exact ⟨row, hfind, rfl⟩
      · exact addRow_effect h (good_copyWidgets (hs.good d row hfind) rfl) fun t ht ↦ by cases ht

theorem ensureStart_effect (hs : s.Kept) {viewer : Viewer} {content : ℕ → κ} {fresh : ℕ → ι}
    (h : s.ensureStart viewer content fresh = .ok s') : s.Effect s' := by
  rw [ensureStart] at h
  split at h
  · cases h
    exact .same
  · split at h
    · rename_i d template hpick
      have hfind : s.rows.find d = some template := by
        have hmem := List.mem_of_mem_head? hpick
        exact Table.find_eq_some.2 (List.mem_filter.1 ((List.mem_insertionSort _).1 hmem)).1
      refine addRow_effect h (good_copyWidgets (hs.good d template hfind) rfl) fun t ht ↦ ?_
      cases ht
      exact ⟨template, hfind, rfl⟩
    · exact addRow_effect h (good_defaultWidgets rfl) fun t ht ↦ by cases ht

theorem applyUpdate_effect (hs : s.Kept) {viewer : Viewer} {d : ℕ} {action : UpdateAction}
    {version : ℕ} {fresh : ℕ → ι} (h : s.applyUpdate viewer d action version fresh = .ok s') :
    s.Effect s' := by
  obtain ⟨row, hrow, h⟩ := bind_eq_ok.1 h
  have hfind := ownedRow_eq_ok hrow
  obtain ⟨-, h⟩ := require_bind_eq_ok.1 h
  split at h
  · cases h
  · rename_i template new hpending
    obtain ⟨t, seen, ht, hseen, htemplate, hlt, hnew⟩ := pendingUpdate_spec hpending
    have hsource : ∃ t template', row.sourceTemplateId = some t ∧
        s.rows.find t = some template' ∧
        (∀ v, row.sourceTemplateVersion = some v → v < template'.version) ∧
        some template.version = some template'.version := by
      refine ⟨t, template, ht, htemplate, fun v hv ↦ ?_, rfl⟩
      rw [hseen] at hv
      cases hv
      exact hlt
    cases action with
    | dismiss =>
      cases h
      exact .put hfind ((hs.good d row hfind).same rfl (Nat.le_succ _)) (Nat.le_succ _) rfl
        (.inr hsource)
    | merge =>
      obtain ⟨hfew, h⟩ := require_bind_eq_ok.1 h
      obtain ⟨added, hadded, h⟩ := bind_eq_ok.1 h
      obtain ⟨hfresh, h⟩ := require_bind_eq_ok.1 h
      cases h
      refine .put hfind ?_ (Nat.le_succ _) rfl (.inr hsource)
      exact (good_merged (hs.good d row hfind) (hs.good t template htemplate) (Nat.le_succ _) hnew
        hfew (placeNew_spec hadded) hfresh hfind).same rfl le_rfl

theorem serve_effect (hs : s.Kept) {checks : Checks κ} {content : ℕ → κ} {a : Action ι κ}
    (h : s.serve checks content a = .ok s') : s.Effect s' := by
  cases a with
  | save viewer d body => exact saveDashboard_effect hs h
  | filters viewer d version => exact setFilters_effect hs h
  | settings viewer d id version value => exact patchWidgetSettings_effect hs h
  | share viewer d wanted => exact setShare_effect hs h
  | create viewer copyFrom fresh => exact createDashboard_effect hs h
  | delete viewer d => exact deleteDashboard_effect h
  | order viewer ids => exact setOrder_effect h
  | createTemplate known body fresh => exact createTemplate_effect h
  | updateTemplate known d body version => exact updateTemplate_effect hs h
  | deleteTemplate d => exact deleteTemplate_effect h
  | start viewer fresh => exact ensureStart_effect hs h
  | update viewer d action version fresh => exact applyUpdate_effect hs h

end State

end Tiqora.Dashboard
