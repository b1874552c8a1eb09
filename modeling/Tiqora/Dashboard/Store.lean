import Mathlib.Data.List.Sort
import Tiqora.Dashboard.Layout
import Tiqora.Foundation.Guarded
import Tiqora.Foundation.Machine
import Tiqora.Foundation.Tables

namespace Tiqora.Dashboard

open Tiqora.Foundation

def maxWidgetsPerDashboard : ℕ := 40

def maxDashboardsPerUser : ℕ := 20

def mediumCols : ℕ := 8

structure WidgetLayouts where
  lg : Rect
  md : Option Rect

/-- A row of widgets; the content is its type, title, settings and pin. -/
structure Widget (ι κ : Type) where
  id : ι
  content : κ
  layout : WidgetLayouts
  templateWidgetId : Option ι := none
  addedInVersion : Option ℕ := none

inductive Kind
  | personal | shared | template
  deriving DecidableEq

structure TiqoraDashboard (ι κ : Type) where
  kind : Kind
  ownerUserId : Option ℕ
  locked : Bool := false
  groupIds : List ℕ := []
  roleIds : List ℕ := []
  sort : ℕ
  version : ℕ := 1
  sourceTemplateId : Option ℕ := none
  sourceTemplateVersion : Option ℕ := none
  /-- In order of position. -/
  widgets : List (Widget ι κ)

inductive DashboardError
  | notFound
  | forbidden (message : String)
  | conflict (currentVersion : ℕ)
  | invalid (message path : String)
  /-- What no handler of the routes expects. -/
  | server
  deriving DecidableEq

def msgNotEditable : String := "Dieses Dashboard können Sie nicht bearbeiten."

def msgLimit : String := "Es sind höchstens 20 Dashboards möglich."

def msgWidgetIdTaken : String := "Diese Widget-ID ist schon vergeben."

def msgTemplateShare : String := "Vorlagen werden über die Rollen verteilt."

def msgLast : String := "Das letzte Dashboard bleibt bestehen."

def msgTooMany : String := "Das Dashboard hätte dann mehr als 40 Widgets."

/-- Who asks, with the groups that can be read and the valid roles. -/
structure Viewer where
  userId : ℕ
  admin : Bool
  groups : List ℕ
  roles : List ℕ

structure State (ι κ : Type) where
  rows : Table ℕ (TiqoraDashboard ι κ)
  /-- The keys of the rows are counted up and never come back. -/
  nextId : ℕ

section Rows

variable {ι κ : Type}

namespace State

variable (s : State ι κ)

def loadRow (d : ℕ) : Except DashboardError (TiqoraDashboard ι κ) :=
  match s.rows.find d with
  | none => .error .notFound
  | some row => .ok row

def put (d : ℕ) (row : TiqoraDashboard ι κ) : State ι κ := { s with rows := s.rows.set d (some row) }

def add (row : TiqoraDashboard ι κ) : State ι κ := ⟨s.rows.set s.nextId (some row), s.nextId + 1⟩

def drop (d : ℕ) : State ι κ := { s with rows := s.rows.set d none }

end State

def TiqoraDashboard.visible (row : TiqoraDashboard ι κ) (viewer : Viewer) : Bool :=
  match row.kind with
  | .personal => row.ownerUserId = some viewer.userId
  | .shared => row.ownerUserId = some viewer.userId || row.groupIds.any (· ∈ viewer.groups)
  | .template => viewer.admin || row.locked && row.roleIds.any (· ∈ viewer.roles)

def TiqoraDashboard.canEdit (row : TiqoraDashboard ι κ) (viewer : Viewer) : Bool :=
  if row.kind = .template then viewer.admin else row.ownerUserId = some viewer.userId

namespace State

variable (s : State ι κ)

def visibleRow (viewer : Viewer) (d : ℕ) : Except DashboardError (TiqoraDashboard ι κ) := do
  let row ← s.loadRow d
  require (row.visible viewer = true) .notFound
  return row

/-- Tab order. -/
def ownRows (userId : ℕ) : List (ℕ × TiqoraDashboard ι κ) :=
  (s.rows.rows.filter fun r ↦ r.2.kind ≠ .template && r.2.ownerUserId = some userId).insertionSort
    fun a b ↦ toLex (a.2.sort, a.1) ≤ toLex (b.2.sort, b.1)

def nextSort (userId : ℕ) : ℕ :=
  (s.ownRows userId).foldr (fun r sort ↦ max (r.2.sort + 1) sort) 0

/-- The widget ids of the other dashboards. -/
def idsElsewhere (d : ℕ) : List ι :=
  (s.rows.rows.filter (·.1 ≠ d)).flatMap fun r ↦ r.2.widgets.map (·.id)

end State

def requireEdit (row : TiqoraDashboard ι κ) (viewer : Viewer) : Except DashboardError Unit :=
  require (row.canEdit viewer = true) (.forbidden msgNotEditable)

def LayoutError.toDashboard : LayoutError → DashboardError
  | .tooHigh => .invalid "Das Layout ist zu hoch." "widgets"
  | .invalid => .server

structure WidgetIn (ι κ : Type) where
  id : ι
  content : κ
  layout : WidgetLayouts

structure DashboardSaveIn (ι κ : Type) where
  version : ℕ
  widgets : List (WidgetIn ι κ)
  few : widgets.length ≤ maxWidgetsPerDashboard
  unique : (widgets.map (·.id)).Nodup

variable [LinearOrder ι]

/-- What the widget types say of a content, with the place of the settings in the request for the
paths of the errors. -/
structure Checks (κ : Type) where
  settings : String → κ → Except DashboardError κ
  sources : String → κ → Except DashboardError Unit

def widgetPath (i : ℕ) : String := s!"widgets[{i}]."

/-- The widgets of a save with the layouts put in order and the settings checked. -/
def prepareWidgets (checks : Checks κ) (body : DashboardSaveIn ι κ) :
    Except DashboardError (List (WidgetIn ι κ)) := do
  let lg ← (normalizeRects gridCols (body.widgets.map fun w ↦ (w.id, w.layout.lg))).mapError
    LayoutError.toDashboard
  let md ← (normalizeRects mediumCols
    (body.widgets.filterMap fun w ↦ w.layout.md.map fun r ↦ (w.id, r))).mapError
    LayoutError.toDashboard
  body.widgets.zipIdx.mapM fun (w, i) ↦ do
    let content ← checks.settings (widgetPath i) w.content
    match lg.lookup w.id with
    | none => .error .server
    | some rect => .ok ⟨w.id, content, ⟨rect, md.lookup w.id⟩⟩

/-- A widget of the dashboard keeps its origin; a new one of a template notes the version that
the save makes. -/
def TiqoraDashboard.saved (row : TiqoraDashboard ι κ) (w : WidgetIn ι κ) : Widget ι κ :=
  match row.widgets.find? fun old ↦ old.id = w.id with
  | some old => { old with content := w.content, layout := w.layout }
  | none => {
      id := w.id, content := w.content, layout := w.layout
      addedInVersion := if row.kind = .template then some (row.version + 1) else none }

namespace State

variable (s : State ι κ)

def saveDashboard (checks : Checks κ) (viewer : Viewer) (d : ℕ)
    (body : DashboardSaveIn ι κ) : Except DashboardError (State ι κ) := do
  let row ← s.visibleRow viewer d
  requireEdit row viewer
  require (body.version = row.version) (.conflict row.version)
  let prepared ← prepareWidgets checks body
  prepared.zipIdx.forM fun (w, i) ↦ checks.sources (widgetPath i) w.content
  match prepared.findIdx? fun w ↦ (s.idsElsewhere d).any (· = w.id) with
  | some i => .error (.invalid msgWidgetIdTaken (widgetPath i ++ "id"))
  | none =>
    .ok (s.put d { row with version := row.version + 1, widgets := prepared.map row.saved })

omit [LinearOrder ι] in
def setFilters (viewer : Viewer) (d version : ℕ) : Except DashboardError (State ι κ) := do
  let row ← s.visibleRow viewer d
  requireEdit row viewer
  require (version = row.version) (.conflict row.version)
  return s.put d { row with version := row.version + 1 }

def patchWidgetSettings (checks : Checks κ) (viewer : Viewer) (d : ℕ)
    (id : ι) (version : ℕ) (content : κ) : Except DashboardError (State ι κ) := do
  let row ← s.visibleRow viewer d
  require (row.widgets.any (·.id = id) = true) .notFound
  requireEdit row viewer
  require (version = row.version) (.conflict row.version)
  let content ← checks.settings "" content
  checks.sources "" content
  return s.put d { row with
    version := row.version + 1
    widgets := row.widgets.map fun w ↦ if w.id = id then { w with content := content } else w }

/-- The groups are those the owner may share with. -/
def setShare (viewer : Viewer) (d : ℕ) (wanted : List ℕ) : Except DashboardError (State ι κ) := do
  let row ← s.visibleRow viewer d
  require (row.kind ≠ .template) (.forbidden msgTemplateShare)
  requireEdit row viewer
  return s.put d { row with
    kind := if wanted = [] then .personal else .shared
    groupIds := wanted
    version := row.version + 1 }

end State

end Rows

/-- The rectangles of the built-in default widgets. -/
def defaultCells : List Cell :=
  [⟨0, 0, 3, 2⟩, ⟨3, 0, 3, 2⟩, ⟨6, 0, 3, 2⟩, ⟨9, 0, 3, 2⟩, ⟨0, 2, 12, 3⟩, ⟨0, 5, 6, 5⟩, ⟨6, 5, 6, 5⟩,
    ⟨0, 10, 6, 5⟩, ⟨6, 10, 6, 5⟩, ⟨0, 15, 12, 2⟩, ⟨0, 17, 12, 3⟩]

def defaultRects : List Rect := defaultCells.filterMap fun c ↦ c.toRect.toOption

structure DashboardTemplateIn where
  sort : ℕ
  locked : Bool
  roleIds : List ℕ

variable {ι κ : Type} [LinearOrder ι]

/-- The default widgets with their contents and fresh ids. -/
def defaultWidgets (content : ℕ → κ) (fresh : ℕ → ι) : List (Widget ι κ) :=
  defaultRects.zipIdx.map fun (rect, i) ↦
    { id := fresh i, content := content i, layout := ⟨rect, none⟩ }

/-- Copies under fresh ids; those of a template's widgets name the widget they come from. -/
def copyWidgets (fresh : ℕ → ι) (fromTemplate : Bool) (ws : List (Widget ι κ)) :
    List (Widget ι κ) :=
  ws.zipIdx.map fun (w, i) ↦ {
    id := fresh i, content := w.content, layout := w.layout
    templateWidgetId := if fromTemplate then some w.id else none }

/-- Each widget on the first free spot after the ones before it. -/
def placeNew (fresh : ℕ → ι) : ℕ → List Cell → List (Widget ι κ) →
    Except DashboardError (List (Widget ι κ))
  | _, _, [] => .ok []
  | i, rects, w :: rest => do
    let size := w.layout.lg
    let spot := firstFreeSpot rects size.w size.h gridCols
    let placed ← (Cell.toRect ⟨spot.1, spot.2, size.w, size.h⟩).mapError fun _ ↦ .server
    let tail ← placeNew fresh (i + 1) (rects ++ [placed.toCell]) rest
    return {
      id := fresh i, content := w.content, layout := ⟨placed, none⟩
      templateWidgetId := some w.id } :: tail

inductive UpdateAction
  | merge | dismiss
  deriving DecidableEq

namespace State

variable (s : State ι κ)

/-- No id is used before: the ids are the primary key of the widgets. -/
def Insertable (ws : List (Widget ι κ)) : Prop :=
  (ws.map (·.id)).Nodup ∧ ∀ w ∈ ws, ∀ r ∈ s.rows.rows, w.id ∉ r.2.widgets.map (·.id)

instance (ws : List (Widget ι κ)) : Decidable (s.Insertable ws) :=
  inferInstanceAs (Decidable (_ ∧ _))

def addRow (row : TiqoraDashboard ι κ) : Except DashboardError (State ι κ) := do
  require (s.Insertable row.widgets) .server
  return s.add row

def createDashboard (viewer : Viewer) (copyFrom : Option ℕ) (fresh : ℕ → ι) :
    Except DashboardError (State ι κ) := do
  require ((s.ownRows viewer.userId).length < maxDashboardsPerUser) (.invalid msgLimit "name")
  let source ← match copyFrom with
    | none => .ok none
    | some d => (s.visibleRow viewer d).map fun row ↦ some (d, row)
  let blank : TiqoraDashboard ι κ := {
    kind := .personal, ownerUserId := some viewer.userId, sort := s.nextSort viewer.userId
    widgets := [] }
  match source with
  | none => s.addRow blank
  | some (d, row) =>
    if row.kind = .template then
      s.addRow { blank with
        sourceTemplateId := some d
        sourceTemplateVersion := some row.version
        widgets := copyWidgets fresh true row.widgets }
    else s.addRow { blank with widgets := copyWidgets fresh false row.widgets }

def deleteDashboard (viewer : Viewer) (d : ℕ) : Except DashboardError (State ι κ) := do
  let row ← s.visibleRow viewer d
  requireEdit row viewer
  require (row.kind = .template ∨ 1 < (s.ownRows viewer.userId).length) (.invalid msgLast "id")
  return s.drop d

def setOrder (viewer : Viewer) (ids : List ℕ) : Except DashboardError (State ι κ) := do
  require ids.Nodup (.invalid "Doppelte Einträge." "ids")
  let own := (s.ownRows viewer.userId).map (·.1)
  require (∀ d ∈ ids, d ∈ own) (.forbidden msgNotEditable)
  let ordered := ids ++ own.filter (· ∉ ids)
  return { s with rows := s.rows.update fun d row ↦
    if d ∈ ordered ∧ row.ownerUserId = some viewer.userId then
      { row with sort := ordered.idxOf d }
    else row }

def checkRoles (known roleIds : List ℕ) : Except DashboardError (List ℕ) :=
  match (sortedSet roleIds).find? (· ∉ known) with
  | some role => .error (.invalid s!"Die Rolle {role} gibt es nicht." "role_ids")
  | none => .ok (sortedSet roleIds)

def createTemplate (known : List ℕ) (body : DashboardTemplateIn) (content : ℕ → κ)
    (fresh : ℕ → ι) : Except DashboardError (State ι κ) := do
  let roleIds ← checkRoles known body.roleIds
  s.addRow {
    kind := .template, ownerUserId := none, locked := body.locked, roleIds := roleIds
    sort := body.sort, widgets := defaultWidgets content fresh }

def templateRow (d : ℕ) : Except DashboardError (TiqoraDashboard ι κ) := do
  let row ← s.loadRow d
  require (row.kind = .template) .notFound
  return row

def updateTemplate (known : List ℕ) (d : ℕ) (body : DashboardTemplateIn) (version : Option ℕ) :
    Except DashboardError (State ι κ) := do
  let row ← s.templateRow d
  require (∀ v ∈ version, v = row.version) (.conflict row.version)
  let roleIds ← checkRoles known body.roleIds
  return s.put d { row with
    sort := body.sort, locked := body.locked, roleIds := roleIds, version := row.version + 1 }

def deleteTemplate (d : ℕ) : Except DashboardError (State ι κ) := do
  let _ ← s.templateRow d
  return s.drop d

/-- The first unlocked template of the roles. -/
def pickTemplate (roles : List ℕ) : Option (ℕ × TiqoraDashboard ι κ) :=
  ((s.rows.rows.filter fun r ↦
    r.2.kind = .template && !r.2.locked && r.2.roleIds.any (· ∈ roles)).insertionSort
      fun a b ↦ toLex (a.2.sort, a.1) ≤ toLex (b.2.sort, b.1)).head?

/-- The first visit; a template that is there is copied. -/
def ensureStart (viewer : Viewer) (content : ℕ → κ) (fresh : ℕ → ι) :
    Except DashboardError (State ι κ) :=
  if s.ownRows viewer.userId ≠ [] then .ok s
  else match s.pickTemplate viewer.roles with
    | some (d, template) => s.addRow {
        kind := .personal, ownerUserId := some viewer.userId, sort := 0
        sourceTemplateId := some d, sourceTemplateVersion := some template.version
        widgets := copyWidgets fresh true template.widgets }
    | none => s.addRow {
        kind := .personal, ownerUserId := some viewer.userId, sort := 0
        sourceTemplateVersion := some 1, widgets := defaultWidgets content fresh }

/-- The source template of a personal copy and the widgets that the copy lacks. -/
def pendingUpdate (viewer : Viewer) (row : TiqoraDashboard ι κ) :
    Option (TiqoraDashboard ι κ × List (Widget ι κ)) := do
  guard (row.kind = .personal ∧ row.ownerUserId = some viewer.userId)
  let d ← row.sourceTemplateId
  let seen ← row.sourceTemplateVersion
  let template ← s.rows.find d
  guard (template.kind = .template ∧ template.locked = false ∧ seen < template.version)
  guard (template.roleIds.any (· ∈ viewer.roles) = true)
  let copied := row.widgets.filterMap (·.templateWidgetId)
  let new := template.widgets.filter fun w ↦
    seen < w.addedInVersion.getD 0 ∧ copied.any (· = w.id) = false
  guard (new.isEmpty = false)
  return (template, new)

def ownedRow (viewer : Viewer) (d : ℕ) : Except DashboardError (TiqoraDashboard ι κ) := do
  let row ← s.visibleRow viewer d
  require (row.ownerUserId = some viewer.userId) .notFound
  return row

def applyUpdate (viewer : Viewer) (d : ℕ) (action : UpdateAction) (version : ℕ) (fresh : ℕ → ι) :
    Except DashboardError (State ι κ) := do
  let row ← s.ownedRow viewer d
  require (row.version = version) (.conflict row.version)
  match s.pendingUpdate viewer row with
  | none => .error .notFound
  | some (template, new) =>
    let decided : TiqoraDashboard ι κ := { row with
      sourceTemplateVersion := some template.version, version := row.version + 1 }
    match action with
    | .dismiss => .ok (s.put d decided)
    | .merge =>
      require (row.widgets.length + new.length ≤ maxWidgetsPerDashboard)
        (.invalid msgTooMany "widgets")
      let added ← placeNew fresh 0 (row.widgets.map (·.layout.lg.toCell)) new
      require (s.Insertable added) .server
      .ok (s.put d { decided with widgets := row.widgets ++ added })

/-- What a merge would add. -/
def previewUpdate (viewer : Viewer) (d : ℕ) (fresh : ℕ → ι) :
    Except DashboardError (List (Widget ι κ)) := do
  let row ← s.ownedRow viewer d
  match s.pendingUpdate viewer row with
  | none => .error .notFound
  | some (_, new) => placeNew fresh 0 (row.widgets.map (·.layout.lg.toCell)) new

end State

/-- A request that the routes serve. -/
inductive Action (ι κ : Type)
  | save (viewer : Viewer) (d : ℕ) (body : DashboardSaveIn ι κ)
  | filters (viewer : Viewer) (d version : ℕ)
  | settings (viewer : Viewer) (d : ℕ) (id : ι) (version : ℕ) (content : κ)
  | share (viewer : Viewer) (d : ℕ) (wanted : List ℕ)
  | create (viewer : Viewer) (copyFrom : Option ℕ) (fresh : ℕ → ι)
  | delete (viewer : Viewer) (d : ℕ)
  | order (viewer : Viewer) (ids : List ℕ)
  | createTemplate (known : List ℕ) (body : DashboardTemplateIn) (fresh : ℕ → ι)
  | updateTemplate (known : List ℕ) (d : ℕ) (body : DashboardTemplateIn) (version : Option ℕ)
  | deleteTemplate (d : ℕ)
  | start (viewer : Viewer) (fresh : ℕ → ι)
  | update (viewer : Viewer) (d : ℕ) (action : UpdateAction) (version : ℕ) (fresh : ℕ → ι)

def State.serve (checks : Checks κ) (content : ℕ → κ) (s : State ι κ) :
    Action ι κ → Except DashboardError (State ι κ)
  | .save viewer d body => s.saveDashboard checks viewer d body
  | .filters viewer d version => s.setFilters viewer d version
  | .settings viewer d id version value => s.patchWidgetSettings checks viewer d id version value
  | .share viewer d wanted => s.setShare viewer d wanted
  | .create viewer copyFrom fresh => s.createDashboard viewer copyFrom fresh
  | .delete viewer d => s.deleteDashboard viewer d
  | .order viewer ids => s.setOrder viewer ids
  | .createTemplate known body fresh => s.createTemplate known body content fresh
  | .updateTemplate known d body version => s.updateTemplate known d body version
  | .deleteTemplate d => s.deleteTemplate d
  | .start viewer fresh => s.ensureStart viewer content fresh
  | .update viewer d action version fresh => s.applyUpdate viewer d action version fresh

/-- The store from its first day on, one request after the other; a request that fails is no
step. -/
def dashboards (checks : Checks κ) (content : ℕ → κ) : Machine (State ι κ) (Action ι κ) :=
  .ofNext (fun s ↦ s.rows = .empty ∧ s.nextId = 0) fun s a ↦ (s.serve checks content a).toOption

end Tiqora.Dashboard
