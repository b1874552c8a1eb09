import Tiqora.Foundation.Guarded
import Tiqora.Process.EngineRows

namespace Tiqora.Process.Engine

open Foundation Calendar
open Domain.DynamicField (FieldConfig Store HistoryRow isOf setTicketDynamicField
  dynamicFieldUpdate truncateHistoryParts readableHistoryValue readDfValues renderDfRows
  normalizeDfValues)

section Traced

variable {rows : List HistoryRow} {row : HistoryRow} {processEntityId : Text} {steps : List Step}

def stepOf (entered : Text × HistoryRow) : Step :=
  ⟨entered.1, entered.2.createTime, entered.2.createBy⟩

/-- The rows since the last one that put a ticket in its process tell its steps. -/
def Traced (rows : List HistoryRow) (processEntityId : Text) (steps : List Step) : Prop :=
  ∃ before row since, rows = before ++ row :: since ∧
    valueAfter row.name (fieldPrefix processIdDfName) = some processEntityId ∧
    (∀ later ∈ since,
      valueAfter later.name (fieldPrefix processIdDfName) ≠ some processEntityId) ∧
    ((row :: since).filterMap entered?).map stepOf = steps

theorem Traced.start (h : valueAfter row.name (fieldPrefix processIdDfName) = some processEntityId)
    (hother : entered? row = none) : Traced (rows ++ [row]) processEntityId [] :=
  ⟨rows, row, [], rfl, h, nofun, by rw [List.filterMap_cons_none hother]; rfl⟩

theorem Traced.append (h : Traced rows processEntityId steps)
    (hrow : valueAfter row.name (fieldPrefix processIdDfName) ≠ some processEntityId) :
    Traced (rows ++ [row]) processEntityId (steps ++ ((entered? row).map stepOf).toList) := by
  obtain ⟨before, first, since, rfl, hfirst, hsince, rfl⟩ := h
  refine ⟨before, first, since ++ [row], by simp, hfirst, fun later hlater ↦ ?_, ?_⟩
  · rcases List.mem_append.1 hlater with hlater | hlater
    · exact hsince later hlater
    · rwa [List.mem_singleton.1 hlater]
  · rw [← List.cons_append, List.filterMap_append, List.map_append]
    congr 1
    cases hentered : entered? row <;> simp [hentered]

/-- The path is read from the row that put the ticket in the process. -/
theorem Traced.read (h : Traced rows processEntityId steps) :
    ((rows.drop (enrolledAt processEntityId rows)).filterMap entered?).map stepOf = steps := by
  obtain ⟨before, row, since, rfl, hrow, hsince, hsteps⟩ := h
  have hnone : ∀ n, (since.zipIdx n).filter (fun later ↦
      valueAfter later.1.name (fieldPrefix processIdDfName) = some processEntityId) = [] := by
    intro n
    rw [List.filter_eq_nil_iff]
    rintro ⟨later, i⟩ hlater
    simpa using hsince later (List.fst_mem_of_mem_zipIdx hlater)
  have hat : enrolledAt processEntityId (before ++ row :: since) = before.length := by
    rw [enrolledAt, List.zipIdx_append, List.filter_append, List.zipIdx_cons,
      List.filter_cons_of_pos (by simpa using hrow), hnone, List.getLast?_append]
    simp
  rw [hat, List.drop_left, hsteps]

end Traced

/-- What a ticket's enrolment tells of the tables. -/
structure TicketKept (pf af : FieldConfig) (db : Store) (ticketId : ℕ) (e : Enrolment) : Prop where
  process : db.values.filter (isOf pf ticketId) = e.process.toList.map (textRow pf ticketId)
  activity : db.values.filter (isOf af ticketId) = e.activity.toList.map (textRow af ticketId)
  processId : ∀ v ∈ e.process, EntityId v
  activityId : ∀ v ∈ e.activity, EntityId v
  path : ∀ p, e.process = some p → Traced (updateRows ticketId db) p e.entered

section Write

variable {fields : List FieldConfig} {pf af field : FieldConfig} {db db' : Store}
  {ticketId userId : ℕ} {now : Datetime} {e : Enrolment} {w : FieldWrite} {new : List Text}

theorem Suited.ids_ne (hf : Suited fields pf af) : af.id ≠ pf.id := by
  intro hid
  have heq := hf.ids _ (List.mem_of_find?_eq_some hf.activity) _
    (List.mem_of_find?_eq_some hf.process) hid
  have hprocess := List.find?_some hf.process
  have hactivity := List.find?_some hf.activity
  rw [heq] at hactivity
  simp only [decide_eq_true_eq] at hprocess hactivity
  exact names_ne (hprocess.symm.trans hactivity)

theorem load_name {name : Text} (h : loadTicketDynamicField fields name = some field) :
    field.name = name := by
  have hfound := List.find?_some h
  exact of_decide_eq_true hfound

theorem load_mem {name : Text} (h : loadTicketDynamicField fields name = some field) :
    field ∈ fields := List.mem_of_find?_eq_some h

theorem updateDynamicField_ok
    (h : updateDynamicField fields ticketId userId now db w = .ok db') :
    loadTicketDynamicField fields w.1 = none ∧ db' = db ∨
      ∃ field new, loadTicketDynamicField fields w.1 = some field ∧
        normalizeDfValues field.fieldType w.2 = .ok new ∧
        ((readDfValues field db ticketId).1 = new ∧ db' = db ∨
          ((readDfValues field db ticketId).2 = true ∨ (readDfValues field db ticketId).1 ≠ new) ∧
            Wrote field ticketId userId now new db db') := by
  rw [updateDynamicField] at h
  split at h
  · next hload =>
    cases h
    exact .inl ⟨hload, rfl⟩
  · next field hload =>
    split at h
    · cases h
    · next hset =>
      cases h
      obtain ⟨new, hnew, houtcome⟩ := setTicketDynamicField_ok hset
      exact .inr ⟨field, new, hload, hnew, houtcome⟩

/-- A write of one of the two fields. -/
theorem update_own (hload : loadTicketDynamicField fields w.1 = some field)
    (hkeeps : keepsTexts field.fieldType = true) {old : List Text}
    (hvalues : db.values.filter (isOf field ticketId) = old.map (textRow field ticketId))
    (h : updateDynamicField fields ticketId userId now db w = .ok db') :
    w.asked = old ∧ db' = db ∨ w.asked ≠ old ∧ Wrote field ticketId userId now w.asked db db' := by
  have hread := readDfValues_texts hkeeps hvalues
  rcases updateDynamicField_ok h with ⟨hnone, -⟩ | ⟨field', new, hload', hnew, houtcome⟩
  · rw [hload] at hnone
    cases hnone
  · cases hload.symm.trans hload'
    obtain rfl := normalize_texts hkeeps hnew
    rw [hread] at houtcome
    rcases houtcome with ⟨heq, rfl⟩ | ⟨hne, hwrote⟩
    · exact .inl ⟨heq.symm, rfl⟩
    · exact .inr ⟨(hne.resolve_left Bool.false_ne_true).symm, hwrote⟩

/-- What a write of one ticket does not touch. -/
theorem TicketKept.frame {t : ℕ} (ht : t ≠ ticketId) (hwrote : Wrote field ticketId userId now new db db')
    (h : TicketKept pf af db t e) : TicketKept pf af db' t e := by
  obtain ⟨row, -, -, -, hhistory, hnoted, -, -⟩ := hwrote.history
  have hrows : updateRows t db' = updateRows t db := by
    rw [updateRows_append hwrote.types hhistory hnoted, if_neg ht, List.append_nil]
  refine ⟨?_, ?_, h.processId, h.activityId, fun p hp ↦ ?_⟩
  · rw [hwrote.values_other fun hsame ↦ ht hsame.2, h.process]
  · rw [hwrote.values_other fun hsame ↦ ht hsame.2, h.activity]
  · rw [hrows]
    exact h.path p hp

theorem row_unique {row row' : HistoryRow} (h : db'.history = db.history ++ [row])
    (h' : db'.history = db.history ++ [row']) : row = row' :=
  List.singleton_inj.1 (List.append_cancel_left (h.symm.trans h'))

theorem entered?_none {row : HistoryRow}
    (h : valueAfter row.name (fieldPrefix activityIdDfName) = none) : entered? row = none := by
  rw [entered?, h]
  rfl

/-- A ticket is put in a process, or taken out of it. -/
theorem TicketKept.setProcess (hf : Suited fields pf af) (h : TicketKept pf af db ticketId e)
    (hone : OneId new) (hwrote : Wrote pf ticketId userId now new db db') :
    TicketKept pf af db' ticketId { e with process := new.head?, entered := [] } := by
  have hname := load_name hf.process
  have hread := readDfValues_texts hf.processTexts h.process
  have hold : OneId e.process.toList := by
    refine ⟨by cases e.process <;> simp, fun v hv ↦ h.processId v (Option.mem_toList.1 hv)⟩
  obtain ⟨row, hhistory, hnoted, hown⟩ := valueAfter_of_own (hname ▸ plain_processIdDfName)
    hf.processTexts hone hold hread hwrote
  obtain ⟨row', hhistory', -, hother⟩ := valueAfter_of_other plain_activityIdDfName
    (hf.names pf (load_mem hf.process)) (hname ▸ names_ne) hwrote
  obtain rfl := row_unique hhistory hhistory'
  refine ⟨?_, ?_, fun v hv ↦ hone.2 v (List.mem_of_mem_head? hv), h.activityId, fun p hp ↦ ?_⟩
  · rw [hwrote.values_self hf.processTexts, ← hone.toList]
  · rw [hwrote.values_other fun hsame ↦ hf.ids_ne hsame.1, h.activity]
  · rw [updateRows_append hwrote.types hhistory hnoted, if_pos rfl]
    refine Traced.start ?_ (entered?_none hother)
    rw [← hname, hown]
    cases new with
    | nil => cases hp
    | cons v new => exact hp

/-- A ticket enters an activity, or leaves all. -/
theorem TicketKept.setActivity (hf : Suited fields pf af) (h : TicketKept pf af db ticketId e)
    (hone : OneId new) (hwrote : Wrote af ticketId userId now new db db') :
    TicketKept pf af db' ticketId { e with
      activity := new.head?
      entered := e.entered ++ (new.head?.map (⟨·, now, userId⟩)).toList } := by
  have hname := load_name hf.activity
  have hread := readDfValues_texts hf.activityTexts h.activity
  have hold : OneId e.activity.toList := by
    refine ⟨by cases e.activity <;> simp, fun v hv ↦ h.activityId v (Option.mem_toList.1 hv)⟩
  obtain ⟨row, hhistory, hnoted, hown⟩ := valueAfter_of_own (hname ▸ plain_activityIdDfName)
    hf.activityTexts hone hold hread hwrote
  obtain ⟨row', hhistory', -, hother⟩ := valueAfter_of_other plain_processIdDfName
    (hf.names af (load_mem hf.activity)) (hname ▸ names_ne.symm) hwrote
  obtain rfl := row_unique hhistory hhistory'
  refine ⟨?_, ?_, h.processId, fun v hv ↦ hone.2 v (List.mem_of_mem_head? hv), fun p hp ↦ ?_⟩
  · rw [hwrote.values_other fun hsame ↦ hf.ids_ne hsame.1.symm, h.process]
  · rw [hwrote.values_self hf.activityTexts, ← hone.toList]
  · have hentered : (entered? row).map stepOf = new.head?.map (⟨·, now, userId⟩) := by
      rw [entered?, ← hname, hown]
      cases new with
      | nil => rfl
      | cons v new =>
        have hv := (hone.2 v List.mem_cons_self).nonempty
        simp [hv, stepOf, hnoted.createTime, hnoted.createBy]
    rw [updateRows_append hwrote.types hhistory hnoted, if_pos rfl, ← hentered]
    refine (h.path p hp).append ?_
    rw [hother]
    exact nofun

/-- Another field is written. -/
theorem TicketKept.setOther (hf : Suited fields pf af) (h : TicketKept pf af db ticketId e)
    (hload : loadTicketDynamicField fields w.1 = some field) (hprocess : w.1 ≠ processIdDfName)
    (hactivity : w.1 ≠ activityIdDfName) (hwrote : Wrote field ticketId userId now new db db') :
    TicketKept pf af db' ticketId e := by
  have hname := load_name hload
  have hne : ∀ {g name}, loadTicketDynamicField fields name = some g → w.1 ≠ name →
      g.id ≠ field.id := by
    intro g name hg hw hid
    obtain rfl := hf.ids _ (load_mem hg) _ (load_mem hload) hid
    exact hw (hname.symm.trans (load_name hg))
  have hmark := hf.names field (load_mem hload)
  obtain ⟨row, hhistory, hnoted, hfirst⟩ := valueAfter_of_other plain_processIdDfName hmark
    (hname ▸ hprocess) hwrote
  obtain ⟨row', hhistory', -, hother⟩ := valueAfter_of_other plain_activityIdDfName hmark
    (hname ▸ hactivity) hwrote
  obtain rfl := row_unique hhistory hhistory'
  refine ⟨?_, ?_, h.processId, h.activityId, fun p hp ↦ ?_⟩
  · rw [hwrote.values_other fun hsame ↦ hne hf.process hprocess hsame.1, h.process]
  · rw [hwrote.values_other fun hsame ↦ hne hf.activity hactivity hsame.1, h.activity]
  · rw [updateRows_append hwrote.types hhistory hnoted, if_pos rfl]
    have hskipped : e.entered ++ ((entered? row).map stepOf).toList = e.entered := by
      rw [entered?_none hother, Option.map_none, Option.toList_none, List.append_nil]
    rw [← hskipped]
    refine (h.path p hp).append ?_
    rw [hfirst]
    exact nofun

theorem Enrolment.write_other (hprocess : w.1 ≠ processIdDfName) (hactivity : w.1 ≠ activityIdDfName) :
    e.write userId now w = e := by
  rw [Enrolment.write, if_neg hprocess, if_neg hactivity]

theorem TicketKept.write (hf : Suited fields pf af) (h : TicketKept pf af db ticketId e)
    (hw : w.Tame) (hupdate : updateDynamicField fields ticketId userId now db w = .ok db') :
    TicketKept pf af db' ticketId (e.write userId now w) := by
  by_cases hprocess : w.1 = processIdDfName
  · have hone : OneId w.asked := hw (.inl hprocess)
    have hwrite : e.write userId now w = e.setProcess w.asked.head? := by
      rw [Enrolment.write]
      exact if_pos hprocess
    rw [hwrite, Enrolment.setProcess]
    rcases update_own (hprocess ▸ hf.process) hf.processTexts h.process hupdate with
      ⟨heq, rfl⟩ | ⟨hne, hwrote⟩
    · rw [if_pos (by rw [heq, Option.head?_toList])]
      exact h
    · rw [if_neg fun heq ↦ hne (by rw [← heq, ← hone.toList])]
      exact h.setProcess hf hone hwrote
  · by_cases hactivity : w.1 = activityIdDfName
    · have hone : OneId w.asked := hw (.inr hactivity)
      have hwrite : e.write userId now w = e.setActivity userId now w.asked.head? := by
        rw [Enrolment.write, if_neg hprocess, if_pos hactivity, FieldWrite.asked]
      rw [hwrite, Enrolment.setActivity]
      rcases update_own (hactivity ▸ hf.activity) hf.activityTexts h.activity hupdate with
        ⟨heq, rfl⟩ | ⟨hne, hwrote⟩
      · rw [if_pos (by rw [heq, Option.head?_toList])]
        exact h
      · rw [if_neg fun heq ↦ hne (by rw [← heq, ← hone.toList])]
        exact h.setActivity hf hone hwrote
    · rw [Enrolment.write_other hprocess hactivity]
      rcases updateDynamicField_ok hupdate with
        ⟨-, rfl⟩ | ⟨field, new, hload, -, ⟨-, rfl⟩ | ⟨-, hwrote⟩⟩
      · exact h
      · exact h
      · exact h.setOther hf hload hprocess hactivity hwrote

theorem TicketKept.elsewhere {t : ℕ} (ht : t ≠ ticketId) (h : TicketKept pf af db t e)
    (hupdate : updateDynamicField fields ticketId userId now db w = .ok db') :
    TicketKept pf af db' t e := by
  rcases updateDynamicField_ok hupdate with
    ⟨-, rfl⟩ | ⟨field, new, -, -, ⟨-, rfl⟩ | ⟨-, hwrote⟩⟩
  · exact h
  · exact h
  · exact h.frame ht hwrote

/-- The writes of a request keep what the enrolments tell. -/
theorem updateDynamicFields_kept (hf : Suited fields pf af) {enrolment : ℕ → Enrolment}
    (writes : List FieldWrite) (hw : ∀ w ∈ writes, w.Tame)
    (h : ∀ t, TicketKept pf af db t (Function.update enrolment ticketId e t))
    (hupdate : updateDynamicFields fields ticketId userId now writes db = .ok db') (t : ℕ) :
    TicketKept pf af db' t
      (Function.update enrolment ticketId (writes.foldl (·.write userId now ·) e) t) := by
  induction writes generalizing db e with
  | nil =>
    cases hupdate
    exact h t
  | cons w writes ih =>
    obtain ⟨mid, hmid, hrest⟩ := bind_eq_ok.1 hupdate
    obtain ⟨hhead, htail⟩ := List.forall_mem_cons.1 hw
    refine ih htail (fun t ↦ ?_) hrest
    have ht := h t
    by_cases heq : t = ticketId
    · subst heq
      rw [Function.update_self] at ht ⊢
      exact ht.write hf hhead hmid
    · rw [Function.update_of_ne heq] at ht ⊢
      exact ht.elsewhere heq hmid

end Write

/-- What holds of all tickets. -/
def Kept (pf af : FieldConfig) (s : World) : Prop :=
  ∀ ticketId, TicketKept pf af s.db ticketId (s.enrolment ticketId)

/-- The start and the targets of a process are ids. -/
structure SourceIds (source : ProcessSource) : Prop where
  start : ∀ p rec, source.process p = some rec → ∀ a ∈ rec.config.startActivity, EntityId a
  target : ∀ p rec, source.process p = some rec → ∀ outgoing ∈ rec.config.path,
    ∀ entry ∈ outgoing.2, EntityId entry.2

/-- The requests write at most one id to the two fields, and no other row is one of a field. -/
def TameAction (s : World) (a : Action) : Prop :=
  match a.request with
  | .start processEntityId => EntityId processEntityId
  | .submit writes _ _ _ actions => (∀ w ∈ writes, w.Tame) ∧ ∀ w ∈ actions, w.Tame
  | .write w => w.Tame
  | .other _ row => s.db.historyTypes.lookup dynamicFieldUpdate ≠ some row.historyTypeId

/-- The two fields are left to the process. -/
def Untouched (w : FieldWrite) : Prop := w.1 ≠ processIdDfName ∧ w.1 ≠ activityIdDfName

def EngineAction (a : Action) : Prop :=
  match a.request with
  | .start _ => True
  | .submit writes _ _ _ actions => (∀ w ∈ writes, Untouched w) ∧ ∀ w ∈ actions, Untouched w
  | .write w => Untouched w
  | .other _ _ => True

/-- A transition of a process leads from an activity to another. -/
def ProcessSource.Leads (source : ProcessSource) (config : ProcessConfig) (a b : Text) : Prop :=
  ∃ transitions entityId, (a, transitions) ∈ config.path ∧ (entityId, b) ∈ transitions ∧
    (source.transition entityId).isSome

section Serve

variable {fields : List FieldConfig} {source : ProcessSource} {pf af : FieldConfig} {s s' : World}
  {ticketId userId : ℕ} {now : Datetime} {writes : List FieldWrite}

theorem tame_id {name v : Text} (h : EntityId v) : FieldWrite.Tame (name, [v]) := by
  intro _
  have hasked : FieldWrite.asked (name, [v]) = [v] := List.filter_cons_of_pos (by simpa using h.nonempty)
  rw [hasked]
  exact ⟨le_rfl, fun u hu ↦ List.mem_singleton.1 hu ▸ h⟩

theorem Kept.update (hf : Suited fields pf af) (hs : Kept pf af s) (hw : ∀ w ∈ writes, w.Tame)
    (h : s.update fields ticketId userId now writes = .ok s') : Kept pf af s' := by
  obtain ⟨db, hdb, h⟩ := bind_eq_ok.1 h
  cases h
  refine updateDynamicFields_kept hf writes hw (fun t ↦ ?_) hdb
  rw [Function.update_eq_self]
  exact hs t

theorem storedText_of_kept {field : FieldConfig} {db : Store} {value : Option Text}
    (h : db.values.filter (isOf field ticketId) = value.toList.map (textRow field ticketId))
    (hid : ∀ v ∈ value, EntityId v) : storedText field ticketId db = value := by
  rw [storedText, h]
  cases value with
  | none => rfl
  | some v =>
    have hv := (hid v rfl).nonempty
    simp [textRow, hv]

/-- Where a ticket is. -/
theorem getTicketProcessState_of_kept (hf : Suited fields pf af) {db : Store} {e : Enrolment}
    (h : TicketKept pf af db ticketId e) : getTicketProcessState fields ticketId db =
      e.process.bind fun p ↦ e.activity.map fun a ↦ ⟨p, a⟩ := by
  rw [getTicketProcessState, hf.process, hf.activity]
  simp only [Option.bind_eq_bind, Option.bind_some, storedText_of_kept h.process h.processId,
    storedText_of_kept h.activity h.activityId]
  cases e.process <;> cases e.activity <;> rfl

theorem startProcess_ok {p : Text} {db : Store}
    (h : startProcess fields source ticketId p db = .ok writes) :
    ∃ rec a, source.process p = some rec ∧ rec.config.startActivity = some a ∧
      getTicketProcessState fields ticketId db = none ∧
      writes = [(processIdDfName, [p]), (activityIdDfName, [a])] := by
  rw [startProcess] at h
  split at h
  · cases h
  · next a hstart =>
    split at h
    · cases h
    · next hfree =>
      cases h
      obtain ⟨graph, hgraph, hactivity⟩ := Option.bind_eq_some_iff.1 hstart
      obtain ⟨rec, hrec, rfl⟩ := Option.map_eq_some_iff.1 hgraph
      exact ⟨rec, a, hrec, hactivity, Option.not_isSome_iff_eq_none.1 hfree, rfl⟩

theorem firstTransition_mem {rt : Runtime} {data : Data} {tags : List (Text × Text)}
    {transitions : List TransitionNode} {t : TransitionNode}
    (h : firstTransition rt data tags transitions = .ok (some t)) : t ∈ transitions := by
  induction transitions with
  | nil => cases h
  | cons candidate rest ih =>
    rw [firstTransition] at h
    split at h
    · cases h
      exact List.mem_cons_self
    · exact List.mem_cons_of_mem _ (ih h)
    · cases h
    · cases h

theorem lookup_mem {α : Type} {xs : List (Text × α)} {k : Text} {v : α}
    (h : xs.lookup k = some v) : (k, v) ∈ xs := by
  induction xs with
  | nil => cases h
  | cons x xs ih =>
    rw [List.lookup_cons] at h
    split at h
    · next heq =>
      cases h
      rw [eq_of_beq heq]
      exact List.mem_cons_self
    · exact List.mem_cons_of_mem _ (ih h)

/-- What a run of the transitions writes. -/
theorem runTransitions_ok {rt : Runtime} {data : Data} {tags : List (Text × Text)}
    {actions moves : List FieldWrite} {db : Store}
    (h : runTransitions fields source ticketId rt data tags actions db = .ok moves) :
    moves = [] ∨ ∃ state rec target,
      getTicketProcessState fields ticketId db = some state ∧
      source.process state.processEntityId = some rec ∧
      source.Leads rec.config state.activityEntityId target ∧
      moves = (activityIdDfName, [target]) :: actions := by
  rw [runTransitions] at h
  split at h
  · cases h
    exact .inl rfl
  · next state hstate =>
    split at h
    · cases h
      exact .inl rfl
    · next graph hgraph =>
      obtain ⟨rec, hrec, rfl⟩ := Option.map_eq_some_iff.1 hgraph
      split at h
      · split at h
        · cases h
          exact .inl rfl
        · next outgoing houtgoing =>
          split at h
          · cases h
          · cases h
            exact .inl rfl
          · next transition hfirst =>
            cases h
            refine .inr ⟨state, rec, _, hstate, hrec, ?_, rfl⟩
            have hmem := (List.mem_insertionSort _).1 (firstTransition_mem hfirst)
            obtain ⟨a, -, heq⟩ := List.mem_map.1 (lookup_mem houtgoing)
            cases heq
            obtain ⟨entry, hentry, hnode⟩ := List.mem_filterMap.1 hmem
            obtain ⟨config, hconfig, rfl⟩ := Option.map_eq_some_iff.1 hnode
            cases hlookup : rec.config.path.lookup state.activityEntityId with
            | none =>
              rw [hlookup] at hentry
              cases hentry
            | some transitions =>
              rw [hlookup] at hentry
              exact ⟨transitions, entry.1, lookup_mem hlookup, hentry, by rw [hconfig]; rfl⟩
      · cases h
        exact .inl rfl

theorem SourceIds.of_leads (hids : SourceIds source) {p a b : Text} {rec : ProcessRecord}
    (hrec : source.process p = some rec) (h : source.Leads rec.config a b) : EntityId b := by
  obtain ⟨transitions, entityId, hout, hentry, -⟩ := h
  exact hids.target p rec hrec _ hout _ hentry

theorem Kept.serve (hf : Suited fields pf af) (hids : SourceIds source) (hs : Kept pf af s)
    {a : Action} (ha : TameAction s a) (h : s.serve fields source a = .ok s') : Kept pf af s' := by
  obtain ⟨ticketId, userId, now, request⟩ := a
  cases request with
  | start p =>
    obtain ⟨writes, hwrites, h⟩ := bind_eq_ok.1 h
    obtain ⟨rec, start, hrec, hstart, -, rfl⟩ := startProcess_ok hwrites
    refine hs.update hf (List.forall_mem_cons.2 ⟨tame_id ha, ?_⟩) h
    exact List.forall_mem_singleton.2 (tame_id (hids.start p rec hrec start hstart))
  | submit writes rt data tags actions =>
    obtain ⟨-, -, h⟩ := bind_eq_ok.1 h
    obtain ⟨mid, hmid, h⟩ := bind_eq_ok.1 h
    obtain ⟨moves, hmoves, h⟩ := bind_eq_ok.1 h
    refine (hs.update hf ha.1 hmid).update hf ?_ h
    rcases runTransitions_ok hmoves with rfl | ⟨state, rec, target, -, hrec, hleads, rfl⟩
    · exact nofun
    · exact List.forall_mem_cons.2 ⟨tame_id (hids.of_leads hrec hleads), ha.2⟩
  | write w => exact hs.update hf (List.forall_mem_singleton.2 ha) h
  | other tickets row =>
    cases h
    intro t
    have hrows : ∀ db', db' = { s.db with tickets := tickets, history := s.db.history ++ [row] } →
        updateRows t db' = updateRows t s.db := by
      rintro _ rfl
      have hother : s.db.historyTypes.lookup dynamicFieldUpdate ≠ some row.historyTypeId := ha
      rw [updateRows, updateRows, List.filter_append]
      simp [hother]
    exact ⟨(hs t).process, (hs t).activity, (hs t).processId, (hs t).activityId, fun p hp ↦
      hrows _ rfl ▸ (hs t).path p hp⟩

end Serve

section Walks

variable {fields : List FieldConfig} {source : ProcessSource} {pf af : FieldConfig} {s s' : World}
  {ticketId userId : ℕ} {now : Datetime} {e : Enrolment}

/-- The activities of a way through a process, and where it ends. -/
inductive ProcessSource.Walk (source : ProcessSource) (config : ProcessConfig) : List Text → Text → Prop
  | start {a : Text} (h : config.startActivity = some a) : Walk source config [a] a
  | move {walk : List Text} {a b : Text} (h : Walk source config walk a)
      (leads : source.Leads config a b) (hne : b ≠ a) : Walk source config (walk ++ [b]) b

theorem ProcessSource.Walk.last {config : ProcessConfig} {walk : List Text} {a : Text}
    (h : source.Walk config walk a) : walk.getLast? = some a := by
  cases h with
  | start => rfl
  | move => rw [List.getLast?_concat]

/-- A ticket in a process is at the end of a way through it. -/
def Walked (source : ProcessSource) (e : Enrolment) : Prop :=
  e = ⟨none, none, []⟩ ∨ ∃ p rec a, e.process = some p ∧ source.process p = some rec ∧
    e.activity = some a ∧ source.Walk rec.config (e.entered.map (·.activityEntityId)) a

theorem foldl_untouched (writes : List FieldWrite) (h : ∀ w ∈ writes, Untouched w) :
    writes.foldl (·.write userId now ·) e = e := by
  induction writes with
  | nil => rfl
  | cons w writes ih =>
    obtain ⟨hw, hwrites⟩ := List.forall_mem_cons.1 h
    rw [List.foldl_cons, Enrolment.write_other hw.1 hw.2, ih hwrites]

theorem write_process {v : Text} (hv : v ≠ []) :
    e.write userId now (processIdDfName, [v]) = e.setProcess (some v) := by
  rw [Enrolment.write, if_pos rfl]
  simp [hv]

theorem write_activity {v : Text} (hv : v ≠ []) :
    e.write userId now (activityIdDfName, [v]) = e.setActivity userId now (some v) := by
  rw [Enrolment.write, if_neg names_ne.symm, if_pos rfl]
  simp [hv]

theorem update_eq {writes : List FieldWrite}
    (h : s.update fields ticketId userId now writes = .ok s') :
    s'.enrolment = Function.update s.enrolment ticketId
      (writes.foldl (·.write userId now ·) (s.enrolment ticketId)) := by
  obtain ⟨db, -, h⟩ := bind_eq_ok.1 h
  cases h
  rfl

theorem Walked.update (hs : ∀ t, Walked source (s.enrolment t)) {writes : List FieldWrite}
    (hwalked : Walked source (writes.foldl (·.write userId now ·) (s.enrolment ticketId)))
    (h : s.update fields ticketId userId now writes = .ok s') (t : ℕ) :
    Walked source (s'.enrolment t) := by
  rw [update_eq h]
  by_cases ht : t = ticketId
  · subst ht
    rwa [Function.update_self]
  · rw [Function.update_of_ne ht]
    exact hs t

theorem Walked.serve (hf : Suited fields pf af) (hids : SourceIds source) (hkept : Kept pf af s)
    (hs : ∀ t, Walked source (s.enrolment t)) {a : Action} (ha : TameAction s a)
    (hengine : EngineAction a) (h : s.serve fields source a = .ok s') (t : ℕ) :
    Walked source (s'.enrolment t) := by
  obtain ⟨ticketId, userId, now, request⟩ := a
  cases request with
  | start p =>
    obtain ⟨writes, hwrites, h⟩ := bind_eq_ok.1 h
    obtain ⟨rec, start, hrec, hstart, hfree, rfl⟩ := startProcess_ok hwrites
    have hp : p ≠ [] := (show EntityId p from ha).nonempty
    have hstartId := (hids.start p rec hrec start hstart).nonempty
    refine Walked.update hs ?_ h t
    rw [getTicketProcessState_of_kept hf (hkept ticketId)] at hfree
    rcases hs ticketId with heq | ⟨q, -, b, hq, -, hb, -⟩
    · rw [heq, List.foldl_cons, List.foldl_cons, List.foldl_nil, write_process hp,
        write_activity hstartId, Enrolment.setProcess, if_neg nofun, Enrolment.setActivity,
        if_neg nofun]
      exact .inr ⟨p, rec, start, rfl, hrec, rfl, .start hstart⟩
    · rw [hq, hb] at hfree
      cases hfree
  | submit writes rt data tags actions =>
    obtain ⟨-, -, h⟩ := bind_eq_ok.1 h
    obtain ⟨mid, hmid, h⟩ := bind_eq_ok.1 h
    obtain ⟨moves, hmoves, h⟩ := bind_eq_ok.1 h
    have hsame : mid.enrolment = s.enrolment := by
      rw [update_eq hmid, foldl_untouched writes hengine.1, Function.update_eq_self]
    have hkept' := hkept.update hf ha.1 hmid
    refine Walked.update (fun t ↦ hsame ▸ hs t) ?_ h t
    rw [hsame]
    rcases runTransitions_ok hmoves with rfl | ⟨state, rec, target, hstate, hrec, hleads, rfl⟩
    · exact hs ticketId
    · rw [getTicketProcessState_of_kept hf (hkept' ticketId), hsame] at hstate
      rw [List.foldl_cons, foldl_untouched actions hengine.2,
        write_activity (hids.of_leads hrec hleads).nonempty]
      rcases hs ticketId with heq | ⟨p, rec', a, hp, hrec', ha, hwalk⟩
      · rw [heq] at hstate
        cases hstate
      · rw [hp, ha] at hstate
        cases hstate
        cases hrec.symm.trans hrec'
        rw [Enrolment.setActivity, ha]
        split
        · exact .inr ⟨p, rec, a, hp, hrec, ha, hwalk⟩
        · next hne =>
          refine .inr ⟨p, rec, target, hp, hrec, rfl, ?_⟩
          rw [Option.map_some, Option.toList_some, List.map_append]
          exact .move hwalk hleads fun heq ↦ hne (congrArg some heq)
  | write w =>
    refine Walked.update hs ?_ h t
    rw [foldl_untouched [w] (List.forall_mem_singleton.2 hengine)]
    exact hs ticketId
  | other tickets row =>
    cases h
    exact hs t

end Walks

section Paths

variable {fields : List FieldConfig} {source : ProcessSource} {pf af : FieldConfig} {s : World}
  {userName : ℕ → Option Text} {ticketId : ℕ} {e : Enrolment}

/-- The path of an enrolment: its last steps, of which the one that the ticket is at is the
current. -/
def Enrolment.path (source : ProcessSource) (userName : ℕ → Option Text) (e : Enrolment) :
    ProcessPathOut :=
  match e.process, e.activity with
  | some p, some a =>
    let steps := lastOf maxPathSteps e.entered
    ⟨some p, steps.zipIdx.map fun (step, i) ↦ {
      activityEntityId := step.activityEntityId
      activityName := (source.activity step.activityEntityId).getD []
      enteredAt := step.enteredAt
      enteredBy := step.enteredBy
      enteredByName := (userName step.enteredBy).getD []
      current := i + 1 = steps.length && step.activityEntityId = a }⟩
  | _, _ => ⟨none, []⟩

theorem map_lastOf {α β : Type} (f : α → β) (n : ℕ) (xs : List α) :
    (lastOf n xs).map f = lastOf n (xs.map f) := by
  rw [lastOf, lastOf, List.map_drop, List.length_map]

/-- The path that is read from the history is the one that the ticket has taken. -/
theorem loadProcessPath_of_kept (hf : Suited fields pf af)
    (h : TicketKept pf af s.db ticketId e) :
    loadProcessPath fields source userName ticketId s.db = e.path source userName := by
  rw [loadProcessPath, getTicketProcessState_of_kept hf h, Enrolment.path]
  cases hp : e.process with
  | none => rfl
  | some p =>
    cases e.activity with
    | none => rfl
    | some a =>
      have hread := (h.path p hp).read
      simp only [Option.bind_some, Option.map_some]
      rw [← hread, ← map_lastOf, List.zipIdx_map, List.map_map, List.length_map]
      rfl

theorem current_of_walk (userName : ℕ → Option Text) {config : ProcessConfig} {a p : Text}
    (hp : e.process = some p) (ha : e.activity = some a)
    (hwalk : source.Walk config (e.entered.map (·.activityEntityId)) a) :
    (e.path source userName).processEntityId = some p ∧
      (e.path source userName).steps.map (·.activityEntityId) =
        lastOf maxPathSteps (e.entered.map (·.activityEntityId)) ∧
      ∀ i step, (e.path source userName).steps[i]? = some step →
        (step.current = true ↔ i + 1 = (e.path source userName).steps.length) := by
  rw [Enrolment.path, hp, ha]
  refine ⟨rfl, ?_, fun i step hstep ↦ ?_⟩
  · rw [← map_lastOf]
    conv_rhs => rw [← List.zipIdx_map_fst 0 (lastOf maxPathSteps e.entered)]
    rw [List.map_map, List.map_map]
    rfl
  · simp only [List.getElem?_map, List.getElem?_zipIdx, Option.map_map, Option.map_eq_some_iff,
      Function.comp_apply] at hstep
    obtain ⟨entered, hentered, rfl⟩ := hstep
    simp only [List.length_map, List.length_zipIdx, Bool.and_eq_true, decide_eq_true_eq,
      Nat.zero_add]
    refine and_iff_left_of_imp fun hlast ↦ ?_
    have hend := hwalk.last
    rw [List.getLast?_map] at hend
    obtain ⟨final, hfinal, rfl⟩ := Option.map_eq_some_iff.1 hend
    have hlastOf : (lastOf maxPathSteps e.entered).getLast? = some entered := by
      rw [List.getLast?_eq_getElem?, ← hlast, Nat.add_sub_cancel, hentered]
    rw [lastOf, List.getLast?_drop] at hlastOf
    split at hlastOf
    · cases hlastOf
    · cases hfinal.symm.trans hlastOf
      rfl

theorem kept_of_unenrolled (hf : Suited fields pf af) (h : Unenrolled fields s) : Kept pf af s := by
  intro ticketId
  have hnone : ∀ {field name}, loadTicketDynamicField fields name = some field →
      name = processIdDfName ∨ name = activityIdDfName →
      s.db.values.filter (isOf field ticketId) = [] := by
    intro field name hload hname
    rw [List.filter_eq_nil_iff]
    intro row hrow hof
    simp only [isOf, Bool.and_eq_true, decide_eq_true_eq] at hof
    exact h.values row hrow field (load_mem hload) (load_name hload ▸ hname) hof.1
  rw [h.none ticketId]
  exact ⟨hnone hf.process (.inl rfl), hnone hf.activity (.inr rfl),
    fun v hv ↦ absurd hv (Option.not_mem_none v), fun v hv ↦ absurd hv (Option.not_mem_none v),
    fun p hp ↦ absurd hp.symm (Option.some_ne_none p)⟩

theorem serve_of_step {a : Action} {s' : World} (h : (processTickets fields source).step s a s') :
    s.serve fields source a = .ok s' := by
  have hstep : (s.serve fields source a).toOption = some s' := h
  cases hserve : s.serve fields source a with
  | error e =>
    rw [hserve] at hstep
    cases hstep
  | ok t =>
    rw [hserve] at hstep
    cases hstep
    rfl

theorem kept_of_reachable (hf : Suited fields pf af) (hids : SourceIds source)
    (h : ((processTickets fields source).restrict TameAction).Reachable s) : Kept pf af s := by
  have hinit : ∀ s, Unenrolled fields s → Kept pf af s := fun _ ↦ kept_of_unenrolled hf
  refine h.invariant hinit fun s a t hs hstep ↦ ?_
  exact hs.serve hf hids hstep.1 (serve_of_step hstep.2)

/-- The path that is shown of a ticket is the one that it has taken since it is in its process;
where only processes move tickets, it ends a way through the process from its start on. -/
theorem process_path_exact (hf : Suited fields pf af) (hids : SourceIds source)
    (userName : ℕ → Option Text) :
    (∀ s, ((processTickets fields source).restrict TameAction).Reachable s → ∀ ticketId,
      loadProcessPath fields source userName ticketId s.db =
        (s.enrolment ticketId).path source userName) ∧
    ∀ s, ((processTickets fields source).restrict fun s a ↦
      TameAction s a ∧ EngineAction a).Reachable s → ∀ ticketId,
        let out := loadProcessPath fields source userName ticketId s.db
        getTicketProcessState fields ticketId s.db = none ∧ out = ⟨none, []⟩ ∨
          ∃ p rec walk a, getTicketProcessState fields ticketId s.db = some ⟨p, a⟩ ∧
            source.process p = some rec ∧ source.Walk rec.config walk a ∧
            out.processEntityId = some p ∧
            out.steps.map (·.activityEntityId) = lastOf maxPathSteps walk ∧
            ∀ i step, out.steps[i]? = some step →
              (step.current = true ↔ i + 1 = out.steps.length) := by
  refine ⟨fun s hs ticketId ↦ loadProcessPath_of_kept hf (kept_of_reachable hf hids hs ticketId),
    fun s hs ticketId ↦ ?_⟩
  have hboth : Kept pf af s ∧ ∀ t, Walked source (s.enrolment t) := by
    have hinit : ∀ s, Unenrolled fields s →
        Kept pf af s ∧ ∀ t, Walked source (s.enrolment t) := fun _ h ↦
      ⟨kept_of_unenrolled hf h, fun t ↦ .inl (h.none t)⟩
    refine hs.invariant hinit ?_
    rintro s a t ⟨hkept, hwalked⟩ ⟨⟨ha, hengine⟩, hstep⟩
    have hserve := serve_of_step hstep
    exact ⟨hkept.serve hf hids ha hserve, Walked.serve hf hids hkept hwalked ha hengine hserve⟩
  obtain ⟨hkept, hwalked⟩ := hboth
  dsimp only
  rw [getTicketProcessState_of_kept hf (hkept ticketId),
    loadProcessPath_of_kept hf (hkept ticketId)]
  rcases hwalked ticketId with heq | ⟨p, rec, a, hp, hrec, ha, hwalk⟩
  · rw [heq]
    exact .inl ⟨rfl, rfl⟩
  · obtain ⟨hprocess, hsteps, hcurrent⟩ := current_of_walk userName hp ha hwalk
    rw [hp, ha]
    exact .inr ⟨p, rec, _, a, rfl, hrec, hwalk, hprocess, hsteps, hcurrent⟩

end Paths

section Sample

def sampleProcessField : FieldConfig := ⟨1, processIdDfName, .other "ProcessID".toList⟩

def sampleActivityField : FieldConfig := ⟨2, activityIdDfName, .other "ActivityID".toList⟩

def sampleProcess : Text := "Process-1".toList

def firstActivity : Text := "Activity-1".toList

def secondActivity : Text := "Activity-2".toList

/-- One transition leads from the first activity to the second, on no condition. -/
def sampleSource : ProcessSource where
  process id := if id = sampleProcess then
    some ⟨"S1".toList, some firstActivity,
      [(firstActivity, [("Transition-1".toList, secondActivity)])]⟩ else none
  activity id := some id
  transition _ := some ⟨"and".toList, [], true⟩

def sampleFields : List FieldConfig := [sampleProcessField, sampleActivityField]

def sampleTime : Datetime := Domain.DynamicField.writeTime

def sampleWorld : World where
  db := ⟨[], [⟨7, 2, none, 4, 3, 1, sampleTime, 4⟩], [(dynamicFieldUpdate, 28)], [], [], []⟩
  enrolment _ := ⟨none, none, []⟩

def quietRuntime : Runtime := ⟨id, fun _ _ ↦ none, fun _ ↦ [], fun _ ↦ none⟩

theorem EntityId.of_all {v : Text} (hne : v ≠ []) (hshort : v.length ≤ 50)
    (h : v.all fun c ↦ c.isAlphanum = true ∨ c = '-') : EntityId v :=
  ⟨hne, hshort, forall_of_all h⟩

theorem sampleIds : EntityId sampleProcess ∧ EntityId firstActivity ∧ EntityId secondActivity := by
  refine ⟨.of_all ?_ ?_ ?_, .of_all ?_ ?_ ?_, .of_all ?_ ?_ ?_⟩ <;> decide

theorem sampleSuited : Suited sampleFields sampleProcessField sampleActivityField := by
  constructor <;> decide

theorem sampleSourceIds : SourceIds sampleSource := by
  constructor
  · intro p rec h a ha
    simp only [sampleSource] at h
    split at h
    · cases h
      cases ha
      exact sampleIds.2.1
    · cases h
  · intro p rec h outgoing hout entry hentry
    simp only [sampleSource] at h
    split at h
    · cases h
      obtain rfl := List.mem_singleton.1 hout
      obtain rfl := List.mem_singleton.1 hentry
      exact sampleIds.2.2
    · cases h

def sampleActions : List Action :=
  [⟨7, 4, sampleTime, .start sampleProcess⟩,
    ⟨7, 5, sampleTime, .submit [] quietRuntime [] [] []⟩]

def samplePath : ProcessPathOut := ⟨some sampleProcess,
  [⟨firstActivity, firstActivity, sampleTime, 4, [], false⟩,
    ⟨secondActivity, secondActivity, sampleTime, 5, [], true⟩]⟩

theorem process_path_exact_sample : ∃ s,
    ((processTickets sampleFields sampleSource).restrict TameAction).Reachable s ∧
      ((s.enrolment 7).path sampleSource fun _ ↦ none) = samplePath := by
  have hrun : (sampleActions.foldlM (fun s a ↦
      (World.serve sampleFields sampleSource s a).toOption) sampleWorld).map
        (fun s ↦ loadProcessPath sampleFields sampleSource (fun _ ↦ none) 7 s.db) =
          some samplePath := by
    decide +kernel
  obtain ⟨s, hs, hpath⟩ := Option.map_eq_some_iff.1 hrun
  have htame : ∀ a ∈ sampleActions, ∀ s, TameAction s a := by
    intro a ha s
    rcases List.mem_cons.1 ha with rfl | ha
    · exact sampleIds.1
    · obtain rfl := List.mem_singleton.1 ha
      exact ⟨nofun, nofun⟩
  have hreach : ((processTickets sampleFields sampleSource).restrict TameAction).Reachable s :=
    ⟨sampleWorld, sampleActions, ⟨fun _ ↦ rfl, nofun⟩,
      Machine.run_of_foldlM_forall sampleActions htame hs⟩
  have hexact := (process_path_exact sampleSuited sampleSourceIds fun _ ↦ none).1 s hreach 7
  exact ⟨s, hreach, hexact.symm.trans hpath⟩

end Sample

end Tiqora.Process.Engine
