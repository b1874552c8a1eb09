import Tiqora.Domain.DynamicFieldKept
import Tiqora.Process.Engine

namespace Tiqora.Process.Engine

open Foundation Calendar
open Domain.DynamicField (FieldConfig FieldType Store ValueRow TicketRow HistoryRow isOf
  setTicketDynamicField dynamicFieldUpdate replaceNonBmp truncateHistoryParts readableHistoryValue
  readDfValues renderDfRows normalizeDfValues insertDfRows typedRow cut)

section Texts

variable {v o g name s : Text}

theorem before_append (h : '%' ∉ v) (o : Text) : before oldValueMark (v ++ oldValueMark ++ o) = v := by
  induction v with
  | nil => rfl
  | cons c v ih =>
    obtain ⟨hc, hv⟩ := not_or.1 (List.mem_cons.not.1 h)
    have hno : oldValueMark.isPrefixOf (c :: (v ++ oldValueMark ++ o)) = false := by
      rw [← Bool.not_eq_true, List.isPrefixOf_iff_prefix]
      intro hprefix
      exact hc (List.cons_prefix_cons.1 hprefix).1
    rw [List.cons_append, List.cons_append, before, hno, ih hv]
    rfl

theorem eq_of_prefix_mark {x y : Text} (hname : '%' ∉ name) (hg : '%' ∉ g)
    (h : name ++ '%' :: x <+: g ++ '%' :: y) : name = g := by
  induction name generalizing g with
  | nil =>
    cases g with
    | nil => rfl
    | cons d g => exact absurd (List.mem_cons.2 (.inl (List.cons_prefix_cons.1 h).1)) hg
  | cons c name ih =>
    cases g with
    | nil => exact absurd (List.mem_cons.2 (.inl (List.cons_prefix_cons.1 h).1.symm)) hname
    | cons d g =>
      obtain ⟨rfl, hrest⟩ := List.cons_prefix_cons.1 h
      rw [ih (fun hm ↦ hname (List.mem_cons_of_mem _ hm))
        (fun hm ↦ hg (List.mem_cons_of_mem _ hm)) hrest]

theorem bmp_fieldNameMark : ∀ c ∈ fieldNameMark, c.toNat ≤ 0xFFFF :=
  forall_of_all (by decide)

theorem bmp_valueMark : ∀ c ∈ valueMark, c.toNat ≤ 0xFFFF :=
  forall_of_all (by decide)

theorem bmp_oldValueMark : ∀ c ∈ oldValueMark, c.toNat ≤ 0xFFFF :=
  forall_of_all (by decide)

theorem valueMark_eq : valueMark = '%' :: "%Value%%".toList := by decide

theorem length_fieldNameMark : fieldNameMark.length = 13 := by decide

theorem length_valueMark : valueMark.length = 9 := by decide

theorem length_oldValueMark : oldValueMark.length = 12 := by decide

/-- The name of a row of the history. -/
def updateName (g v o : Text) : Text :=
  (replaceNonBmp (fieldPrefix g ++ (v ++ oldValueMark ++ o))).take 200

theorem replaceNonBmp_append (s t : Text) :
    replaceNonBmp (s ++ t) = replaceNonBmp s ++ replaceNonBmp t := List.map_append

theorem replaceNonBmp_self (h : ∀ c ∈ s, c.toNat ≤ 0xFFFF) : replaceNonBmp s = s := by
  rw [replaceNonBmp]
  conv_rhs => rw [← List.map_id s]
  exact List.map_congr_left fun c hc ↦ if_pos (h c hc)

theorem mark_not_mem_replaceNonBmp (h : '%' ∉ g) : '%' ∉ replaceNonBmp g := by
  rw [replaceNonBmp, List.mem_map]
  rintro ⟨c, hc, heq⟩
  split at heq
  · exact h (heq ▸ hc)
  · exact absurd heq (by decide)

/-- A replaced text that has no replacement is the text. -/
theorem eq_of_replaceNonBmp (h : replaceNonBmp g = name) (hname : Char.ofNat 0xFFFD ∉ name) :
    g = name := by
  have hself : replaceNonBmp g = g := by
    refine replaceNonBmp_self fun c hc ↦ ?_
    by_contra hlarge
    refine hname (h ▸ List.mem_map.2 ⟨c, hc, if_neg hlarge⟩)
  exact hself.symm.trans h

theorem replaceNonBmp_fieldPrefix (g : Text) :
    replaceNonBmp (fieldPrefix g) = fieldPrefix (replaceNonBmp g) := by
  rw [fieldPrefix, fieldPrefix, replaceNonBmp_append, replaceNonBmp_append,
    replaceNonBmp_self bmp_fieldNameMark, replaceNonBmp_self bmp_valueMark]

theorem eq_of_fieldPrefix {x : Text} (hname : '%' ∉ name) (hg : '%' ∉ g)
    (h : fieldPrefix name <+: fieldPrefix g ++ x) : name = g := by
  rw [fieldPrefix, fieldPrefix, valueMark_eq, List.append_assoc, List.append_assoc, List.append_assoc,
    List.prefix_append_right_inj] at h
  exact eq_of_prefix_mark hname hg h

theorem bmp_fieldPrefix (h : ∀ c ∈ g, c.toNat ≤ 0xFFFF) :
    ∀ c ∈ fieldPrefix g, c.toNat ≤ 0xFFFF := by
  rw [fieldPrefix, List.forall_mem_append, List.forall_mem_append]
  exact ⟨⟨bmp_fieldNameMark, h⟩, bmp_valueMark⟩

theorem length_fieldPrefix (g : Text) : (fieldPrefix g).length = g.length + 22 := by
  rw [fieldPrefix, List.length_append, List.length_append, length_fieldNameMark, length_valueMark]
  omega

/-- A row of another field says nothing of a field. -/
theorem valueAfter_other (hmark : '%' ∉ name) (hplain : Char.ofNat 0xFFFD ∉ name) (hg : '%' ∉ g)
    (hne : g ≠ name) (v o : Text) : valueAfter (updateName g v o) (fieldPrefix name) = none := by
  rw [valueAfter, if_neg]
  intro hprefix
  have h := (List.isPrefixOf_iff_prefix.1 hprefix).trans (List.take_prefix 200 _)
  rw [replaceNonBmp_append, replaceNonBmp_fieldPrefix] at h
  have heq := eq_of_fieldPrefix hmark (mark_not_mem_replaceNonBmp hg) h
  exact hne (eq_of_replaceNonBmp heq.symm hplain)

/-- A row of a field is read back. -/
theorem valueAfter_self (hv : '%' ∉ v) (hname : ∀ c ∈ name, c.toNat ≤ 0xFFFF)
    (hvalue : ∀ c ∈ v, c.toNat ≤ 0xFFFF) (hold : ∀ c ∈ o, c.toNat ≤ 0xFFFF)
    (hlength : name.length + v.length + o.length ≤ 160) :
    valueAfter (updateName name v o) (fieldPrefix name) = some v := by
  have hbmp : ∀ c ∈ fieldPrefix name ++ (v ++ oldValueMark ++ o), c.toNat ≤ 0xFFFF := by
    rw [List.forall_mem_append, List.forall_mem_append, List.forall_mem_append]
    exact ⟨bmp_fieldPrefix hname, ⟨hvalue, bmp_oldValueMark⟩, hold⟩
  have hshort : (fieldPrefix name ++ (v ++ oldValueMark ++ o)).length ≤ 200 := by
    rw [List.length_append, List.length_append, List.length_append, length_fieldPrefix,
      length_oldValueMark]
    omega
  rw [updateName, replaceNonBmp_self hbmp, List.take_of_length_le hshort, valueAfter,
    if_pos (List.isPrefixOf_iff_prefix.2 (List.prefix_append _ _)), List.drop_left,
    before_append hv]

end Texts

section Writes

variable {field : FieldConfig} {ticketId userId : ℕ} {now : Datetime} {db db' : Store}
  {values new : List Text} {g name : Text}

/-- The types whose values are stored as they are. -/
def keepsTexts : FieldType → Bool
  | .text | .textArea | .dropdown | .other _ => true
  | _ => false

def textRow (field : FieldConfig) (ticketId : ℕ) (v : Text) : ValueRow :=
  ⟨field.id, ticketId, some v, none, none⟩

theorem isOf_textRow (field : FieldConfig) (ticketId : ℕ) (v : Text) :
    isOf field ticketId (textRow field ticketId v) = true := by simp [isOf, textRow]

theorem plain_of_keepsTexts {type : FieldType} (h : keepsTexts type = true) :
    type.isMoment ≠ true ∧ type ≠ .checkbox ∧ type ≠ .multiselect := by
  cases type with
  | checkbox | date | dateTime | multiselect => cases h
  | _ => exact ⟨Bool.false_ne_true, nofun, nofun⟩

theorem typedRow_ok {v : Text} {row : ValueRow} (h : typedRow field ticketId v = .ok row) :
    isOf field ticketId row = true ∧
      (keepsTexts field.fieldType = true → row = textRow field ticketId v) := by
  rw [typedRow] at h
  split at h
  · next hmoment =>
    split at h
    · cases h
      exact ⟨by simp [isOf], fun hkeeps ↦ absurd hmoment (plain_of_keepsTexts hkeeps).1⟩
    · cases h
  · split at h
    · next hcheckbox =>
      split at h
      · cases h
        exact ⟨by simp [isOf], fun hkeeps ↦ absurd hcheckbox (plain_of_keepsTexts hkeeps).2.1⟩
      · cases h
    · cases h
      exact ⟨isOf_textRow field ticketId v, fun _ ↦ rfl⟩

theorem insertDfRows_ok (h : insertDfRows field ticketId new db = (db', .ok ())) :
    ∃ rows, db' = { db with values := db.values ++ rows } ∧
      (∀ row ∈ rows, isOf field ticketId row = true) ∧
      (keepsTexts field.fieldType = true → rows = new.map (textRow field ticketId)) := by
  induction new generalizing db with
  | nil =>
    cases h
    exact ⟨[], by rw [List.append_nil], nofun, fun _ ↦ rfl⟩
  | cons v new ih =>
    rw [insertDfRows] at h
    split at h
    · cases h
    · next row hrow =>
      obtain ⟨hof, htext⟩ := typedRow_ok hrow
      obtain ⟨rows, rfl, hofs, htexts⟩ := ih h
      refine ⟨row :: rows, by simp, List.forall_mem_cons.2 ⟨hof, hofs⟩, fun hkeeps ↦ ?_⟩
      rw [htext hkeeps, htexts hkeeps, List.map_cons]

/-- The row of the history of a write. -/
structure Noted (ticketId userId : ℕ) (now : Datetime) (db : Store) (row : HistoryRow) : Prop where
  ticketId : row.ticketId = ticketId
  type : db.historyTypes.lookup dynamicFieldUpdate = some row.historyTypeId
  createTime : row.createTime = now
  createBy : row.createBy = userId

theorem addDynamicFieldUpdate_noted {g v o : Text}
    (h : Domain.DynamicField.addDynamicFieldUpdate now ticketId g v o userId db = (db', .ok ())) :
    ∃ row, db' = { db with history := db.history ++ [row] } ∧ Noted ticketId userId now db row ∧
      row.name = updateName g v o := by
  rw [Domain.DynamicField.addDynamicFieldUpdate] at h
  split at h
  · cases h
  · split at h
    · cases h
    · next historyTypeId htype =>
      cases h
      refine ⟨_, rfl, ⟨rfl, htype, rfl, rfl⟩, ?_⟩
      simp only [updateName, fieldPrefix, List.append_assoc]
      rfl

/-- What a write of other values than those stored does. -/
structure Wrote (field : FieldConfig) (ticketId userId : ℕ) (now : Datetime) (new : List Text)
    (db db' : Store) : Prop where
  types : db'.historyTypes = db.historyTypes
  values : ∃ rows, (∀ row ∈ rows, isOf field ticketId row = true) ∧
    (keepsTexts field.fieldType = true → rows = new.map (textRow field ticketId)) ∧
    db'.values = (db.values.filter fun row ↦ !isOf field ticketId row) ++ rows
  history : ∃ row g v o, db'.history = db.history ++ [row] ∧ Noted ticketId userId now db row ∧
    row.name = updateName g v o ∧
    truncateHistoryParts field.name (readableHistoryValue field.fieldType new)
      (readableHistoryValue field.fieldType (readDfValues field db ticketId).1) = (g, v, o)

theorem setTicketDynamicField_ok {changed : Bool}
    (h : setTicketDynamicField field now ticketId values userId db = (db', .ok changed)) :
    ∃ new, normalizeDfValues field.fieldType values = .ok new ∧
      ((readDfValues field db ticketId).1 = new ∧ db' = db ∨
        ((readDfValues field db ticketId).2 = true ∨ (readDfValues field db ticketId).1 ≠ new) ∧
          Wrote field ticketId userId now new db db') := by
  rw [setTicketDynamicField] at h
  split at h
  · cases h
  · next new hnew =>
    refine ⟨new, hnew, ?_⟩
    dsimp only at h
    split at h
    · next hsame =>
      cases h
      rw [Bool.and_eq_true, Bool.not_eq_true', Bool.not_eq_true',
        Domain.DynamicField.dfValuesDiffer_eq_false] at hsame
      exact .inl ⟨hsame.2, rfl⟩
    · next hdiffer =>
      split at h
      · cases h
      · next replaced hreplaced =>
        split at h
        · cases h
        · next noted hnoted =>
          cases h
          obtain ⟨rows, rfl, hofs, htexts⟩ := insertDfRows_ok hreplaced
          obtain ⟨row, rfl, hrow, hname⟩ := addDynamicFieldUpdate_noted hnoted
          refine .inr ⟨?_, rfl, ⟨rows, hofs, htexts, rfl⟩, row, _, _, _, rfl, ⟨hrow.ticketId,
            hrow.type, hrow.createTime, hrow.createBy⟩, hname, rfl⟩
          by_contra hboth
          rw [not_or, not_not, Bool.not_eq_true] at hboth
          refine hdiffer ?_
          rw [Bool.and_eq_true, Bool.not_eq_true', Bool.not_eq_true',
            Domain.DynamicField.dfValuesDiffer_eq_false]
          exact hboth

theorem filter_isOf_append {field' : FieldConfig} {ticketId' : ℕ} {rows rows' : List ValueRow}
    (hne : ¬(field'.id = field.id ∧ ticketId' = ticketId))
    (hrows : ∀ row ∈ rows', isOf field ticketId row = true) :
    ((rows.filter fun row ↦ !isOf field ticketId row) ++ rows').filter (isOf field' ticketId') =
      rows.filter (isOf field' ticketId') := by
  have hapart : ∀ row, isOf field' ticketId' row = true → isOf field ticketId row = false := by
    intro row h
    simp only [isOf, Bool.and_eq_true, decide_eq_true_eq, Bool.and_eq_false_iff,
      decide_eq_false_iff_not] at h ⊢
    grind
  have hnone : rows'.filter (isOf field' ticketId') = [] :=
    List.filter_eq_nil_iff.2 fun row hrow h ↦
      Bool.false_ne_true ((hapart row h).symm.trans (hrows row hrow))
  rw [List.filter_append, List.filter_filter, hnone, List.append_nil]
  refine List.filter_congr fun row _ ↦ ?_
  cases h : isOf field' ticketId' row with
  | false => rfl
  | true => simp [hapart row h]

namespace Wrote

theorem values_self (h : Wrote field ticketId userId now new db db')
    (hkeeps : keepsTexts field.fieldType = true) :
    db'.values.filter (isOf field ticketId) = new.map (textRow field ticketId) := by
  obtain ⟨rows, hofs, htexts, hvalues⟩ := h.values
  rw [hvalues, Domain.DynamicField.filter_not_isOf _ _ hofs, htexts hkeeps]

theorem values_other (h : Wrote field ticketId userId now new db db') {field' : FieldConfig}
    {ticketId' : ℕ} (hne : ¬(field'.id = field.id ∧ ticketId' = ticketId)) :
    db'.values.filter (isOf field' ticketId') = db.values.filter (isOf field' ticketId') := by
  obtain ⟨rows, hofs, -, hvalues⟩ := h.values
  rw [hvalues, filter_isOf_append hne hofs]

end Wrote

theorem updateRows_append {row : HistoryRow} (htypes : db'.historyTypes = db.historyTypes)
    (hhistory : db'.history = db.history ++ [row]) (hrow : Noted ticketId userId now db row)
    (t : ℕ) : updateRows t db' = updateRows t db ++ if t = ticketId then [row] else [] := by
  rw [updateRows, updateRows, hhistory, htypes, List.filter_append]
  congr 1
  by_cases ht : t = ticketId
  · simp [ht, hrow.ticketId, hrow.type]
  · simp [ht, hrow.ticketId, Ne.symm ht]

theorem truncate_name (g v o : Text) : (truncateHistoryParts g v o).1 = g ∨
    ∃ length, (truncateHistoryParts g v o).1 = cut g length := by
  rw [truncateHistoryParts]
  split
  · exact .inl rfl
  · -- the old value is cut first
    generalize (if 55 < o.length then cut o 50 else o) = old
    dsimp only
    split
    · split
      · exact .inr ⟨_, rfl⟩
      · exact .inr ⟨_, rfl⟩
    · exact .inl rfl

/-- The name under which a row is written is no other field's. -/
theorem truncate_other (hmark : '%' ∉ g) (hbracket : '[' ∉ name) (hne : g ≠ name) (v o : Text) :
    '%' ∉ (truncateHistoryParts g v o).1 ∧ (truncateHistoryParts g v o).1 ≠ name := by
  rcases truncate_name g v o with heq | ⟨length, heq⟩
  · rw [heq]
    exact ⟨hmark, hne⟩
  · rw [heq, cut]
    refine ⟨fun hmem ↦ ?_, fun hcut ↦ ?_⟩
    · rcases List.mem_append.1 hmem with hmem | hmem
      · exact hmark (List.mem_of_mem_take hmem)
      · exact absurd hmem (by decide)
    · refine hbracket (hcut ▸ List.mem_append_right _ ?_)
      decide

end Writes

/-- The length and the characters of the ids that the designer accepts. -/
structure EntityId (v : Text) : Prop where
  nonempty : v ≠ []
  short : v.length ≤ 50
  plain : ∀ c ∈ v, c.isAlphanum = true ∨ c = '-'

theorem EntityId.noMark {v : Text} (h : EntityId v) : '%' ∉ v := by
  intro hmem
  rcases h.plain _ hmem with hc | hc
  · exact absurd hc (by decide)
  · exact absurd hc (by decide)

theorem ascii_of_isAlphanum {c : Char} (h : c.isAlphanum = true) : c.toNat ≤ 0xFFFF := by
  rcases Bool.or_eq_true_iff.1 h with halpha | hdigit
  · rcases Bool.or_eq_true_iff.1 halpha with hupper | hlower
    · have hle := (of_decide_eq_true hupper).2
      exact (UInt32.le_iff_toNat_le.1 hle).trans (by decide)
    · have hle := of_decide_eq_true (Bool.and_eq_true_iff.1 hlower).2
      exact (UInt32.le_iff_toNat_le.1 hle).trans (by decide)
  · have hle := of_decide_eq_true (Bool.and_eq_true_iff.1 hdigit).2
    exact (UInt32.le_iff_toNat_le.1 hle).trans (by decide)

theorem EntityId.bmp {v : Text} (h : EntityId v) : ∀ c ∈ v, c.toNat ≤ 0xFFFF := by
  intro c hc
  rcases h.plain c hc with hc | rfl
  · exact ascii_of_isAlphanum hc
  · decide

/-- The values a write asks for. -/
def FieldWrite.asked (w : FieldWrite) : List Text := w.2.filter (· ≠ [])

/-- At most one id is written to the two fields of the process. -/
def FieldWrite.Tame (w : FieldWrite) : Prop :=
  w.1 = processIdDfName ∨ w.1 = activityIdDfName →
    w.asked.length ≤ 1 ∧ ∀ v ∈ w.asked, EntityId v

/-- The two fields of the process are there, and keep texts; the fields have ids and names of their
own. -/
structure Suited (fields : List FieldConfig) (pf af : FieldConfig) : Prop where
  process : loadTicketDynamicField fields processIdDfName = some pf
  activity : loadTicketDynamicField fields activityIdDfName = some af
  processTexts : keepsTexts pf.fieldType = true
  activityTexts : keepsTexts af.fieldType = true
  ids : ∀ f ∈ fields, ∀ g ∈ fields, f.id = g.id → f = g
  names : ∀ f ∈ fields, '%' ∉ f.name

/-- The two names are plain. -/
structure PlainName (name : Text) : Prop where
  mark : '%' ∉ name
  bracket : '[' ∉ name
  replacement : Char.ofNat 0xFFFD ∉ name
  bmp : ∀ c ∈ name, c.toNat ≤ 0xFFFF
  short : name.length ≤ 27

theorem plain_processIdDfName : PlainName processIdDfName :=
  ⟨by decide, by decide, by decide, forall_of_all (by decide),
    by decide⟩

theorem plain_activityIdDfName : PlainName activityIdDfName :=
  ⟨by decide, by decide, by decide, forall_of_all (by decide),
    by decide⟩

theorem names_ne : processIdDfName ≠ activityIdDfName := by decide

section Rows

variable {field : FieldConfig} {ticketId userId : ℕ} {now : Datetime} {db db' : Store}
  {new : List Text} {name : Text}

/-- The text of at most one id. -/
def OneId (values : List Text) : Prop := values.length ≤ 1 ∧ ∀ v ∈ values, EntityId v

theorem OneId.headD {values : List Text} (h : OneId values) : (values.headD []).length ≤ 50 ∧
    '%' ∉ values.headD [] ∧ ∀ c ∈ values.headD [], c.toNat ≤ 0xFFFF := by
  cases values with
  | nil => exact ⟨Nat.zero_le _, List.not_mem_nil, nofun⟩
  | cons v values =>
    have hv := h.2 v List.mem_cons_self
    exact ⟨hv.short, hv.noMark, hv.bmp⟩

theorem OneId.toList {values : List Text} (h : OneId values) : values = values.head?.toList := by
  cases values with
  | nil => rfl
  | cons v values =>
    cases values with
    | nil => rfl
    | cons => exact absurd h.1 (by simp)

theorem readable_of_keepsTexts (hkeeps : keepsTexts field.fieldType = true) (values : List Text) :
    readableHistoryValue field.fieldType values = values.headD [] := by
  obtain ⟨hmoment, -, hmulti⟩ := plain_of_keepsTexts hkeeps
  unfold readableHistoryValue
  cases htype : field.fieldType with
  | multiselect => exact absurd htype hmulti
  | date => exact absurd (by rw [htype]; rfl) hmoment
  | _ => rfl

theorem readDfValues_texts (hkeeps : keepsTexts field.fieldType = true) {values : List Text}
    (h : db.values.filter (isOf field ticketId) = values.map (textRow field ticketId)) :
    readDfValues field db ticketId = (values, false) := by
  obtain ⟨hmoment, hcheckbox, -⟩ := plain_of_keepsTexts hkeeps
  have hrender : ∀ v, Domain.DynamicField.renderRow field.fieldType (textRow field ticketId v) =
      (some v, false) := by
    intro v
    rw [Domain.DynamicField.renderRow, if_neg hcheckbox, if_neg hmoment]
    rfl
  rw [readDfValues, h, renderDfRows]
  refine Prod.ext ?_ ?_
  · simp only [List.filterMap_map, Function.comp_def, hrender, List.filterMap_some]
  · simp only [List.any_map, Function.comp_def, hrender, List.any_eq_false]
    exact fun _ _ ↦ Bool.false_ne_true

theorem normalize_texts (hkeeps : keepsTexts field.fieldType = true) {w : FieldWrite}
    (h : normalizeDfValues field.fieldType w.2 = .ok new) : new = w.asked := by
  unfold normalizeDfValues at h
  dsimp only at h
  split at h
  · cases h
  · cases htype : field.fieldType <;> rw [htype] at h hkeeps
    case text | textArea | dropdown | other =>
      cases h
      rfl
    all_goals cases hkeeps

theorem valueAfter_of_other (hname : PlainName name) (hmark : '%' ∉ field.name)
    (hne : field.name ≠ name) (h : Wrote field ticketId userId now new db db') : ∃ row,
      db'.history = db.history ++ [row] ∧ Noted ticketId userId now db row ∧
        valueAfter row.name (fieldPrefix name) = none := by
  obtain ⟨row, g, v, o, hhistory, hnoted, hrow, hparts⟩ := h.history
  refine ⟨row, hhistory, hnoted, ?_⟩
  obtain ⟨hg, hgne⟩ := truncate_other hmark hname.bracket hne
    (readableHistoryValue field.fieldType new)
    (readableHistoryValue field.fieldType (readDfValues field db ticketId).1)
  rw [hparts] at hg hgne
  rw [hrow]
  exact valueAfter_other hname.mark hname.replacement hg hgne v o

theorem valueAfter_of_own (hname : PlainName field.name)
    (hkeeps : keepsTexts field.fieldType = true) (hnew : OneId new) {old : List Text}
    (hold : OneId old) (hread : readDfValues field db ticketId = (old, false))
    (h : Wrote field ticketId userId now new db db') : ∃ row,
      db'.history = db.history ++ [row] ∧ Noted ticketId userId now db row ∧
        valueAfter row.name (fieldPrefix field.name) = some (new.headD []) := by
  obtain ⟨row, g, v, o, hhistory, hnoted, hrow, hparts⟩ := h.history
  refine ⟨row, hhistory, hnoted, ?_⟩
  obtain ⟨hnewlength, hnewmark, hnewbmp⟩ := hnew.headD
  obtain ⟨holdlength, -, holdbmp⟩ := hold.headD
  have hshort := hname.short
  have hread1 : (readDfValues field db ticketId).1 = old := congrArg Prod.fst hread
  rw [hread1, readable_of_keepsTexts hkeeps, readable_of_keepsTexts hkeeps, truncateHistoryParts,
    if_pos] at hparts
  · cases hparts
    rw [hrow]
    exact valueAfter_self hnewmark hname.bmp hnewbmp holdbmp (by omega)
  · rw [Domain.DynamicField.historyMaxChars]
    omega

end Rows

end Tiqora.Process.Engine
