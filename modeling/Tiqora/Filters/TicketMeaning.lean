import Tiqora.Filters.Tickets

namespace Tiqora.Filters

open Foundation

namespace Ticket

variable (t : Ticket)

def deadlines : List ℤ := Database.escalationTimes.map fun time ↦ (time t).1

/-- A deadline is set and before the limit. -/
def dueBefore (limit : ℤ) : Bool := t.deadlines.any fun d ↦ 0 < d && d < limit

/-- The pending time, unset at 0. -/
def pendingUntil : Option Cell := if t.untilTime.1 = 0 then none else some (.moment t.untilTime.1)

/-- The pending time is not negative, and the last moment of the column is not the only deadline. -/
def MomentsFit : Prop :=
  0 ≤ t.untilTime.1 ∧ (IntType.int.hi ∈ t.deadlines → t.dueBefore IntType.int.hi = true)

end Ticket

namespace Database

variable (db : Database) (py : Builtins) (collation : Collation) (now : Now)

def stateTypeNames (t : Ticket) : List String :=
  (db.stateRows.filter fun row ↦ row.1 = t.ticketStateId.1).map (·.2)

def lockedAs (names : List String) (t : Ticket) : Bool :=
  names.any fun name ↦ db.lockTypeId name = some t.ticketLockId.1

/-- The channel that a ticket is listed as: a chat, else by its first article. -/
def listedAs (t : Ticket) : Value → Bool
  | .text key =>
    let chat := db.hasArticleOn collation (listChannels.map (·.1)) t
    if key = "email" then !chat && !db.firstArticleOnPhone collation t
    else if key = "phone" then !chat && db.firstArticleOnPhone collation t
    else db.hasArticleOn collation ((listChannels.filter fun e ↦ e.2 = key).map (·.1)) t
  | _ => false

/-- The meaning of the fields that are no columns. -/
def specialHolds (c : Condition) (t : Ticket) : TicketField → Bool
  | .stateType =>
    let named := c.value.asList.any (Value.isOneOf (db.stateTypeNames t))
    if c.op ∈ [.neq, .notIn] then !named else named
  | .locked => db.lockedAs (if c.op = .isTrue then ["lock", "tmp_lock"] else ["unlock"]) t
  | .watchedBy => db.watchers.any fun w ↦ w.ticketId = t.id.1 &&
      c.value.asList.any fun v ↦ (Cell.int w.userId.1).eq collation v
  | .unassigned => decide (t.userId.1 = 1) == (c.op = .isTrue)
  | .escalated => (t.dueBefore now.seconds || t.id.1 ∈ db.aiEscalatedIds) == (c.op = .isTrue)
  | .aiEscalated => decide (t.id.1 ∈ db.aiEscalatedIds) == (c.op = .isTrue)
  | .escalationDueWithin => t.dueBefore (now.seconds + c.value.number)
  | .channel => c.value.asList.any (db.listedAs collation t)
  | .archived => t.archiveFlag.1 = if c.op = .isTrue then 1 else 0
  | _ => false

def fieldValues (info : DynamicFieldInfo) (t : Ticket) : List (Option Cell) :=
  (db.dynamicFieldValues.filter fun v ↦ v.objectId = t.id.1 && v.fieldId = info.id).map
    info.valueColumn.value

/-- The meaning of a condition on a field with many values. -/
def dynamicHolds (info : DynamicFieldInfo) (c : Condition) (t : Ticket) : Bool :=
  let some_ (op : ConditionOp) := (db.fieldValues info t).any fun x ↦
    x.any (Cell.meets py collation info.filterType now op c.value)
  match c.op with
  | .neq => !some_ .eq
  | .notIn => !some_ .in_
  | .isEmpty => !some_ .isNotEmpty
  | .isTrue => (db.fieldValues info t).any fun x ↦ x = some (.int 1)
  | .isFalse => !(db.fieldValues info t).any fun x ↦ x = some (.int 1)
  | op => some_ op

/-- The plain meaning of a condition on a ticket. -/
def ticketMeaning (t : Ticket) (c : Condition) : Bool :=
  match db.dynamicField? c.field, TicketField.ofKey? c.field with
  | some info, _ => db.dynamicHolds py collation now info c t
  | none, some .pendingUntil => c.holds py collation .datetime now t.pendingUntil
  | none, some f =>
    match f.column? with
    | some col => c.holds py collation f.type now (col.value t)
    | none => db.specialHolds collation now c t f
  | none, none => false

end Database

section Pieces

variable {db : Database} {py : Builtins} {collation : Collation} {now : Now} {t : Ticket}
  {c : Condition}

theorem inIds_eq (f : Ticket → ℤ) (ids : List ℤ) :
    Database.inIds f ids = .ofBool fun t ↦ f t ∈ ids := by
  rw [Database.inIds]
  split
  · next hids =>
    rw [hids]
    rfl
  · rfl

theorem escalationDueBefore_eq (limit : ℤ) :
    Database.escalationDueBefore limit = .ofBool fun t ↦ t.dueBefore limit := by
  have hcol : ∀ time : Ticket → SqlInt .int,
      ((Column.int .int false fun t ↦ some (time t)).test fun cell ↦
          cell.compares .gt (.int 0)).and
        ((Column.int .int false fun t ↦ some (time t)).test fun cell ↦
          cell.compares .lt (.int limit)) =
      .ofBool fun t ↦ decide (0 < (time t).1) && decide ((time t).1 < limit) :=
    fun time ↦ Predicate.and_ofBool (f := fun t ↦ decide (0 < (time t).1))
  rw [Database.escalationDueBefore]
  simp only [hcol, Predicate.any_ofBool, Ticket.dueBefore, Ticket.deadlines, List.any_map]
  rfl

theorem escalatedCondition_eq : db.escalatedCondition now =
    .ofBool fun t ↦ t.dueBefore now.seconds || decide (t.id.1 ∈ db.aiEscalatedIds) := by
  rw [Database.escalatedCondition, escalationDueBefore_eq, Predicate.or_ofBool]
  split
  · next hids =>
    rw [hids]
    simp
  · rfl

theorem channelsCondition_eq : db.channelsCondition collation =
    fun v ↦ .ofBool fun t ↦ db.listedAs collation t v := by
  funext v
  cases v with
  | text key =>
    rw [Database.channelsCondition, Database.channelCondition]
    simp only [Predicate.not_ofBool, Predicate.and_ofBool, Database.listedAs]
    split
    · rfl
    · split
      · rfl
      · rfl
  | _ => rfl

/-- Below the last moment of the column, fitting the limit to the column is harmless. -/
theorem dueBefore_clamp {limit : ℤ}
    (hlast : IntType.int.hi ∈ t.deadlines → t.dueBefore IntType.int.hi = true) :
    t.dueBefore (min (max limit IntType.int.lo) IntType.int.hi) = t.dueBefore limit := by
  rw [Bool.eq_iff_iff, Ticket.dueBefore, Ticket.dueBefore, List.any_eq_true, List.any_eq_true]
  simp only [Bool.and_eq_true, decide_eq_true_eq]
  have hhi : ∀ d ∈ t.deadlines, d ≤ IntType.int.hi := by
    intro d hd
    obtain ⟨time, -, rfl⟩ := List.mem_map.1 hd
    exact (time t).2.2
  have hlo : IntType.int.lo < 0 := by decide
  constructor
  · rintro ⟨d, hd, hpos, hlt⟩
    exact ⟨d, hd, hpos, by omega⟩
  · rintro ⟨d, hd, hpos, hlt⟩
    rcases (hhi d hd).lt_or_eq with hdhi | rfl
    · exact ⟨d, hd, hpos, by omega⟩
    · obtain ⟨d', hd', hdue⟩ := List.any_eq_true.1 (hlast hd)
      simp only [Bool.and_eq_true, decide_eq_true_eq] at hdue
      exact ⟨d', hd', hdue.1, by omega⟩

/-- A condition on the type of the state. -/
theorem stateIds_mem (v : Value) : decide (t.ticketStateId.1 ∈ db.stateIdsByType v) =
    v.isOneOf (db.stateTypeNames t) := by
  cases v with
  | text name =>
    rw [Database.stateIdsByType, Value.isOneOf, Database.stateTypeNames, decide_eq_decide]
    simp only [List.mem_map, List.mem_filter, decide_eq_true_eq]
    constructor
    · rintro ⟨row, ⟨hrow, hname⟩, hid⟩
      exact ⟨row, ⟨hrow, hid⟩, hname⟩
    · rintro ⟨row, ⟨hrow, hid⟩, hname⟩
      exact ⟨row, ⟨hrow, hname⟩, hid⟩
  | _ => exact decide_eq_false List.not_mem_nil

theorem watched_mem : decide (t.id.1 ∈ (db.watchers.filter fun w ↦
      (c.value.asList.filter (Value.fits IntType.int.lo IntType.int.hi)).any fun v ↦
        (Cell.int w.userId.1).eq collation v).map (·.ticketId)) =
    db.watchers.any fun w ↦ w.ticketId = t.id.1 &&
      c.value.asList.any fun v ↦ (Cell.int w.userId.1).eq collation v := by
  rw [Bool.eq_iff_iff, decide_eq_true_eq, List.mem_map, List.any_eq_true]
  refine exists_congr fun w ↦ ?_
  rw [List.mem_filter, ← any_fits collation c.value.asList w.userId.2.1 w.userId.2.2,
    Bool.and_eq_true, decide_eq_true_eq, and_assoc]
  exact and_congr_right fun _ ↦ and_comm

variable (db collation now) in
/-- A condition on a field that is no column means what it says, with the last moment apart. -/
theorem special_spec {f : TicketField} (hcolumn : f.column? = none)
    (hop : c.op ∈ f.spec.allowedOps) :
    ∃ P, db.special collation now f c = .ok P ∧ ∀ t : Ticket,
      (IntType.int.hi ∈ t.deadlines → t.dueBefore IntType.int.hi = true) →
        P t = some (db.specialHolds collation now c t f) := by
  have hflag : f.type = .bool → c.op = .isTrue ∨ c.op = .isFalse := by
    intro hbool
    have hops := f.spec.allowedOps_subset hop
    rw [show f.spec.type = .bool from hbool] at hops
    simpa [opsByType] using hops
  cases f with
  | stateType =>
    refine ⟨_, rfl, fun t _ ↦ ?_⟩
    have hmem : decide (t.ticketStateId.1 ∈ c.value.asList.flatMap db.stateIdsByType) =
        c.value.asList.any (Value.isOneOf (db.stateTypeNames t)) := by
      have hnamed : Value.isOneOf (db.stateTypeNames t) =
          fun v ↦ decide (t.ticketStateId.1 ∈ db.stateIdsByType v) :=
        funext fun v ↦ (stateIds_mem v).symm
      rw [hnamed, Bool.eq_iff_iff, decide_eq_true_eq, List.mem_flatMap,
        List.any_eq_true]
      simp only [decide_eq_true_eq]
    have hops : c.op ∈ [.eq, .neq, .in_, .notIn] := hop
    rw [inIds_eq, Database.specialHolds, ← hmem]
    revert hops
    cases c.op with
    | eq | neq | in_ | notIn => exact fun _ ↦ rfl
    | _ => exact fun h ↦ absurd h (by decide)
  | locked =>
    refine ⟨_, rfl, fun t _ ↦ ?_⟩
    rw [Database.specialHolds, Database.lockedAs]
    rcases hflag rfl with h | h
    · rw [if_pos h, if_pos h, inIds_eq]
      refine congrArg some ?_
      rw [Bool.eq_iff_iff, decide_eq_true_eq, List.mem_filterMap, List.any_eq_true]
      simp only [decide_eq_true_eq]
    · have htrue : c.op ≠ .isTrue := h ▸ nofun
      rw [if_neg htrue, if_neg htrue]
      cases hunlock : db.lockTypeId "unlock" with
      | none => simp [hunlock, Predicate.const]
      | some unlock => simp [hunlock, Predicate.ofBool, eq_comm]
  | watchedBy =>
    refine ⟨_, rfl, fun t _ ↦ ?_⟩
    rw [Database.specialHolds, ← watched_mem]
    split
    · next hempty =>
      rw [List.isEmpty_iff.1 hempty]
      exact congrArg some (decide_eq_false (by simp)).symm
    · rw [inIds_eq]
      rfl
  | unassigned =>
    refine ⟨_, rfl, fun t _ ↦ ?_⟩
    rcases hflag rfl with h | h <;> simp [h, Database.specialHolds, Predicate.ofBool]
  | escalated =>
    refine ⟨_, rfl, fun t _ ↦ ?_⟩
    rw [escalatedCondition_eq]
    rcases hflag rfl with h | h <;>
      simp [h, Database.specialHolds, Predicate.ofBool, Predicate.not]
  | aiEscalated =>
    refine ⟨_, rfl, fun t _ ↦ ?_⟩
    rw [inIds_eq]
    rcases hflag rfl with h | h <;>
      simp [h, Database.specialHolds, Predicate.ofBool, Predicate.not]
  | escalationDueWithin =>
    refine ⟨_, rfl, fun t hlast ↦ ?_⟩
    rw [escalationDueBefore_eq]
    exact congrArg some (dueBefore_clamp hlast)
  | channel =>
    refine ⟨_, rfl, fun t _ ↦ ?_⟩
    rw [channelsCondition_eq, Predicate.any_ofBool]
    rfl
  | archived =>
    refine ⟨_, rfl, fun t _ ↦ rfl⟩
  | _ => cases hcolumn

/-- A loaded field is one of the supported types with its column. -/
theorem dfTypes_of_load {info : DynamicFieldInfo} (h : info ∈ db.loadDynamicFields) :
    (info.filterType, info.valueColumn) ∈ dfTypes.map (·.2) := by
  obtain ⟨f, -, hf⟩ := List.mem_filterMap.1 h
  split at hf
  · obtain ⟨e, he, rfl⟩ := Option.map_eq_some_iff.1 hf
    obtain ⟨l, r, hl, -⟩ := List.lookup_eq_some_iff.1 he
    rw [hl]
    simp
  · cases hf

/-- `EXISTS` asks whether some value of the field meets the condition. -/
theorem hasValue_eq {info : DynamicFieldInfo} {P : Predicate DynamicFieldValue}
    {f : Cell → Bool}
    (h : ∀ v, Represents P v (info.valueColumn.value v) f) :
    db.hasValue info P = .ofBool fun t ↦ (db.fieldValues info t).any fun x ↦ x.any f := by
  have hP : ∀ v, decide (P v = some true) = (info.valueColumn.value v).any f := by
    intro v
    rcases h v with h | h
    · rw [h]
      cases info.valueColumn.value v with
      | none => rfl
      | some cell => cases hcell : f cell <;> simp [hcell]
    · rw [h]
      cases (info.valueColumn.value v).any f <;> rfl
  rw [Database.hasValue]
  congr 1
  funext t
  rw [Predicate.exists_, Predicate.and_ofBool, Database.fieldValues, List.any_map, List.any_filter]
  refine congrArg (List.any _) (funext fun v ↦ ?_)
  rw [Function.comp_apply, ← hP v, Predicate.and, Predicate.ofBool]
  cases decide (v.objectId = t.id.1) && decide (v.fieldId = info.id) with
  | false => rfl
  | true => rw [Truth.true_and, Bool.true_and]

theorem dynamicField_bool {info : DynamicFieldInfo} {path : String}
    (htype : info.filterType = .bool) (hop : c.op ∈ opsByType .bool) :
    ∃ P, db.dynamicField py collation now info c path = .ok P ∧
      ∀ t, P t = some (db.dynamicHolds py collation now info c t) := by
  have hone : ∀ x : Option Cell, (x.any fun cell ↦ cell.eq collation (.int 1)) =
      decide (x = some (.int 1)) := by
    intro x
    cases x with
    | none => rfl
    | some cell => cases cell <;> simp [Cell.eq]
  rw [Database.dynamicField, if_pos htype, hasValue_eq fun v ↦ .test]
  refine ⟨_, rfl, fun t ↦ ?_⟩
  have hflag : c.op = .isTrue ∨ c.op = .isFalse := by simpa [opsByType] using hop
  rw [Database.dynamicHolds]
  simp only [hone]
  rcases hflag with h | h
  · rw [h]
    rfl
  · rw [h]
    rfl

theorem dynamicField_string {info : DynamicFieldInfo} {path : String}
    (htype : info.filterType = .string) (hop : c.op ∈ opsByType .string) :
    ∃ P, db.dynamicField py collation now info c path = .ok P ∧
      ∀ t, P t = some (db.dynamicHolds py collation now info c t) := by
  have hdate : info.filterType ≠ .datetime := htype ▸ nofun
  have hpositive : ∀ c' : Condition, c'.op ∈ [.eq, .in_, .contains, .startsWith, .isNotEmpty,
      .lt, .lte, .gt, .gte, .between] → ∃ P, positivePredicate py collation info.valueColumn
        info.filterType c' path now false = .ok P ∧ db.hasValue info P = .ofBool fun t ↦
          (db.fieldValues info t).any fun x ↦
            x.any (Cell.meets py collation info.filterType now c'.op c'.value) := by
    intro c' hop'
    obtain ⟨P, hP, hrep⟩ := positivePredicate_value py collation now info.valueColumn path
      hdate hop'
    exact ⟨P, hP, hasValue_eq hrep⟩
  rw [Database.dynamicField, if_neg (htype ▸ nofun)]
  cases hc : c.op with
  | isEmpty =>
    obtain ⟨P, hP, hhas⟩ := hpositive { c with op := .isNotEmpty } (by simp)
    rw [positivePredicate, if_neg hdate] at hP
    cases hP
    rw [if_pos rfl, if_neg hdate, hhas]
    refine ⟨_, rfl, fun t ↦ ?_⟩
    rw [Database.dynamicHolds, hc]
    rfl
  | neq =>
    obtain ⟨P, hP, hhas⟩ := hpositive { c with op := .eq } (by simp)
    refine ⟨_, bind_eq_ok.2 ⟨P, hP, rfl⟩, fun t ↦ ?_⟩
    rw [hhas, Database.dynamicHolds, hc]
    rfl
  | notIn =>
    obtain ⟨P, hP, hhas⟩ := hpositive { c with op := .in_ } (by simp)
    refine ⟨_, bind_eq_ok.2 ⟨P, hP, rfl⟩, fun t ↦ ?_⟩
    rw [hhas, Database.dynamicHolds, hc]
    rfl
  | eq | in_ | contains | startsWith | isNotEmpty =>
    obtain ⟨P, hP, hhas⟩ := hpositive c (by rw [hc]; decide)
    refine ⟨_, bind_eq_ok.2 ⟨P, hP, rfl⟩, fun t ↦ ?_⟩
    rw [hhas, Database.dynamicHolds, hc]
    rfl
  | _ =>
    rw [hc] at hop
    exact absurd hop (by decide)

theorem dynamicField_datetime {info : DynamicFieldInfo} {path : String} (path' : String)
    (htype : info.filterType = .datetime) (hcol : info.valueColumn.type = .moment)
    (hchecked : checkValue py info.spec c path = .ok ()) (hop : c.op ∈ opsByType .datetime) :
    (∃ P, db.dynamicField py collation now info c path' = .ok P ∧
      ∀ t, P t = some (db.dynamicHolds py collation now info c t)) ∨
    c.Overflows now ∧ db.dynamicField py collation now info c path' =
      .error ⟨"Der Zeitraum ist zu groß.", path'⟩ := by
  rw [Database.dynamicField, if_neg (htype ▸ nofun), htype]
  by_cases hempty : c.op = .isEmpty
  · have hrep : ∀ v, Represents info.valueColumn.isNotNull v (info.valueColumn.value v)
        (Cell.meets py collation .datetime now .isNotEmpty c.value) := by
      intro v
      refine .inr ?_
      rw [Column.isNotNull]
      cases info.valueColumn.value v with
      | none => rfl
      | some cell => rfl
    rw [if_pos hempty, if_pos rfl, hasValue_eq hrep]
    refine .inl ⟨_, rfl, fun t ↦ ?_⟩
    rw [Database.dynamicHolds, hempty, htype]
    rfl
  · have hdates : c.op ∈ [.before, .after, .between, .withinLast, .olderThan, .isNotEmpty] := by
      revert hop hempty
      cases c.op <;> decide
    have hnegated : negatedOp c.op = none := by
      revert hdates
      cases c.op <;> decide
    rw [if_neg hempty, hnegated]
    dsimp only
    rcases positivePredicate_datetime collation now path'
      (show info.spec.type = .datetime from htype) hcol hchecked hdates with
      ⟨P, hP, hrep⟩ | ⟨hover, herror⟩
    · refine .inl ⟨_, bind_eq_ok.2 ⟨P, hP, rfl⟩, fun t ↦ ?_⟩
      rw [hasValue_eq hrep, Database.dynamicHolds, htype]
      revert hdates
      cases c.op with
      | before | after | between | withinLast | olderThan | isNotEmpty => exact fun _ ↦ rfl
      | _ => exact fun h ↦ absurd h (by decide)
    · refine .inr ⟨hover, ?_⟩
      rw [herror]
      rfl

variable (collation now) in
/-- A condition on a dynamic field means what it says. -/
theorem dynamicField_spec {info : DynamicFieldInfo} {path : String} (path' : String)
    (hinfo : info ∈ db.loadDynamicFields) (hop : c.op ∈ info.spec.allowedOps)
    (hchecked : checkValue py info.spec c path = .ok ()) :
    (∃ P, db.dynamicField py collation now info c path' = .ok P ∧
      ∀ t, P t = some (db.dynamicHolds py collation now info c t)) ∨
    c.Overflows now ∧ db.dynamicField py collation now info c path' =
      .error ⟨"Der Zeitraum ist zu groß.", path'⟩ := by
  have hops : c.op ∈ opsByType info.filterType := hop
  have htypes : info.filterType = .string ∨ info.filterType = .bool ∨
      info.filterType = .datetime ∧ info.valueColumn.type = .moment := by
    have h := dfTypes_of_load hinfo
    simp only [dfTypes, List.map_cons, List.map_nil, List.mem_cons, Prod.mk.injEq,
      List.not_mem_nil, or_false] at h
    rcases h with ⟨h, -⟩ | ⟨h, -⟩ | ⟨h, -⟩ | ⟨h, -⟩ | ⟨h, -⟩ | ⟨h, hcol⟩ | ⟨h, hcol⟩
    · exact .inl h
    · exact .inl h
    · exact .inl h
    · exact .inl h
    · exact .inr (.inl h)
    · exact .inr (.inr ⟨h, hcol ▸ rfl⟩)
    · exact .inr (.inr ⟨h, hcol ▸ rfl⟩)
  rcases htypes with htype | htype | ⟨htype, hcol⟩
  · exact .inl (dynamicField_string htype (htype ▸ hops))
  · exact .inl (dynamicField_bool htype (htype ▸ hops))
  · exact dynamicField_datetime path' htype hcol hchecked (htype ▸ hops)

variable (collation now) in
/-- A condition on the pending time means what it says, unless the time is negative. -/
theorem pendingUntil_spec {spec : FilterFieldSpec} {path : String} (path' : String)
    (htype : spec.type = .datetime) (hchecked : checkValue py spec c path = .ok ())
    (hop : c.op ∈ opsByType .datetime) :
    (∃ P, columnPredicate py collation (.int .int false fun t : Ticket ↦ some t.untilTime) .datetime
        c path' now true = .ok P ∧ ∀ t : Ticket, 0 ≤ t.untilTime.1 →
          P t = some (c.holds py collation .datetime now t.pendingUntil)) ∨
    c.Overflows now ∧ columnPredicate py collation
        (.int .int false fun t : Ticket ↦ some t.untilTime) .datetime c path' now true =
      .error ⟨"Der Zeitraum ist zu groß.", path'⟩ := by
  have hany : ∀ t : Ticket, 0 ≤ t.untilTime.1 → ∀ f : Cell → Bool,
      t.pendingUntil.any f = (decide (0 < t.untilTime.1) && f (.moment t.untilTime.1)) := by
    intro t hpos f
    rw [Ticket.pendingUntil]
    split
    · next hunset =>
      rw [hunset]
      rfl
    · next hset =>
      have hset : 0 < t.untilTime.1 := by omega
      rw [decide_eq_true hset, Bool.true_and, Option.any_some]
  rw [columnPredicate, if_neg (by decide), if_neg (by decide)]
  dsimp only
  by_cases hempty : c.op = .isEmpty
  · rw [fittedPredicate, if_pos hempty, if_pos rfl, if_pos rfl]
    refine .inl ⟨_, rfl, fun t hpos ↦ ?_⟩
    rw [Condition.holds, hempty]
    dsimp only
    rw [hany t hpos]
    change some (decide (t.untilTime.1 = 0)) = some (!(decide (0 < t.untilTime.1) && true))
    have hunset : t.untilTime.1 = 0 ↔ ¬ 0 < t.untilTime.1 := by omega
    rw [Bool.and_true, ← decide_not, decide_eq_decide.2 hunset]
  · have hdates : c.op ∈ [.before, .after, .between, .withinLast, .olderThan, .isNotEmpty] := by
      revert hop hempty
      cases c.op <;> decide
    have hnegated : negatedOp c.op = none := by
      revert hdates
      cases c.op <;> decide
    have hholds : ∀ x, c.holds py collation .datetime now x =
        x.any (Cell.meets py collation .datetime now c.op c.value) := by
      intro x
      rw [Condition.holds.eq_def]
      revert hdates
      cases c.op with
      | before | after | between | withinLast | olderThan | isNotEmpty => exact fun _ ↦ rfl
      | _ => exact fun h ↦ absurd h (by decide)
    rw [fittedPredicate, if_neg hempty, hnegated]
    dsimp only
    rw [positivePredicate, if_pos rfl]
    by_cases hset : c.op = .isNotEmpty
    · rw [if_pos hset]
      refine .inl ⟨_, rfl, fun t hpos ↦ ?_⟩
      rw [hholds, hany t hpos, hset]
      exact congrArg some (Bool.and_true _).symm
    · rw [if_neg hset]
      have hmem : c.op ∈ [.before, .after, .between, .withinLast, .olderThan] := by
        revert hdates hset
        cases c.op <;> decide
      rcases datetimePredicate_spec collation now
        (.int .int false fun t : Ticket ↦ some t.untilTime) path' true htype hchecked hmem with
        ⟨P, hP, htests⟩ | ⟨hover, herror⟩
      · refine .inl ⟨_, bind_eq_ok.2 ⟨_, hP, rfl⟩, fun t hpos ↦ ?_⟩
        rw [hholds, hany t hpos]
        change Truth.and (some (decide (0 < t.untilTime.1))) (P t) = _
        rw [htests.known t t.untilTime.1 fun op dt ↦
          epochCompare_spec rfl t.untilTime.2.1 t.untilTime.2.2, Truth.and_some]
      · refine .inr ⟨hover, ?_⟩
        rw [herror]
        rfl

end Pieces

end Tiqora.Filters
