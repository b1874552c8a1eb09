import Tiqora.Filters.TicketMeaning

namespace Tiqora.Filters

open Foundation

def TicketQueryScope.holds (scope : TicketQueryScope) (t : Ticket) : Bool :=
  t.queueId.1 ∈ scope.queueIds && (scope.includeArchived || t.archiveFlag.1 = 0)

section Tickets

variable {db : Database} {py : Builtins} {collation : Collation} {now : Now} {t : Ticket}

theorem ofKey?_key (f : TicketField) : TicketField.ofKey? f.key = some f := by
  cases f <;> rfl

/-- No static field has the key of a dynamic one. -/
theorem dynamicField?_key (f : TicketField) : db.dynamicField? f.key = none := by
  have hstatic : f.key.toList.take 3 ≠ ['d', 'f', '.'] := by
    cases f <;> decide
  refine List.find?_eq_none.2 fun info _ heq ↦ hstatic ?_
  rw [← of_decide_eq_true heq, DynamicFieldInfo.key, String.toList_append]
  rfl

theorem column_fits {f : TicketField} {col : Column Ticket} (hcolumn : f.column? = some col)
    (hpending : f ≠ .pendingUntil) :
    f.type.fits col.type ∧ ∀ t, col.value t = none → col.nullable = true := by
  cases f with
  | ticketId | tn | queueId | stateId | priorityId | ownerId | responsibleId | created | changed =>
    cases hcolumn
    exact ⟨trivial, fun _ h ↦ nomatch h⟩
  | title | typeId | serviceId | slaId | customerId | customerUserId =>
    cases hcolumn
    exact ⟨trivial, fun _ _ ↦ rfl⟩
  | pendingUntil => exact absurd rfl hpending
  | _ => cases hcolumn

variable (py collation now t) in
theorem ticketMeaning_static {c : Condition} {f : TicketField}
    (hf : TicketField.ofKey? c.field = some f) (hdynamic : db.dynamicField? c.field = none) :
    db.ticketMeaning py collation now t c =
      if f = .pendingUntil then c.holds py collation .datetime now t.pendingUntil
      else match f.column? with
        | some col => c.holds py collation f.type now (col.value t)
        | none => db.specialHolds collation now c t f := by
  rw [Database.ticketMeaning, hdynamic, hf]
  cases f <;> rfl

variable (collation now) in
/-- A condition that passed the checks means what it says on a ticket whose moments fit. -/
theorem condition_spec {spec : FilterFieldSpec} {e : String × Condition}
    (hspec : db.resolve e.2.field = some spec) (hop : e.2.op ∈ spec.allowedOps)
    (hchecked : checkValue py spec e.2 (e.1 ++ ".value") = .ok ()) :
    (∃ P, db.condition py collation now e.1 e.2 = .ok P ∧
      ∀ t : Ticket, t.MomentsFit → P t = some (db.ticketMeaning py collation now t e.2)) ∨
    e.2.Overflows now ∧ db.condition py collation now e.1 e.2 =
      .error ⟨"Der Zeitraum ist zu groß.", e.1 ++ ".value"⟩ := by
  rw [Database.resolve] at hspec
  cases hf : TicketField.ofKey? e.2.field with
  | some f =>
    rw [hf] at hspec
    cases hspec
    have hkey : f.key = e.2.field :=
      of_decide_eq_true (List.find?_some (p := fun f : TicketField ↦ f.key = e.2.field) hf)
    have hdynamic : db.dynamicField? e.2.field = none := hkey ▸ dynamicField?_key f
    rw [Database.condition, hdynamic, hf]
    dsimp only
    have hmeaning := fun t ↦
      ticketMeaning_static py collation now t hf hdynamic
    by_cases hpending : f = .pendingUntil
    · subst hpending
      rcases pendingUntil_spec collation now (e.1 ++ ".value") rfl
        hchecked hop with ⟨P, hP, hvalue⟩ | hover
      · exact .inl ⟨P, hP, fun t hfit ↦ (hvalue t hfit.1).trans (by rw [hmeaning, if_pos rfl])⟩
      · exact .inr hover
    · cases hcolumn : f.column? with
      | some col =>
        obtain ⟨hfits, hnull⟩ := column_fits hcolumn hpending
        rw [decide_eq_false hpending]
        rcases columnPredicate_spec collation now (e.1 ++ ".value") hchecked hop hfits with
          ⟨P, hP, hvalue⟩ | hover
        · refine .inl ⟨P, hP, fun t _ ↦ ?_⟩
          rw [hvalue t fun h ↦ .inl (hnull t h), hmeaning, if_neg hpending, hcolumn]
          rfl
        · exact .inr hover
      | none =>
        obtain ⟨P, hP, hvalue⟩ := special_spec db collation now hcolumn hop
        refine .inl ⟨P, hP, fun t hfit ↦ ?_⟩
        rw [hvalue t hfit.2, hmeaning, if_neg hpending, hcolumn]
  | none =>
    rw [hf] at hspec
    obtain ⟨info, hinfo, rfl⟩ := Option.map_eq_some_iff.1 hspec
    have hload : info ∈ db.loadDynamicFields := List.mem_reverse.1 (List.mem_of_find?_eq_some hinfo)
    have hmeaning : ∀ t, db.ticketMeaning py collation now t e.2 =
        db.dynamicHolds py collation now info e.2 t := by
      intro t
      rw [Database.ticketMeaning, hinfo]
    rw [Database.condition, hinfo]
    dsimp only
    rcases dynamicField_spec collation now (e.1 ++ ".value") hload hop
      hchecked with ⟨P, hP, hvalue⟩ | hover
    · exact .inl ⟨P, hP, fun t _ ↦ (hvalue t).trans (congrArg some (hmeaning t).symm)⟩
    · exact .inr hover

theorem scope_eq (scope : TicketQueryScope) : scope.predicate = .ofBool scope.holds := by
  obtain ⟨queues, archived⟩ := scope
  cases archived with
  | true =>
    refine congrArg Predicate.ofBool (funext fun t ↦ ?_)
    exact (Bool.and_true _).symm
  | false => exact Predicate.and_ofBool

/-- The tickets of a compiled filter are those of the scope that meet it. -/
theorem compileTicketFilter_spec {flt : Filter} {scope : TicketQueryScope}
    {out : Option (Predicate Ticket)}
    (h : compileTicketFilter py collation db now flt scope = .ok out) (hfit : t.MomentsFit) :
    (∀ P ∈ out, P t =
      some (scope.holds t && flt.holds (db.ticketMeaning py collation now t))) ∧
    (out = none → scope.holds t = false) := by
  obtain ⟨⟨⟩, hvalid, h⟩ := bind_eq_ok.1 h
  split at h
  · next hqueues =>
    cases h
    refine ⟨nofun, fun _ ↦ ?_⟩
    rw [TicketQueryScope.holds, hqueues]
    rfl
  · cases flt with
    | none =>
      cases h
      refine ⟨fun P hP ↦ ?_, nofun⟩
      cases hP
      rw [scope_eq]
      exact congrArg some (Bool.and_true _).symm
    | some node =>
      obtain ⟨p, hp, h⟩ := bind_eq_ok.1 h
      cases h
      refine ⟨fun P hP ↦ ?_, nofun⟩
      cases hP
      have hnode : p t = some (node.holds (db.ticketMeaning py collation now t)) := by
        refine compileNode_spec hp fun e he q hq ↦ ?_
        obtain ⟨spec, hspec, hop, hchecked⟩ := checked_of_valid hvalid e he
        rcases condition_spec collation now hspec hop hchecked with
          ⟨Q, hQ, hvalue⟩ | ⟨-, herror⟩
        · rw [hQ] at hq
          cases hq
          exact hvalue t hfit
        · rw [herror] at hq
          cases hq
      rw [scope_eq, Predicate.and, hnode]
      exact Truth.and_some

/-- A valid filter fails to compile only at a relative date before the first `datetime`. -/
theorem compileTicketFilter_error {node : FilterNode} {scope : TicketQueryScope}
    {error : FilterError} (hvalid : validateFilter py db.resolve (some node) = .ok ())
    (h : compileTicketFilter py collation db now (some node) scope = .error error) :
    ∃ e ∈ iterConditions "where" node, e.2.Overflows now := by
  rw [compileTicketFilter, hvalid] at h
  rcases bind_eq_error h with h | ⟨⟨⟩, -, h⟩
  · cases h
  · split at h
    · cases h
    · rcases bind_eq_error h with h | ⟨p, -, h⟩
      · obtain ⟨e, he, herror⟩ := compileNode_error h
        obtain ⟨spec, hspec, hop, hchecked⟩ := checked_of_valid hvalid e he
        rcases condition_spec collation now hspec hop hchecked with
          ⟨Q, hQ, -⟩ | ⟨hover, -⟩
        · rw [hQ] at herror
          cases herror
        · exact ⟨e, he, hover⟩
      · cases h

/-- The filter of one static condition, in the scope of the ticket's queue. -/
theorem compileTicketFilter_cond {f : TicketField} {op : ConditionOp} {value : Value}
    {P : Predicate Ticket} (hop : op ∈ f.spec.allowedOps)
    (hchecked : checkValue py f.spec ⟨f.key, op, value⟩ ("where" ++ ".value") = .ok ())
    (hP : db.condition py collation now "where" ⟨f.key, op, value⟩ = .ok P) :
    compileTicketFilter py collation db now (some (.cond ⟨f.key, op, value⟩))
        ⟨[t.queueId.1], true⟩ = .ok (some ((TicketQueryScope.mk [t.queueId.1] true).predicate.and P)) := by
  have hspec : db.resolve f.key = some f.spec := by rw [Database.resolve, ofKey?_key]
  refine bind_eq_ok.2 ⟨(), validateFilter_cond db.resolve hspec hop hchecked, ?_⟩
  rw [if_neg (List.cons_ne_nil _ _)]
  exact bind_eq_ok.2 ⟨P, by rw [compileNode]; exact hP, rfl⟩

end Tickets

section Means

variable (py : Builtins) (collation : Collation)

/-- A compiled report filter is true or false of the row as it says, and so is its conjunction with
a scope. -/
def ReportsMean {ρ : Type} (resolve : String → Option (ReportField ρ)) (r : ρ) : Prop :=
  ∀ now flt out, compileConditions py collation now resolve flt = .ok out →
    (∀ P ∈ out, P r = some (flt.holds (reportMeaning py collation now resolve r))) ∧
    ∀ scope, reportWhere scope out r = some true ↔
      (∀ p ∈ scope, p r = some true) ∧
        flt.holds (reportMeaning py collation now resolve r) = true

/-- A compiled ticket filter is true or false of the ticket as it says, within the scope. -/
def TicketsMean (db : Database) (t : Ticket) : Prop :=
  ∀ now flt scope out, compileTicketFilter py collation db now flt scope = .ok out →
    (∀ P ∈ out, P t =
      some (scope.holds t && flt.holds (db.ticketMeaning py collation now t))) ∧
    (out = none → scope.holds t = false)

variable {py collation}

theorem reportsMean_iff {ρ : Type} {resolve : String → Option (ReportField ρ)} {r : ρ} :
    ReportsMean py collation resolve r ↔ DeclaresNulls resolve r := by
  constructor
  · intro h key f hresolve hnone
    by_contra hundeclared
    rw [not_or, not_or, not_and] at hundeclared
    obtain ⟨hnullable, hbool, henum⟩ := hundeclared
    obtain ⟨node, P, hP, hnull⟩ := undeclared_null py collation ⟨0, by decide⟩ hresolve
      hnone (Bool.eq_false_iff.2 hnullable) hbool henum
    have hvalue := (h _ _ _ hP).1 P rfl
    rw [hnull] at hvalue
    cases hvalue
  · intro hnulls now flt out h
    have hvalue : ∀ P ∈ out, P r = some (flt.holds (reportMeaning py collation now resolve r)) := by
      intro P hP
      cases hP
      cases flt with
      | none =>
        obtain ⟨⟨⟩, -, h⟩ := bind_eq_ok.1 h
        cases h
      | some node => exact compileConditions_spec h hnulls
    have hnone : out = none → flt = none := by
      rintro rfl
      cases flt with
      | none => rfl
      | some node =>
        obtain ⟨⟨⟩, -, h⟩ := bind_eq_ok.1 h
        obtain ⟨p, -, h⟩ := bind_eq_ok.1 h
        cases h
    refine ⟨hvalue, fun scope ↦ ?_⟩
    rw [reportWhere, Predicate.all_eq_true, List.forall_mem_append]
    refine and_congr_right fun _ ↦ ?_
    cases out with
    | none =>
      rw [hnone rfl]
      exact ⟨fun _ ↦ rfl, fun _ ↦ nofun⟩
    | some P =>
      rw [Option.toList_some, List.forall_mem_singleton, hvalue P rfl, Option.some.injEq]

/-- What a compiled condition on a static field then says of the ticket. -/
theorem TicketsMean.cond {db : Database} {t : Ticket} (h : TicketsMean py collation db t)
    (now : Now) (f : TicketField) (op : ConditionOp) (value : Value) {P : Predicate Ticket}
    (hop : op ∈ f.spec.allowedOps)
    (hchecked : checkValue py f.spec ⟨f.key, op, value⟩ ("where" ++ ".value") = .ok ())
    (hP : db.condition py collation now "where" ⟨f.key, op, value⟩ = .ok P) :
    P t = some (db.ticketMeaning py collation now t ⟨f.key, op, value⟩) := by
  have hout := (h now _ _ _ (compileTicketFilter_cond (t := t) hop hchecked hP)).1 _ rfl
  have hscope : (TicketQueryScope.mk [t.queueId.1] true).holds t = true := by
    simp [TicketQueryScope.holds]
  rw [scope_eq, Predicate.and, Predicate.ofBool, hscope, Truth.true_and] at hout
  exact hout

theorem ticketsMean_iff {db : Database} {t : Ticket} :
    TicketsMean py collation db t ↔ t.MomentsFit := by
  constructor
  · intro h
    constructor
    · by_contra hneg
      have hset := h.cond ⟨0, by decide⟩ .pendingUntil .isNotEmpty .null (by decide) rfl (by
          rw [Database.condition, dynamicField?_key, ofKey?_key]
          rfl)
      rw [Database.ticketMeaning, dynamicField?_key, ofKey?_key] at hset
      change some (decide (0 < t.untilTime.1)) = some (t.pendingUntil.any _) at hset
      have hnonzero : t.untilTime.1 ≠ 0 := by omega
      rw [Ticket.pendingUntil, if_neg hnonzero, decide_eq_false (by omega)] at hset
      cases hset
    · intro hlast
      have hdue := h.cond ⟨0, by decide⟩ .escalationDueWithin .lte (.int int64Max) (by decide)
        rfl (by
          rw [Database.condition, dynamicField?_key, ofKey?_key]
          rfl)
      rw [Database.ticketMeaning, dynamicField?_key, ofKey?_key, escalationDueBefore_eq] at hdue
      have hlimit : t.dueBefore (0 + int64Max) = true :=
        List.any_eq_true.2 ⟨IntType.int.hi, hlast, by decide⟩
      exact (Option.some.inj hdue).trans hlimit
  · intro hfit now flt scope out h
    exact compileTicketFilter_spec h hfit

/-- A report filter means what it says on every row whose `NULL`s are declared, a ticket filter on
every ticket whose moments fit, and on no others. Only a relative date before the first `datetime`
keeps a valid filter from compiling. -/
theorem filters_mean (py : Builtins) (collation : Collation) :
    (∀ (ρ : Type) (resolve : String → Option (ReportField ρ)),
      (∀ r, ReportsMean py collation resolve r ↔ DeclaresNulls resolve r) ∧
      ∀ now node error,
        validateFilter py (fun key ↦ (resolve key).map (·.spec)) (some node) = .ok () →
        compileConditions py collation now resolve (some node) = .error error →
          ∃ e ∈ iterConditions "where" node, e.2.Overflows now) ∧
    ∀ db : Database,
      (∀ t, TicketsMean py collation db t ↔ t.MomentsFit) ∧
      ∀ now node scope error, validateFilter py db.resolve (some node) = .ok () →
        compileTicketFilter py collation db now (some node) scope = .error error →
          ∃ e ∈ iterConditions "where" node, e.2.Overflows now :=
  ⟨fun _ _ ↦ ⟨fun _ ↦ reportsMean_iff, fun _ _ _ hvalid h ↦ compileConditions_error hvalid h⟩,
    fun _ ↦ ⟨fun _ ↦ ticketsMean_iff, fun _ _ _ _ hvalid h ↦ compileTicketFilter_error hvalid h⟩⟩

end Means

section Sample

def isoDates : Builtins where
  fromisoformat s := if s = "1970-01-01" then some 0 else none
  str
    | .text s => s
    | _ => ""
  epoch := rfl

def binary : Collation := ⟨fun s s' ↦ s = s', ⟨id, fun _ _ h _ _ ↦ h⟩⟩

/-- The phase of the change in a row of CI and ticket, which most tickets have none of. -/
def changePhase : ReportField (Option String) where
  key := "change_phase"
  type := .enum
  enumValues := ["draft", "submitted", "assessment", "approval", "scheduled", "implementing",
    "review", "closed", "rejected", "cancelled"]
  column := .text false id
  fits := trivial

def notClosed : FilterNode := .not (.cond ⟨"change_phase", .eq, .text "closed"⟩)

def emptyDatabase : Database := ⟨[], [], [], [], [], [], [], [], []⟩

/-- A ticket whose solution is due at the last moment of the column. -/
def dueLast : Ticket where
  id := ⟨1, by decide⟩
  tn := "2026100110000011"
  title := none
  queueId := ⟨1, by decide⟩
  ticketLockId := ⟨1, by decide⟩
  typeId := none
  serviceId := none
  slaId := none
  userId := ⟨1, by decide⟩
  responsibleUserId := ⟨1, by decide⟩
  ticketPriorityId := ⟨3, by decide⟩
  ticketStateId := ⟨1, by decide⟩
  customerId := none
  customerUserId := none
  untilTime := ⟨0, by decide⟩
  escalationTime := ⟨IntType.int.hi, by decide⟩
  escalationUpdateTime := ⟨0, by decide⟩
  escalationResponseTime := ⟨0, by decide⟩
  escalationSolutionTime := ⟨IntType.int.hi, by decide⟩
  archiveFlag := ⟨0, by decide⟩
  createTime := 0
  changeTime := 0

def dueWithin : FilterNode := .cond ⟨"escalation_due_within", .lte, .int (2 ^ 31)⟩

/-- A filter on the phase is `NULL` on a ticket without a change, and a deadline within the span is
missed. -/
theorem filters_misread :
    (∃ P, compileConditions isoDates binary ⟨0, by decide⟩
        (fun key ↦ if key = "change_phase" then some changePhase else none) (some notClosed) =
          .ok (some P) ∧ P none = none) ∧
    ∃ P, compileTicketFilter isoDates binary emptyDatabase ⟨0, by decide⟩ (some dueWithin)
        ⟨[1], true⟩ = .ok (some P) ∧
      P dueLast = some false ∧
      dueWithin.holds (emptyDatabase.ticketMeaning isoDates binary ⟨0, by decide⟩ dueLast) = true :=
  ⟨⟨_, rfl, rfl⟩, ⟨_, rfl, rfl, rfl⟩⟩

end Sample

end Tiqora.Filters
