import Tiqora.Filters.Meaning

namespace Tiqora.Filters

open Foundation

variable {ρ : Type}

section Tree

variable (leaf : String → Condition → Except FilterError (Predicate ρ))

mutual

/-- The tree walk that both compilers share. -/
def compileNode (path : String) : FilterNode → Except FilterError (Predicate ρ)
  | .cond c => leaf path c
  | .all first rest => do
    let p ← compileNode (path ++ ".all[0]") first
    let ps ← compileNodes (path ++ ".all[") 1 rest
    pure (.all (p :: ps))
  | .any first rest => do
    let p ← compileNode (path ++ ".any[0]") first
    let ps ← compileNodes (path ++ ".any[") 1 rest
    pure (.any (p :: ps))
  | .not child => do
    let p ← compileNode (path ++ ".not") child
    pure p.not

def compileNodes (path : String) (i : ℕ) :
    List FilterNode → Except FilterError (List (Predicate ρ))
  | [] => pure []
  | node :: nodes => do
    let p ← compileNode (path ++ toString i ++ "]") node
    let ps ← compileNodes path (i + 1) nodes
    pure (p :: ps)

end

variable {leaf} {g : Condition → Bool} {r : ρ}

mutual

/-- A tree means what it says when each of its conditions does. -/
theorem compileNode_spec {path : String} {node : FilterNode} {p : Predicate ρ}
    (h : compileNode leaf path node = .ok p)
    (hleaf : ∀ e ∈ iterConditions path node, ∀ q, leaf e.1 e.2 = .ok q → q r = some (g e.2)) :
    p r = some (node.holds g) := by
  cases node with
  | cond c =>
    rw [compileNode] at h
    exact hleaf (path, c) (List.mem_singleton.2 rfl) p h
  | all first rest =>
    rw [compileNode] at h
    obtain ⟨q, hq, h⟩ := bind_eq_ok.1 h
    obtain ⟨qs, hqs, h⟩ := bind_eq_ok.1 h
    cases h
    rw [iterConditions] at hleaf
    change (q r).and (Predicate.all qs r) = _
    rw [compileNode_spec hq fun e he ↦ hleaf e (List.mem_append_left _ he),
      (compileNodes_spec hqs fun e he ↦ hleaf e (List.mem_append_right _ he)).1, Truth.and_some,
      FilterNode.holds]
  | any first rest =>
    rw [compileNode] at h
    obtain ⟨q, hq, h⟩ := bind_eq_ok.1 h
    obtain ⟨qs, hqs, h⟩ := bind_eq_ok.1 h
    cases h
    rw [iterConditions] at hleaf
    change (q r).or (Predicate.any qs r) = _
    rw [compileNode_spec hq fun e he ↦ hleaf e (List.mem_append_left _ he),
      (compileNodes_spec hqs fun e he ↦ hleaf e (List.mem_append_right _ he)).2, Truth.or_some,
      FilterNode.holds]
  | not child =>
    rw [compileNode] at h
    obtain ⟨q, hq, h⟩ := bind_eq_ok.1 h
    cases h
    rw [iterConditions] at hleaf
    rw [Predicate.not, compileNode_spec hq hleaf, Truth.not_some, FilterNode.holds]

theorem compileNodes_spec {path : String} {i : ℕ} {nodes : List FilterNode}
    {ps : List (Predicate ρ)} (h : compileNodes leaf path i nodes = .ok ps)
    (hleaf : ∀ e ∈ iterChildren path i nodes, ∀ q, leaf e.1 e.2 = .ok q → q r = some (g e.2)) :
    Predicate.all ps r = some (FilterNode.holdsAll g nodes) ∧
      Predicate.any ps r = some (FilterNode.holdsAny g nodes) := by
  cases nodes with
  | nil =>
    rw [compileNodes] at h
    cases h
    exact ⟨rfl, rfl⟩
  | cons node nodes =>
    rw [compileNodes] at h
    obtain ⟨q, hq, h⟩ := bind_eq_ok.1 h
    obtain ⟨qs, hqs, h⟩ := bind_eq_ok.1 h
    cases h
    rw [iterChildren] at hleaf
    have hnode := compileNode_spec hq fun e he ↦ hleaf e (List.mem_append_left _ he)
    obtain ⟨hall, hany⟩ := compileNodes_spec hqs fun e he ↦ hleaf e (List.mem_append_right _ he)
    constructor
    · change (q r).and (Predicate.all qs r) = _
      rw [hnode, hall, Truth.and_some, FilterNode.holdsAll]
    · change (q r).or (Predicate.any qs r) = _
      rw [hnode, hany, Truth.or_some, FilterNode.holdsAny]

end

mutual

/-- An error of a tree is one of its conditions'. -/
theorem compileNode_error {path : String} {node : FilterNode} {error : FilterError}
    (h : compileNode leaf path node = .error error) :
    ∃ e ∈ iterConditions path node, leaf e.1 e.2 = .error error := by
  cases node with
  | cond c =>
    rw [compileNode] at h
    exact ⟨(path, c), List.mem_singleton.2 rfl, h⟩
  | all first rest =>
    rw [compileNode] at h
    rw [iterConditions]
    rcases bind_eq_error h with h | ⟨q, -, h⟩
    · obtain ⟨e, he, herror⟩ := compileNode_error h
      exact ⟨e, List.mem_append_left _ he, herror⟩
    · rcases bind_eq_error h with h | ⟨qs, -, h⟩
      · obtain ⟨e, he, herror⟩ := compileNodes_error h
        exact ⟨e, List.mem_append_right _ he, herror⟩
      · cases h
  | any first rest =>
    rw [compileNode] at h
    rw [iterConditions]
    rcases bind_eq_error h with h | ⟨q, -, h⟩
    · obtain ⟨e, he, herror⟩ := compileNode_error h
      exact ⟨e, List.mem_append_left _ he, herror⟩
    · rcases bind_eq_error h with h | ⟨qs, -, h⟩
      · obtain ⟨e, he, herror⟩ := compileNodes_error h
        exact ⟨e, List.mem_append_right _ he, herror⟩
      · cases h
  | not child =>
    rw [compileNode] at h
    rw [iterConditions]
    rcases bind_eq_error h with h | ⟨q, -, h⟩
    · exact compileNode_error h
    · cases h

theorem compileNodes_error {path : String} {i : ℕ} {nodes : List FilterNode} {error : FilterError}
    (h : compileNodes leaf path i nodes = .error error) :
    ∃ e ∈ iterChildren path i nodes, leaf e.1 e.2 = .error error := by
  cases nodes with
  | nil =>
    rw [compileNodes] at h
    cases h
  | cons node nodes =>
    rw [compileNodes] at h
    rw [iterChildren]
    rcases bind_eq_error h with h | ⟨q, -, h⟩
    · obtain ⟨e, he, herror⟩ := compileNode_error h
      exact ⟨e, List.mem_append_left _ he, herror⟩
    · rcases bind_eq_error h with h | ⟨qs, -, h⟩
      · obtain ⟨e, he, herror⟩ := compileNodes_error h
        exact ⟨e, List.mem_append_right _ he, herror⟩
      · cases h

end

end Tree

variable {py : Builtins} {collation : Collation} {now : Now}

/-- Each condition of a valid filter is on a known field and passed the check of its value. -/
theorem checked_of_valid {resolve : String → Option FilterFieldSpec} {node : FilterNode}
    (h : validateFilter py resolve (some node) = .ok ()) :
    ∀ e ∈ iterConditions "where" node, ∃ spec, resolve e.2.field = some spec ∧
      e.2.op ∈ spec.allowedOps ∧ checkValue py spec e.2 (e.1 ++ ".value") = .ok () := by
  have hchecks : ∀ (es : List (String × Condition)) (count : ℕ),
      checkConditions py resolve count es = .ok () →
        ∀ e ∈ es, checkCondition py resolve e.1 e.2 = .ok () := by
    intro es
    induction es with
    | nil => exact fun _ _ ↦ nofun
    | cons e es ih =>
      intro count hcount
      rw [checkConditions] at hcount
      obtain ⟨-, hcount⟩ := require_bind_eq_ok.1 hcount
      obtain ⟨⟨⟩, he, hcount⟩ := bind_eq_ok.1 hcount
      exact List.forall_mem_cons.2 ⟨he, ih (count + 1) hcount⟩
  rw [validateFilter] at h
  obtain ⟨⟨⟩, -, h⟩ := bind_eq_ok.1 h
  intro e he
  have hcheck := hchecks _ _ h e he
  rw [checkCondition] at hcheck
  cases hspec : resolve e.2.field with
  | none =>
    rw [hspec] at hcheck
    cases hcheck
  | some spec =>
    rw [hspec] at hcheck
    obtain ⟨hop, hvalue⟩ := require_bind_eq_ok.1 hcheck
    exact ⟨spec, rfl, hop, hvalue⟩

theorem validateFilter_cond (resolve : String → Option FilterFieldSpec) {spec : FilterFieldSpec}
    {c : Condition} (hspec : resolve c.field = some spec) (hop : c.op ∈ spec.allowedOps)
    (hchecked : checkValue py spec c ("where" ++ ".value") = .ok ()) :
    validateFilter py resolve (some (.cond c)) = .ok () := by
  have hcheck : checkCondition py resolve "where" c = .ok () := by
    rw [checkCondition, hspec]
    exact require_bind_eq_ok.2 ⟨hop, hchecked⟩
  refine bind_eq_ok.2 ⟨(), ?_, require_bind_eq_ok.2 ⟨by decide, ?_⟩⟩
  · rw [checkDepth]
    exact if_pos (by decide)
  · exact bind_eq_ok.2 ⟨(), hcheck, rfl⟩

/-- A filterable dimension or filter field of a report source. -/
structure ReportField (ρ : Type) where
  key : String
  type : FieldType
  enumValues : List String
  column : Column ρ
  fits : type.fits column.type

/-- `filter_spec` restricts no operators. -/
def ReportField.spec (f : ReportField ρ) : FilterFieldSpec where
  key := f.key
  type := f.type
  ops := none
  enumValues := f.enumValues
  ops_subset := nofun

section Reports

variable (py collation now) (resolve : String → Option (ReportField ρ))

def reportCondition (path : String) (c : Condition) : Except FilterError (Predicate ρ) :=
  match resolve c.field with
  | none => .error ⟨"Unbekanntes Feld „" ++ c.field ++ "“.", path ++ ".field"⟩
  | some f => columnPredicate py collation f.column f.type c (path ++ ".value") now false

/-- `_node` of the report compiler. -/
def reportNode : String → FilterNode → Except FilterError (Predicate ρ) :=
  compileNode (reportCondition py collation now resolve)

def compileConditions (flt : Filter) : Except FilterError (Option (Predicate ρ)) := do
  validateFilter py (fun key ↦ (resolve key).map (·.spec)) flt
  match flt with
  | none => pure none
  | some node => do
    let p ← reportNode py collation now resolve "where" node
    pure (some p)

/-- The scope conditions and the filter's, as the caller joins them. -/
def reportWhere (scope : List (Predicate ρ)) (filter : Option (Predicate ρ)) : Predicate ρ :=
  .all (scope ++ filter.toList)

/-- The plain meaning of a condition on a report row. -/
def reportMeaning (r : ρ) (c : Condition) : Bool :=
  (resolve c.field).any fun f ↦ c.holds py collation f.type now (f.column.value r)

/-- Every `NULL` of the row is in a column that is declared nullable. A flag and an enumeration
without values take no harm from it. -/
def DeclaresNulls (r : ρ) : Prop :=
  ∀ key f, resolve key = some f → f.column.value r = none →
    f.column.nullable = true ∨ f.type = .bool ∨ f.type = .enum ∧ f.enumValues = []

end Reports

section Spec

variable {resolve : String → Option (ReportField ρ)} {r : ρ} {node : FilterNode}

/-- A value of an enumeration passes only when there is one. -/
theorem enum_values_of_checked {spec : FilterFieldSpec} {c : Condition} {path : String}
    (htype : spec.type = .enum) (hop : c.op ∈ opsByType .enum)
    (h : checkValue py spec c path = .ok ()) : spec.enumValues ≠ [] := by
  have hitem : ∀ {v : Value} {path : String}, checkItem py spec v path = .ok () →
      spec.enumValues ≠ [] := by
    intro v path hv hnone
    rw [checkItem.eq_def, htype, hnone] at hv
    cases v <;> cases hv
  have hitems : ∀ {path : String} {v : Value} {vs : List Value},
      checkItems py spec path 0 (v :: vs) = .ok () → spec.enumValues ≠ [] := by
    intro path v vs h
    rw [checkItems] at h
    obtain ⟨⟨⟩, hv, -⟩ := bind_eq_ok.1 h
    exact hitem hv
  cases hc : c.op with
  | eq | neq =>
    refine hitem (checkItem_of_scalar h ?_)
    rw [hc]
    decide
  | in_ | notIn =>
    rw [checkValue, hc] at h
    dsimp only at h
    split at h
    · obtain ⟨-, h⟩ := require_bind_eq_ok.1 h
      exact hitems h
    · cases h
  | _ =>
    rw [hc] at hop
    exact absurd hop (by decide)

variable (collation now) in
theorem reportCondition_spec {e : String × Condition} {f : ReportField ρ}
    (hresolve : resolve e.2.field = some f) (hop : e.2.op ∈ f.spec.allowedOps)
    (hchecked : checkValue py f.spec e.2 (e.1 ++ ".value") = .ok ()) :
    (∃ P, reportCondition py collation now resolve e.1 e.2 = .ok P ∧
      ∀ r, DeclaresNulls resolve r → P r = some (reportMeaning py collation now resolve r e.2)) ∨
    e.2.Overflows now ∧ reportCondition py collation now resolve e.1 e.2 =
      .error ⟨"Der Zeitraum ist zu groß.", e.1 ++ ".value"⟩ := by
  rw [reportCondition, hresolve]
  dsimp only
  have hspec := columnPredicate_spec collation now (e.1 ++ ".value") hchecked hop f.fits
  rcases hspec with ⟨P, hP, hvalue⟩ | hover
  · refine .inl ⟨P, hP, fun r hnulls ↦ ?_⟩
    rw [reportMeaning, hresolve]
    refine hvalue r fun hnone ↦ ?_
    rcases hnulls _ f hresolve hnone with hnull | hbool | ⟨henum, hempty⟩
    · exact .inl hnull
    · exact .inr hbool
    · have hops := f.spec.allowedOps_subset hop
      rw [show f.spec.type = .enum from henum] at hops
      exact absurd hempty (enum_values_of_checked henum hops hchecked)
  · exact .inr hover

/-- A compiled report filter means what it says on a row that declares its `NULL`s. -/
theorem compileConditions_spec {P : Predicate ρ}
    (h : compileConditions py collation now resolve (some node) = .ok (some P))
    (hnulls : DeclaresNulls resolve r) :
    P r = some (node.holds (reportMeaning py collation now resolve r)) := by
  obtain ⟨⟨⟩, hvalid, h⟩ := bind_eq_ok.1 h
  obtain ⟨Q, hQ, h⟩ := bind_eq_ok.1 h
  cases h
  refine compileNode_spec hQ fun e he q hq ↦ ?_
  obtain ⟨spec, hspec, hop, hchecked⟩ := checked_of_valid hvalid e he
  obtain ⟨f, hresolve, rfl⟩ := Option.map_eq_some_iff.1 hspec
  rcases reportCondition_spec collation now hresolve hop hchecked with
    ⟨Q', hQ', hvalue⟩ | ⟨-, herror⟩
  · rw [hQ'] at hq
    cases hq
    exact hvalue r hnulls
  · rw [herror] at hq
    cases hq

/-- A valid filter fails to compile only at a relative date before the first `datetime`. -/
theorem compileConditions_error {error : FilterError}
    (hvalid : validateFilter py (fun key ↦ (resolve key).map (·.spec)) (some node) = .ok ())
    (h : compileConditions py collation now resolve (some node) = .error error) :
    ∃ e ∈ iterConditions "where" node, e.2.Overflows now := by
  rw [compileConditions, hvalid] at h
  have hnode : reportNode py collation now resolve "where" node = .error error := by
    rcases bind_eq_error h with h | ⟨Q, -, h⟩
    · cases h
    · rcases bind_eq_error h with h | ⟨Q, -, h⟩
      · exact h
      · cases h
  obtain ⟨e, he, herror⟩ := compileNode_error hnode
  obtain ⟨spec, hspec, hop, hchecked⟩ := checked_of_valid hvalid e he
  obtain ⟨f, hresolve, rfl⟩ := Option.map_eq_some_iff.1 hspec
  rcases reportCondition_spec collation now hresolve hop hchecked with
    ⟨Q', hQ', -⟩ | ⟨hover, -⟩
  · rw [hQ'] at herror
    cases herror
  · exact ⟨e, he, hover⟩

variable (py collation now) in
/-- A condition that compares a `NULL` which its column does not declare. -/
theorem undeclared_null {key : String} {f : ReportField ρ} (hresolve : resolve key = some f)
    (hnone : f.column.value r = none) (hnullable : f.column.nullable = false)
    (hbool : f.type ≠ .bool) (henum : f.type = .enum → f.enumValues ≠ []) :
    ∃ node P, compileConditions py collation now resolve (some node) = .ok (some P) ∧
      P r = none := by
  have hcompile : ∀ op value Q, op ∈ opsByType f.type →
      checkValue py f.spec ⟨key, op, value⟩ ("where" ++ ".value") = .ok () →
      columnPredicate py collation f.column f.type ⟨key, op, value⟩ ("where" ++ ".value") now
        false = .ok Q →
      Q r = none → ∃ node P, compileConditions py collation now resolve (some node) =
        .ok (some P) ∧ P r = none := by
    intro op value Q hop hchecked hQ hnull
    have hvalid := validateFilter_cond (fun key ↦ (resolve key).map (·.spec))
      (congrArg (Option.map _) hresolve) hop hchecked
    refine ⟨.cond ⟨key, op, value⟩, Q, bind_eq_ok.2 ⟨(), hvalid, bind_eq_ok.2 ⟨Q, ?_, rfl⟩⟩, hnull⟩
    rw [reportNode, compileNode, reportCondition, hresolve]
    exact hQ
  have htest : ∀ g, f.column.test g r = none := fun g ↦ by rw [Column.test, hnone]; rfl
  have hfits := f.fits
  cases htype : f.type with
  | id | int =>
    rw [htype] at hfits
    refine hcompile .eq (.int 0) (f.column.test fun cell ↦ cell.eq collation (.int 0)) ?_ ?_ ?_
      (htest _)
    · rw [htype]
      decide
    · change checkItem py f.spec (.int 0) _ = _
      rw [checkItem.eq_def, show f.spec.type = _ from htype]
      rfl
    · have hfit : (Value.int 0).fits f.column.intType.lo f.column.intType.hi = true := by
        cases f.column.intType <;> decide
      rw [columnPredicate, hnullable, htype]
      dsimp only
      rw [if_neg (by decide), if_pos (by decide), fitIntCondition]
      dsimp only
      rw [if_pos hfit]
      rfl
  | string =>
    refine hcompile .eq (.text "") (f.column.test fun cell ↦ cell.eq collation (.text "")) ?_ ?_ ?_
      (htest _)
    · rw [htype]
      decide
    · change checkItem py f.spec (.text "") _ = _
      rw [checkItem.eq_def, show f.spec.type = _ from htype]
      rfl
    · rw [columnPredicate, hnullable, htype]
      rfl
  | enum =>
    obtain ⟨v, vs, hvs⟩ := List.exists_cons_of_ne_nil (henum htype)
    refine hcompile .eq (.text v) (f.column.test fun cell ↦ cell.eq collation (.text v)) ?_ ?_ ?_
      (htest _)
    · rw [htype]
      decide
    · change checkItem py f.spec (.text v) _ = _
      rw [checkItem.eq_def, show f.spec.type = _ from htype]
      refine if_pos (decide_eq_true ?_)
      rw [show f.spec.enumValues = _ from hvs]
      exact List.mem_cons_self ..
    · rw [columnPredicate, hnullable, htype]
      rfl
  | datetime =>
    have hparse : ∀ path, parseDatetimeValue py (.text "1970-01-01") path = .ok 0 := by
      intro path
      rw [parseDatetimeValue, py.epoch]
      rfl
    refine hcompile .before (.text "1970-01-01") (datetimeCompare f.column false .lt 0) ?_ ?_ ?_
      (datetimeCompare_spec (x := none) hnone)
    · rw [htype]
      decide
    · change checkItem py f.spec (.text "1970-01-01") _ = _
      rw [checkItem.eq_def, show f.spec.type = _ from htype]
      exact bind_eq_ok.2 ⟨0, hparse _, rfl⟩
    · rw [columnPredicate, hnullable, htype]
      dsimp only
      rw [if_neg (by decide), if_neg (by decide)]
      refine bind_eq_ok.2 ⟨_, ?_, rfl⟩
      rw [positivePredicate, if_pos rfl, if_neg (fun h ↦ by cases h), datetimePredicate]
      exact bind_eq_ok.2 ⟨0, hparse _, rfl⟩
  | bool => exact absurd htype hbool

end Spec

end Tiqora.Filters
