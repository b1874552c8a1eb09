import Tiqora.Filters.Predicates

namespace Tiqora.Filters

open Foundation

variable {ρ : Type} (py : Builtins) (collation : Collation)

def Value.moment : Value → Option ℤ
  | .text s => py.fromisoformat s
  | _ => none

/-- Whether a value that is not `NULL` meets a positive operator. Integers have no bounds here. -/
def Cell.meets (type : FieldType) (now : Now) (op : ConditionOp) (value : Value) (cell : Cell) :
    Bool :=
  match op with
  | .eq => cell.eq collation value
  | .in_ => value.items.any fun v ↦ cell.eq collation v
  | .contains =>
    match cell, value with
    | .text s, .text v =>
      v.toList.map collation.folding.lower <:+: s.toList.map collation.folding.lower
    | _, _ => false
  | .startsWith =>
    match cell, value with
    | .text s, .text v =>
      v.toList.map collation.folding.lower <+: s.toList.map collation.folding.lower
    | _, _ => false
  | .isNotEmpty => type = .datetime || !cell.eq collation (.text "")
  | .lt | .lte | .gt | .gte => cell.compares op value
  | .between =>
    let low := (value.get? "from").getD .null
    let high := (value.get? "to").getD .null
    if type = .datetime then
      ((low.moment py).any fun dt ↦ cell.timed .gte dt) &&
        (high.moment py).any fun dt ↦ cell.timed .lt dt
    else cell.compares .gte low && cell.compares .lte high
  | .before => (value.moment py).any fun dt ↦ cell.timed .lt dt
  | .after => (value.moment py).any fun dt ↦ cell.timed .gt dt
  | .withinLast => (relativeSeconds value).any fun delta ↦ cell.timed .gte (now.seconds - delta)
  | .olderThan => (relativeSeconds value).any fun delta ↦ cell.timed .lt (now.seconds - delta)
  | .neq | .notIn | .isEmpty | .isTrue | .isFalse => false

/-- The meaning of a condition on a value that may be `NULL`. -/
def Condition.holds (c : Condition) (type : FieldType) (now : Now) (x : Option Cell) : Bool :=
  match c.op with
  | .neq => !x.any (Cell.meets py collation type now .eq c.value)
  | .notIn => !x.any (Cell.meets py collation type now .in_ c.value)
  | .isEmpty => !x.any (Cell.meets py collation type now .isNotEmpty c.value)
  | .isTrue => x = some (.bool true)
  | .isFalse => x = some (.bool false)
  | op => x.any (Cell.meets py collation type now op c.value)

mutual

/-- The plain evaluation of a filter tree. -/
def FilterNode.holds (leaf : Condition → Bool) : FilterNode → Bool
  | .cond c => leaf c
  | .all first rest => first.holds leaf && FilterNode.holdsAll leaf rest
  | .any first rest => first.holds leaf || FilterNode.holdsAny leaf rest
  | .not child => !child.holds leaf

def FilterNode.holdsAll (leaf : Condition → Bool) : List FilterNode → Bool
  | [] => true
  | node :: nodes => node.holds leaf && FilterNode.holdsAll leaf nodes

def FilterNode.holdsAny (leaf : Condition → Bool) : List FilterNode → Bool
  | [] => false
  | node :: nodes => node.holds leaf || FilterNode.holdsAny leaf nodes

end

def Filter.holds (leaf : Condition → Bool) (flt : Filter) : Bool :=
  flt.all (FilterNode.holds leaf)

/-- A relative date that reaches back before the first `datetime`. -/
def Condition.Overflows (c : Condition) (now : Now) : Prop :=
  (c.op = .withinLast ∨ c.op = .olderThan) ∧
    ∃ delta, relativeSeconds c.value = some delta ∧ now.seconds - delta < minMoment

variable {py collation} {type : FieldType} {now : Now} {c : Condition} {col : Column ρ} {r : ρ}

theorem Cell.contains_eq (cell : Cell) (value : Value) :
    cell.contains collation value = cell.meets py collation type now .contains value := by
  cases cell <;> cases value <;> try rfl
  next s v => exact like_contains (S := likeSyntax) v.toList s.toList

theorem Cell.startsWith_eq (cell : Cell) (value : Value) :
    cell.startsWith collation value = cell.meets py collation type now .startsWith value := by
  cases cell <;> cases value <;> try rfl
  next s v => exact like_starts (S := likeSyntax) v.toList s.toList

/-- The predicate stands for the test of the value: it is `NULL` or false on `NULL`. -/
def Represents (p : Predicate ρ) (r : ρ) (x : Option Cell) (f : Cell → Bool) : Prop :=
  p r = x.map f ∨ p r = some (x.any f)

theorem decide_of_bounds {a b P : Prop} [Decidable a] [Decidable b] [Decidable P] {answer : Bool}
    (h : (if a then some true else if b then some false else none) = some answer) (ha : a → P)
    (hb : b → ¬ P) : decide P = answer := by
  split at h
  · next htrue =>
    cases h
    exact decide_eq_true (ha htrue)
  · split at h
    · next hfalse =>
      cases h
      exact decide_eq_false (hb hfalse)
    · cases h

theorem constCompare_spec {op : ConditionOp} {n v lo hi : ℤ} {b : Bool} (hlo : lo ≤ n)
    (hhi : n ≤ hi) (h : constCompare op v lo hi = some b) : compares op n v = b := by
  cases op with
  | lt => exact decide_of_bounds h (fun _ ↦ by omega) fun _ ↦ by omega
  | lte => exact decide_of_bounds h (fun _ ↦ by omega) fun _ ↦ by omega
  | gt => exact decide_of_bounds h (fun _ ↦ by omega) fun _ ↦ by omega
  | gte => exact decide_of_bounds h (fun _ ↦ by omega) fun _ ↦ by omega
  | _ => cases h

theorem compare_spec {op : ConditionOp} {n v lo hi : ℤ} (hvalue : col.value r = some (.int n))
    (hlo : lo ≤ n) (hhi : n ≤ hi) : compare col op v lo hi r = some (compares op n v) := by
  rw [compare]
  cases h : constCompare op v lo hi with
  | none =>
    dsimp only
    rw [Column.test, hvalue]
    rfl
  | some b => exact congrArg some (constCompare_spec hlo hhi h).symm

theorem datetimeCompare_spec {op : ConditionOp} {dt : ℤ} {x : Option ℤ}
    (hvalue : col.value r = x.map .moment) :
    datetimeCompare col false op dt r = x.map fun n ↦ compares op n dt := by
  rw [datetimeCompare, if_neg Bool.false_ne_true, Column.test, hvalue, Option.map_map]
  rfl

theorem epochCompare_spec {op : ConditionOp} {n dt : ℤ} (hvalue : col.value r = some (.int n))
    (hlo : IntType.int.lo ≤ n) (hhi : n ≤ IntType.int.hi) :
    datetimeCompare col true op dt r = some (compares op n dt) := by
  rw [datetimeCompare, if_pos rfl]
  exact compare_spec hvalue hlo hhi

/-- The comparisons of a condition on a date: `P` is their conjunction. -/
structure DateTests (col : Column ρ) (epoch : Bool) (meets : ℤ → Bool) (P : Predicate ρ) :
    Prop where
  known : ∀ r n, (∀ op dt, datetimeCompare col epoch op dt r = some (compares op n dt)) →
    P r = some (meets n)
  null : ∀ r, (∀ op dt, datetimeCompare col epoch op dt r = none) → P r = none

theorem DateTests.congr {epoch : Bool} {f g : ℤ → Bool} {P : Predicate ρ}
    (h : DateTests col epoch f P) (heq : ∀ n, f n = g n) : DateTests col epoch g P :=
  (funext heq : f = g) ▸ h

theorem DateTests.one {epoch : Bool} (op : ConditionOp) (dt : ℤ) :
    DateTests col epoch (fun n ↦ compares op n dt) (datetimeCompare col epoch op dt) :=
  ⟨fun _ _ h ↦ h op dt, fun _ h ↦ h op dt⟩

theorem DateTests.two {epoch : Bool} (op op' : ConditionOp) (dt dt' : ℤ) :
    DateTests col epoch (fun n ↦ compares op n dt && compares op' n dt')
      ((datetimeCompare col epoch op dt).and (datetimeCompare col epoch op' dt')) := by
  refine ⟨fun r n h ↦ ?_, fun r h ↦ ?_⟩
  · rw [Predicate.and, h, h, Truth.and_some]
  · rw [Predicate.and, h, h]
    rfl

/-- A value that passed the check is a date. -/
theorem parsed_of_checked {v : Value} {path : String}
    (h : (do let _ ← parseDatetimeValue py v path : Except FilterError Unit) = .ok ()) :
    ∃ dt, v.moment py = some dt ∧ ∀ path', parseDatetimeValue py v path' = .ok dt := by
  obtain ⟨dt, hdt, -⟩ := bind_eq_ok.1 h
  refine ⟨dt, ?_⟩
  rw [parseDatetimeValue.eq_def] at hdt
  split at hdt
  · next s =>
    split at hdt
    · next parsed hparsed =>
      split at hdt
      · cases hdt
      · next hpos =>
        cases hdt
        refine ⟨hparsed, fun path' ↦ ?_⟩
        rw [parseDatetimeValue, hparsed]
        exact if_neg hpos
    · cases hdt
  · cases hdt

theorem relative_of_checked {v : Value} {path : String}
    (h : (do let _ ← relativeDelta v path : Except FilterError Unit) = .ok ()) :
    ∃ delta, relativeSeconds v = some delta ∧ ∀ path', relativeDelta v path' = .ok delta := by
  obtain ⟨delta, hdelta, -⟩ := bind_eq_ok.1 h
  refine ⟨delta, ?_⟩
  rw [relativeDelta] at hdelta
  cases hseconds : relativeSeconds v with
  | none =>
    rw [hseconds] at hdelta
    cases hdelta
  | some seconds =>
    rw [hseconds] at hdelta
    dsimp only at hdelta
    split at hdelta
    · cases hdelta
    · next hle =>
      cases hdelta
      refine ⟨rfl, fun path' ↦ ?_⟩
      rw [relativeDelta, hseconds]
      exact if_neg hle

section Checked

variable {spec : FilterFieldSpec} {path : String}

theorem checkValue_scalar
    (hop : c.op ∈ [.eq, .neq, .contains, .startsWith, .lt, .lte, .gt, .gte, .before, .after]) :
    checkValue py spec c path =
      match c.value with
      | .null | .list _ | .dict _ => .error ⟨"Bitte genau einen Wert angeben.", path⟩
      | v => checkItem py spec v path := by
  rw [checkValue.eq_def]
  cases hc : c.op <;> rw [hc] at hop <;> first | rfl | exact absurd hop (by decide)

theorem checkItem_of_scalar (h : checkValue py spec c path = .ok ())
    (hop : c.op ∈ [.eq, .neq, .contains, .startsWith, .lt, .lte, .gt, .gte, .before, .after]) :
    checkItem py spec c.value path = .ok () := by
  rw [checkValue_scalar hop] at h
  split at h
  · cases h
  · cases h
  · cases h
  · exact h

theorem checkItems_of_between (h : checkValue py spec c path = .ok ()) (hop : c.op = .between) :
    ∃ low high, c.value.get? "from" = some low ∧ c.value.get? "to" = some high ∧
      checkItem py spec low (path ++ ".from") = .ok () ∧
        checkItem py spec high (path ++ ".to") = .ok () := by
  rw [checkValue, hop] at h
  dsimp only at h
  split at h
  · next entries hvalue =>
    split at h
    · next low high _ hlow hhigh =>
      obtain ⟨⟨⟩, hfrom, hto⟩ := bind_eq_ok.1 h
      rw [hvalue]
      exact ⟨low, high, hlow, hhigh, hfrom, hto⟩
    · cases h
  · cases h

theorem parsed_of_item {v : Value} (htype : spec.type = .datetime)
    (h : checkItem py spec v path = .ok ()) :
    ∃ dt, v.moment py = some dt ∧ ∀ path', parseDatetimeValue py v path' = .ok dt := by
  rw [checkItem.eq_def, htype] at h
  exact parsed_of_checked h

theorem relative_of_value (h : checkValue py spec c path = .ok ())
    (hop : c.op = .withinLast ∨ c.op = .olderThan) :
    ∃ delta, relativeSeconds c.value = some delta ∧
      ∀ path', relativeDelta c.value path' = .ok delta := by
  rcases hop with hop | hop
  · rw [checkValue, hop] at h
    exact relative_of_checked h
  · rw [checkValue, hop] at h
    exact relative_of_checked h

variable (collation now col) in
/-- A datetime condition that passed the checks is a conjunction of comparisons, unless its span
reaches back before the first `datetime`. -/
theorem datetimePredicate_spec (path' : String) (epoch : Bool) (htype : spec.type = .datetime)
    (hchecked : checkValue py spec c path = .ok ())
    (hop : c.op ∈ [.before, .after, .between, .withinLast, .olderThan]) :
    (∃ P, datetimePredicate py col c path' now epoch =
        .ok (if epoch then (col.test fun cell ↦ cell.compares .gt (.int 0)).and P else P) ∧
      DateTests col epoch
        (fun n ↦ (Cell.moment n).meets py collation .datetime now c.op c.value) P) ∨
    c.Overflows now ∧
      datetimePredicate py col c path' now epoch = .error ⟨"Der Zeitraum ist zu groß.", path'⟩ := by
  have hscalar : c.op = .before ∨ c.op = .after → ∃ dt, c.value.moment py = some dt ∧
      ∀ path', parseDatetimeValue py c.value path' = .ok dt := by
    intro h
    refine parsed_of_item htype (checkItem_of_scalar hchecked ?_)
    rcases h with h | h <;> rw [h] <;> decide
  rw [datetimePredicate]
  cases hc : c.op with
  | before =>
    obtain ⟨dt, hmoment, hparse⟩ := hscalar (.inl hc)
    dsimp only
    rw [hparse]
    refine .inl ⟨_, rfl, (DateTests.one .lt dt).congr fun n ↦ ?_⟩
    rw [Cell.meets, hmoment]
    rfl
  | after =>
    obtain ⟨dt, hmoment, hparse⟩ := hscalar (.inr hc)
    dsimp only
    rw [hparse]
    refine .inl ⟨_, rfl, (DateTests.one .gt dt).congr fun n ↦ ?_⟩
    rw [Cell.meets, hmoment]
    rfl
  | between =>
    obtain ⟨low, high, hlow, hhigh, hfrom, hto⟩ := checkItems_of_between hchecked hc
    obtain ⟨dt, hmoment, hparse⟩ := parsed_of_item htype hfrom
    obtain ⟨dt', hmoment', hparse'⟩ := parsed_of_item htype hto
    dsimp only
    rw [hlow, hhigh, Option.getD_some, Option.getD_some, hparse, hparse']
    refine .inl ⟨_, rfl, (DateTests.two .gte .lt dt dt').congr fun n ↦ ?_⟩
    rw [Cell.meets, hlow, hhigh, Option.getD_some, Option.getD_some, hmoment, hmoment']
    rfl
  | withinLast =>
    obtain ⟨delta, hseconds, hdelta⟩ := relative_of_value hchecked (.inl hc)
    dsimp only
    rw [hdelta]
    by_cases hle : minMoment ≤ now.seconds - delta
    · refine .inl ⟨_, bind_eq_ok.2 ⟨delta, rfl, bind_eq_ok.2 ⟨(), if_pos hle, rfl⟩⟩,
        (DateTests.one .gte (now.seconds - delta)).congr fun n ↦ ?_⟩
      rw [Cell.meets, hseconds]
      rfl
    · refine .inr ⟨⟨.inl hc, delta, hseconds, Int.not_le.1 hle⟩, ?_⟩
      have herror : require (minMoment ≤ now.seconds - delta)
          (⟨"Der Zeitraum ist zu groß.", path'⟩ : FilterError) = .error _ := if_neg hle
      change (require (minMoment ≤ now.seconds - delta) _ >>= _) = _
      rw [herror]
      rfl
  | olderThan =>
    obtain ⟨delta, hseconds, hdelta⟩ := relative_of_value hchecked (.inr hc)
    dsimp only
    rw [hdelta]
    by_cases hle : minMoment ≤ now.seconds - delta
    · refine .inl ⟨_, bind_eq_ok.2 ⟨delta, rfl, bind_eq_ok.2 ⟨(), if_pos hle, rfl⟩⟩,
        (DateTests.one .lt (now.seconds - delta)).congr fun n ↦ ?_⟩
      rw [Cell.meets, hseconds]
      rfl
    · refine .inr ⟨⟨.inr hc, delta, hseconds, Int.not_le.1 hle⟩, ?_⟩
      have herror : require (minMoment ≤ now.seconds - delta)
          (⟨"Der Zeitraum ist zu groß.", path'⟩ : FilterError) = .error _ := if_neg hle
      change (require (minMoment ≤ now.seconds - delta) _ >>= _) = _
      rw [herror]
      rfl
  | _ =>
    rw [hc] at hop
    exact absurd hop (by decide)

end Checked

theorem Represents.test {f : Cell → Bool} : Represents (col.test f) r (col.value r) f := .inl rfl

theorem Represents.congr {P : Predicate ρ} {x : Option Cell} {f g : Cell → Bool}
    (h : Represents P r x f) (hfg : ∀ cell ∈ x, f cell = g cell) : Represents P r x g := by
  cases x with
  | none => exact h
  | some cell =>
    have heq : f cell = g cell := hfg cell rfl
    rw [Represents, Option.map_some, Option.any_some, ← heq]
    exact h

variable (py collation now col) in
/-- The positive operators of the types other than dates. -/
theorem positivePredicate_value (path : String) (htype : type ≠ .datetime)
    (hop : c.op ∈ [.eq, .in_, .contains, .startsWith, .isNotEmpty, .lt, .lte, .gt, .gte,
      .between]) :
    ∃ P, positivePredicate py collation col type c path now false = .ok P ∧
      ∀ r, Represents P r (col.value r) (Cell.meets py collation type now c.op c.value) := by
  rw [positivePredicate, if_neg htype]
  cases hc : c.op with
  | eq => exact ⟨_, rfl, fun r ↦ .test⟩
  | in_ => exact ⟨_, rfl, fun r ↦ .test⟩
  | contains =>
    exact ⟨_, rfl, fun r ↦ Represents.test.congr fun cell _ ↦ cell.contains_eq c.value⟩
  | startsWith =>
    exact ⟨_, rfl, fun r ↦ Represents.test.congr fun cell _ ↦ cell.startsWith_eq c.value⟩
  | isNotEmpty =>
    refine ⟨_, rfl, fun r ↦ .inr ?_⟩
    rw [nonEmpty, Predicate.and, Predicate.not, Column.isNotNull, Column.test]
    cases col.value r with
    | none => rfl
    | some cell =>
      rw [Option.map_some, Truth.not_some, Option.isSome_some, Truth.true_and, Option.any_some,
        Cell.meets, decide_eq_false htype, Bool.false_or]
  | lt => exact ⟨_, rfl, fun r ↦ .test⟩
  | lte => exact ⟨_, rfl, fun r ↦ .test⟩
  | gt => exact ⟨_, rfl, fun r ↦ .test⟩
  | gte => exact ⟨_, rfl, fun r ↦ .test⟩
  | between =>
    refine ⟨_, rfl, fun r ↦ .inl ?_⟩
    rw [Predicate.and, Column.test, Column.test]
    cases col.value r with
    | none => rfl
    | some cell =>
      rw [Option.map_some, Option.map_some, Truth.and_some, Option.map_some, Cell.meets,
        if_neg htype]
  | _ =>
    rw [hc] at hop
    exact absurd hop (by decide)

variable (collation now) in
/-- The positive operators of dates. -/
theorem positivePredicate_datetime {spec : FilterFieldSpec} {path : String} (path' : String)
    (htype : spec.type = .datetime) (hcol : col.type = .moment)
    (hchecked : checkValue py spec c path = .ok ())
    (hop : c.op ∈ [.before, .after, .between, .withinLast, .olderThan, .isNotEmpty]) :
    (∃ P, positivePredicate py collation col .datetime c path' now false = .ok P ∧
      ∀ r, Represents P r (col.value r) (Cell.meets py collation .datetime now c.op c.value)) ∨
    c.Overflows now ∧ positivePredicate py collation col .datetime c path' now false =
      .error ⟨"Der Zeitraum ist zu groß.", path'⟩ := by
  rw [positivePredicate, if_pos rfl]
  by_cases hc : c.op = .isNotEmpty
  · rw [if_pos hc, hc]
    refine .inl ⟨_, rfl, fun r ↦ .inr ?_⟩
    rw [if_neg Bool.false_ne_true, Column.isNotNull]
    cases col.value r with
    | none => rfl
    | some cell => rfl
  · rw [if_neg hc]
    have hdates : c.op ∈ [.before, .after, .between, .withinLast, .olderThan] := by
      rcases List.mem_append.1 (show c.op ∈ [.before, .after, .between, .withinLast, .olderThan] ++
        [.isNotEmpty] from hop) with h | h
      · exact h
      · exact absurd (List.mem_singleton.1 h) hc
    rcases datetimePredicate_spec collation now col path' false htype hchecked hdates with
      ⟨P, hP, htests⟩ | herror
    · refine .inl ⟨P, hP, fun r ↦ .inl ?_⟩
      cases hvalue : col.value r with
      | none =>
        exact htests.null r fun op dt ↦ datetimeCompare_spec (x := none) hvalue
      | some cell =>
        have hholds := col.typed r cell hvalue
        rw [hcol] at hholds
        cases cell with
        | moment n =>
          exact htests.known r n fun op dt ↦ datetimeCompare_spec (x := some n) hvalue
        | int n => cases hholds
        | text s => cases hholds
        | bool b => cases hholds
    · exact .inr herror

theorem positive_column {P : Predicate ρ} {x : Option Cell} {f : Cell → Bool} {nullable : Bool}
    (hvalue : col.value r = x) (h : Represents P r x f) (hnull : x = none → nullable = true) :
    (if nullable then col.isNotNull.and P else P) r = some (x.any f) := by
  cases x with
  | none =>
    rw [if_pos (hnull rfl), Predicate.and, Column.isNotNull, hvalue]
    rfl
  | some cell =>
    have hP : P r = some (f cell) := h.elim id id
    cases nullable with
    | false => exact hP
    | true =>
      rw [if_pos rfl, Predicate.and, Column.isNotNull, hvalue, hP]
      exact Truth.true_and

theorem negated_column {P : Predicate ρ} {x : Option Cell} {f : Cell → Bool} {nullable : Bool}
    (hvalue : col.value r = x) (h : Represents P r x f) (hnull : x = none → nullable = true) :
    (if nullable then col.isNull.or P.not else P.not) r = some (!x.any f) := by
  cases x with
  | none =>
    rw [if_pos (hnull rfl), Predicate.or, Column.isNull, hvalue]
    rfl
  | some cell =>
    have hP : P r = some (f cell) := h.elim id id
    cases nullable with
    | false =>
      rw [if_neg Bool.false_ne_true, Predicate.not, hP]
      rfl
    | true =>
      rw [if_pos rfl, Predicate.or, Column.isNull, Predicate.not, hvalue, hP]
      exact Truth.false_or

section Fit

variable {lo hi n : ℤ}

theorem eq_of_not_fits {v : Value} (hlo : lo ≤ n) (hhi : n ≤ hi) (h : v.fits lo hi = false) :
    (Cell.int n).eq collation v = false := by
  cases v with
  | int m =>
    have hout : ¬ (lo ≤ m ∧ m ≤ hi) := of_decide_eq_false h
    refine decide_eq_false fun heq ↦ hout ?_
    rw [← heq]
    exact ⟨hlo, hhi⟩
  | _ => rfl

variable (collation) in
theorem any_fits (items : List Value) (hlo : lo ≤ n) (hhi : n ≤ hi) :
    (items.any fun v ↦ (Cell.int n).eq collation v) =
      (items.filter (Value.fits lo hi)).any fun v ↦ (Cell.int n).eq collation v := by
  rw [List.any_filter]
  refine congrArg items.any (funext fun v ↦ ?_)
  cases hfits : v.fits lo hi with
  | true => rfl
  | false => exact eq_of_not_fits hlo hhi hfits

/-- What fitting makes of a condition says the same of a value in the range. -/
def FitsTo (py : Builtins) (collation : Collation) (type : FieldType) (now : Now) (n : ℤ)
    (c : Condition) : Condition ⊕ Bool → Prop
  | .inl c' => c'.op = c.op ∧ c'.holds py collation type now (some (.int n)) =
      c.holds py collation type now (some (.int n))
  | .inr b => c.holds py collation type now (some (.int n)) = b

theorem fit_eq (hlo : lo ≤ n) (hhi : n ≤ hi) (hop : c.op = .eq ∨ c.op = .neq) :
    FitsTo py collation type now n c (fitIntCondition c lo hi) := by
  rcases hop with hop | hop
  · rw [fitIntCondition, hop]
    dsimp only
    split
    · exact ⟨rfl, rfl⟩
    · next hfits =>
      rw [FitsTo, Condition.holds, hop]
      exact eq_of_not_fits hlo hhi (Bool.eq_false_iff.2 hfits)
  · rw [fitIntCondition, hop]
    dsimp only
    split
    · exact ⟨rfl, rfl⟩
    · next hfits =>
      rw [FitsTo, Condition.holds, hop]
      exact congrArg (fun b ↦ !b) (eq_of_not_fits hlo hhi (Bool.eq_false_iff.2 hfits))

theorem fit_in (hlo : lo ≤ n) (hhi : n ≤ hi) (hop : c.op = .in_ ∨ c.op = .notIn) :
    FitsTo py collation type now n c (fitIntCondition c lo hi) := by
  have hany := any_fits collation c.value.items hlo hhi
  rcases hop with hop | hop
  · rw [fitIntCondition, hop]
    dsimp only
    split
    · next hkept =>
      rw [hkept] at hany
      rw [FitsTo, Condition.holds, hop]
      exact hany
    · next hkept =>
      refine ⟨hop.symm, ?_⟩
      rw [Condition.holds, Condition.holds, hop]
      exact hany.symm
  · rw [fitIntCondition, hop]
    dsimp only
    split
    · next hkept =>
      rw [hkept] at hany
      rw [FitsTo, Condition.holds, hop]
      exact congrArg (fun b ↦ !b) hany
    · next hkept =>
      refine ⟨hop.symm, ?_⟩
      rw [Condition.holds, Condition.holds, hop]
      exact congrArg (fun b ↦ !b) hany.symm

theorem fitIntCondition_compare (hop : c.op ∈ [.lt, .lte, .gt, .gte]) : fitIntCondition c lo hi =
    match c.value with
    | .int v =>
      match constCompare c.op v lo hi with
      | none => .inl c
      | some b => .inr b
    | _ => .inl c := by
  rw [fitIntCondition.eq_def]
  cases hc : c.op <;> rw [hc] at hop <;> first | rfl | exact absurd hop (by decide)

theorem fit_compare (hlo : lo ≤ n) (hhi : n ≤ hi) (hop : c.op ∈ [.lt, .lte, .gt, .gte]) :
    FitsTo py collation type now n c (fitIntCondition c lo hi) := by
  rw [fitIntCondition_compare hop]
  split
  · next v hv =>
    split
    · exact ⟨rfl, rfl⟩
    · next b hconst =>
      have hholds : c.holds py collation type now (some (.int n)) = compares c.op n v := by
        rw [Condition.holds.eq_def]
        cases hc : c.op <;> rw [hc] at hop <;>
          first | exact absurd hop (by decide) | exact congrArg ((Cell.int n).compares _) hv
      rw [FitsTo, hholds]
      exact constCompare_spec hlo hhi hconst
  · exact ⟨rfl, rfl⟩

theorem fit_between (hlo : lo ≤ n) (hhi : n ≤ hi) (htype : type ≠ .datetime)
    (hop : c.op = .between) : FitsTo py collation type now n c (fitIntCondition c lo hi) := by
  rw [fitIntCondition, hop]
  dsimp only
  split
  · next low high hfrom hto =>
    have hholds : c.holds py collation type now (some (.int n)) =
        (decide (low ≤ n) && decide (n ≤ high)) := by
      rw [Condition.holds, hop]
      dsimp only
      rw [Option.any_some, Cell.meets, if_neg htype, hfrom, hto]
      rfl
    split
    · next hout =>
      rw [FitsTo, hholds, Bool.and_eq_false_iff, decide_eq_false_iff_not, decide_eq_false_iff_not]
      omega
    · refine ⟨hop.symm, ?_⟩
      rw [hholds, Condition.holds]
      dsimp only
      rw [Option.any_some, Cell.meets, if_neg htype]
      change (decide (max low lo ≤ n) && decide (n ≤ min high hi)) = _
      rw [Bool.eq_iff_iff, Bool.and_eq_true, Bool.and_eq_true]
      simp only [decide_eq_true_iff]
      omega
  · exact ⟨rfl, rfl⟩

variable (py collation now) in
theorem fitIntCondition_spec (hlo : lo ≤ n) (hhi : n ≤ hi) (htype : type ≠ .datetime)
    (hop : c.op ∈ opsByType .int ∨ c.op ∈ opsByType .id) :
    FitsTo py collation type now n c (fitIntCondition c lo hi) := by
  cases hc : c.op with
  | eq => exact fit_eq hlo hhi (.inl hc)
  | neq => exact fit_eq hlo hhi (.inr hc)
  | in_ => exact fit_in hlo hhi (.inl hc)
  | notIn => exact fit_in hlo hhi (.inr hc)
  | between => exact fit_between hlo hhi htype hc
  | lt | lte | gt | gte =>
    refine fit_compare hlo hhi ?_
    rw [hc]
    decide
  | _ =>
    rw [hc] at hop
    exact absurd hop (by decide)

end Fit

/-- The columns that a field of the type can stand for. -/
def FieldType.fits : FieldType → ColumnType → Prop
  | .id, .int _ | .int, .int _ | .string, .text | .enum, .text | .datetime, .moment
  | .bool, .bool => True
  | _, _ => False

variable (py collation now col) in
theorem fittedPredicate_value (path : String) (nullable : Bool) (htype : type ≠ .datetime)
    (hop : c.op ∈ opsByType .string ++ opsByType .int) :
    ∃ P, fittedPredicate py collation col type c path now false nullable = .ok P ∧
      ∀ r, (col.value r = none → nullable = true) →
        P r = some (c.holds py collation type now (col.value r)) := by
  by_cases hempty : c.op = .isEmpty
  · rw [fittedPredicate, if_pos hempty, if_neg htype]
    refine ⟨_, rfl, fun r _ ↦ ?_⟩
    rw [Predicate.or, Column.isNull, Column.test, Condition.holds, hempty]
    cases col.value r with
    | none => rfl
    | some cell =>
      dsimp only
      rw [Option.map_some, Option.isNone_some, Truth.false_or, Option.any_some, Cell.meets,
        decide_eq_false htype, Bool.false_or, Bool.not_not]
  · have hpositive : ∀ c' : Condition, c'.op ∈ [.eq, .in_, .contains, .startsWith, .isNotEmpty,
        .lt, .lte, .gt, .gte, .between] →
        ∃ P, positivePredicate py collation col type c' path now false = .ok P ∧
          ∀ r, Represents P r (col.value r) (Cell.meets py collation type now c'.op c'.value) :=
      fun _ hmem ↦ positivePredicate_value py collation now col path htype hmem
    rw [fittedPredicate, if_neg hempty]
    cases hc : c.op with
    | neq =>
      obtain ⟨P, hP, hrep⟩ := hpositive { c with op := .eq } (List.mem_cons_self ..)
      refine ⟨_, bind_eq_ok.2 ⟨P, hP, rfl⟩, fun r hnull ↦ ?_⟩
      rw [negated_column rfl (hrep r) hnull, Condition.holds, hc]
    | notIn =>
      obtain ⟨P, hP, hrep⟩ := hpositive { c with op := .in_ }
        (List.mem_cons_of_mem _ (List.mem_cons_self ..))
      refine ⟨_, bind_eq_ok.2 ⟨P, hP, rfl⟩, fun r hnull ↦ ?_⟩
      rw [negated_column rfl (hrep r) hnull, Condition.holds, hc]
    | isEmpty => exact absurd hc hempty
    | eq | in_ | contains | startsWith | isNotEmpty | lt | lte | gt | gte | between =>
      obtain ⟨P, hP, hrep⟩ := hpositive c (by rw [hc]; decide)
      refine ⟨_, bind_eq_ok.2 ⟨P, hP, rfl⟩, fun r hnull ↦ ?_⟩
      rw [positive_column rfl (hrep r) hnull, Condition.holds, hc]
    | _ =>
      rw [hc] at hop
      exact absurd hop (by decide)

/-- `NULL` meets a condition with a constant answer only when it is negated, and the answer is then
true. -/
theorem fit_null {lo hi : ℤ} {b : Bool} (hop : c.op ∈ opsByType .int ∨ c.op ∈ opsByType .id)
    (hfit : fitIntCondition c lo hi = .inr b) : c.holds py collation type now none =
      if (negatedOp c.op).isNone then false else b := by
  rw [Condition.holds.eq_def]
  cases hc : c.op with
  | neq =>
    rw [fitIntCondition, hc] at hfit
    dsimp only at hfit
    split at hfit
    · cases hfit
    · cases hfit
      rfl
  | notIn =>
    rw [fitIntCondition, hc] at hfit
    dsimp only at hfit
    split at hfit
    · cases hfit
      rfl
    · cases hfit
  | eq | in_ | lt | lte | gt | gte | between => rfl
  | _ =>
    rw [hc] at hop
    exact absurd hop (by decide)

variable (py collation now) in
/-- The conditions on an integer column, after fitting. -/
theorem columnPredicate_int (path : String) {width : IntType} (htype : type = .id ∨ type = .int)
    (hcol : col.type = .int width) (hop : c.op ∈ opsByType type) :
    ∃ P, columnPredicate py collation col type c path now false = .ok P ∧
      ∀ r, (col.value r = none → col.nullable = true) →
        P r = some (c.holds py collation type now (col.value r)) := by
  have hdate : type ≠ .datetime := by rcases htype with rfl | rfl <;> decide
  have hbool : type ≠ .bool := by rcases htype with rfl | rfl <;> decide
  have hops : c.op ∈ opsByType .int ∨ c.op ∈ opsByType .id := by
    rcases htype with rfl | rfl
    · exact .inr hop
    · exact .inl hop
  have hint : col.intType = width := by rw [Column.intType, hcol]
  have hcell : ∀ r cell, col.value r = some cell →
      ∃ n, cell = .int n ∧ width.lo ≤ n ∧ n ≤ width.hi := by
    intro r cell hvalue
    have hholds := col.typed r cell hvalue
    rw [hcol] at hholds
    cases cell with
    | int n => exact ⟨n, rfl, hholds⟩
    | text s => cases hholds
    | moment n => cases hholds
    | bool b => cases hholds
  have hnull : ∀ c' : Condition, c'.op = c.op → c'.holds py collation type now none =
      c.holds py collation type now none := by
    intro c' heq
    rw [Condition.holds.eq_def, Condition.holds.eq_def, heq]
    cases c.op <;> rfl
  rw [columnPredicate, if_neg hbool, if_pos htype, hint]
  dsimp only
  cases hfit : fitIntCondition c width.lo width.hi with
  | inl c' =>
    have hspec : ∀ n, width.lo ≤ n → n ≤ width.hi → FitsTo py collation type now n c (.inl c') := by
      intro n hlo hhi
      rw [← hfit]
      exact fitIntCondition_spec py collation now hlo hhi hdate hops
    have hwide : width.lo ≤ 0 ∧ 0 ≤ width.hi := by cases width <;> decide
    have hopeq : c'.op = c.op := (hspec 0 hwide.1 hwide.2).1
    have hmem : c'.op ∈ opsByType .string ++ opsByType .int := by
      rw [hopeq]
      rcases hops with hops | hops
      · exact List.mem_append_right _ hops
      · exact List.mem_append_left _ (List.mem_of_mem_take (i := 4) hops)
    obtain ⟨P, hP, hvalue⟩ := fittedPredicate_value py collation now col path col.nullable
      hdate hmem
    refine ⟨P, hP, fun r hnullable ↦ ?_⟩
    rw [hvalue r hnullable]
    cases hr : col.value r with
    | none => rw [hnull c' hopeq]
    | some cell =>
      obtain ⟨n, rfl, hlo, hhi⟩ := hcell r cell hr
      rw [(hspec n hlo hhi).2]
  | inr b =>
    have hspec : ∀ n, width.lo ≤ n → n ≤ width.hi →
        c.holds py collation type now (some (.int n)) = b := by
      intro n hlo hhi
      have h := fitIntCondition_spec py collation now hlo hhi hdate hops
      rw [hfit] at h
      exact h
    refine ⟨_, rfl, fun r hnullable ↦ ?_⟩
    cases hr : col.value r with
    | none =>
      rw [Bool.not_false, Bool.true_and, hnullable hr, fit_null hops hfit]
      split
      · next hpositive =>
        rw [Predicate.and, Column.isNotNull, hr]
        exact congrArg some (if_pos hpositive.2).symm
      · next hnegated =>
        exact congrArg some (if_neg fun h ↦ hnegated ⟨rfl, h⟩).symm
    | some cell =>
      obtain ⟨n, rfl, hlo, hhi⟩ := hcell r cell hr
      rw [hspec n hlo hhi]
      split
      · rw [Predicate.and, Column.isNotNull, hr]
        exact Truth.true_and
      · rfl

variable (collation now) in
theorem fittedPredicate_datetime {spec : FilterFieldSpec} {path : String} (path' : String)
    (nullable : Bool) (htype : spec.type = .datetime) (hcol : col.type = .moment)
    (hchecked : checkValue py spec c path = .ok ()) (hop : c.op ∈ opsByType .datetime) :
    (∃ P, fittedPredicate py collation col .datetime c path' now false nullable = .ok P ∧
      ∀ r, (col.value r = none → nullable = true) →
        P r = some (c.holds py collation .datetime now (col.value r))) ∨
    c.Overflows now ∧ fittedPredicate py collation col .datetime c path' now false nullable =
      .error ⟨"Der Zeitraum ist zu groß.", path'⟩ := by
  by_cases hempty : c.op = .isEmpty
  · rw [fittedPredicate, if_pos hempty, if_pos rfl, if_neg Bool.false_ne_true]
    refine .inl ⟨_, rfl, fun r _ ↦ ?_⟩
    rw [Column.isNull, Condition.holds, hempty]
    cases col.value r with
    | none => rfl
    | some cell => rfl
  · have hpositive : c.op ∈ [.before, .after, .between, .withinLast, .olderThan, .isNotEmpty] := by
      cases hc : c.op with
      | isEmpty => exact absurd hc hempty
      | _ =>
        rw [hc] at hop
        revert hop
        decide
    have hnegated : negatedOp c.op = none := by
      cases hc : c.op with
      | neq | notIn =>
        rw [hc] at hop
        exact absurd hop (by decide)
      | _ => rfl
    have hholds : ∀ x, c.holds py collation .datetime now x =
        x.any (Cell.meets py collation .datetime now c.op c.value) := by
      intro x
      rw [Condition.holds.eq_def]
      cases hc : c.op with
      | neq | notIn | isTrue | isFalse =>
        rw [hc] at hop
        exact absurd hop (by decide)
      | isEmpty => exact absurd hc hempty
      | _ => rfl
    rw [fittedPredicate, if_neg hempty, hnegated]
    dsimp only
    rcases positivePredicate_datetime collation now path' htype hcol hchecked hpositive with
      ⟨P, hP, hrep⟩ | ⟨hover, herror⟩
    · refine .inl ⟨_, bind_eq_ok.2 ⟨P, hP, rfl⟩, fun r hnull ↦ ?_⟩
      rw [positive_column rfl (hrep r) hnull, hholds]
    · refine .inr ⟨hover, ?_⟩
      rw [herror]
      rfl

variable (collation now) in
/-- A condition that passed the checks means what it says on every row whose `NULL` the column
declares, unless its span reaches back before the first `datetime`. -/
theorem columnPredicate_spec {spec : FilterFieldSpec} {path : String} (path' : String)
    (hchecked : checkValue py spec c path = .ok ()) (hop : c.op ∈ spec.allowedOps)
    (hfits : spec.type.fits col.type) :
    (∃ P, columnPredicate py collation col spec.type c path' now false = .ok P ∧
      ∀ r, (col.value r = none → col.nullable = true ∨ spec.type = .bool) →
        P r = some (c.holds py collation spec.type now (col.value r))) ∨
    c.Overflows now ∧ columnPredicate py collation col spec.type c path' now false =
      .error ⟨"Der Zeitraum ist zu groß.", path'⟩ := by
  have hops := spec.allowedOps_subset hop
  cases htype : spec.type with
  | bool =>
    rw [htype] at hops
    rw [columnPredicate, if_pos rfl]
    refine .inl ⟨_, rfl, fun r _ ↦ ?_⟩
    rw [Column.is_, Condition.holds.eq_def]
    cases hc : c.op with
    | isTrue => rfl
    | isFalse => rfl
    | _ =>
      rw [hc] at hops
      exact absurd hops (by decide)
  | id | int =>
    rw [htype] at hops hfits
    cases hcol : col.type with
    | int width =>
      obtain ⟨P, hP, hvalue⟩ := columnPredicate_int py collation now path' (by simp) hcol hops
      exact .inl ⟨P, hP, fun r hnull ↦ hvalue r fun h ↦ (hnull h).resolve_right nofun⟩
    | _ =>
      rw [hcol] at hfits
      cases hfits
  | string | enum =>
    rw [htype] at hops
    have hmem : c.op ∈ opsByType .string ++ opsByType .int := by
      revert hops
      cases c.op <;> decide
    have hdate : spec.type ≠ .datetime := by
      rw [htype]
      exact nofun
    have hfitted := fittedPredicate_value py collation now col path' col.nullable hdate hmem
    rw [htype] at hfitted
    obtain ⟨P, hP, hvalue⟩ := hfitted
    refine .inl ⟨P, hP, fun r hnull ↦ hvalue r fun h ↦ (hnull h).resolve_right nofun⟩
  | datetime =>
    rw [htype] at hops hfits
    cases hcol : col.type with
    | moment =>
      rcases fittedPredicate_datetime collation now path' col.nullable htype hcol hchecked hops with
        ⟨P, hP, hvalue⟩ | herror
      · exact .inl ⟨P, hP, fun r hnull ↦ hvalue r fun h ↦ (hnull h).resolve_right nofun⟩
      · exact .inr herror
    | _ =>
      rw [hcol] at hfits
      cases hfits

end Tiqora.Filters
