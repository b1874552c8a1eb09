import Mathlib.Data.Nat.Digits.Defs
import Tiqora.Process.Conditions

namespace Tiqora.Process

open Foundation Foundation.Civil

section Strings

variable {s v : Text} {t : Stamp} {tags : List (Text × Text)}

/-- The date that a text has the shape of. -/
def stamp? (s : Text) : Option Stamp := (datetime? s).or (date? s)

def noSuchDate (s : Text) : Bool := (stamp? s).any fun t ↦ !t.exists'

/-- An integer that `int` does not take. -/
def tooLong (s : Text) : Bool :=
  isIntegerText s && maxDigits < (if s.head? = some '-' then s.tail else s).length

theorem valueValidate_eq (s : Text) : valueValidate s =
    match stamp? s with
    | some t => t.timestamp.map intText
    | none => .ok s := by
  unfold valueValidate stamp?
  cases datetime? s with
  | some t => rfl
  | none =>
    cases date? s with
    | some t => rfl
    | none => rfl

/-- The text of a date raises where there is no such date, and only there. -/
theorem valueValidate_raises (s : Text) :
    (∃ e, valueValidate s = .error e) ↔ noSuchDate s = true := by
  rw [valueValidate_eq, noSuchDate]
  cases stamp? s with
  | none => simp
  | some t =>
    unfold Stamp.timestamp
    cases ht : t.exists' <;> simp [Except.map, ht]

theorem asInteger_raises (s : Text) : (∃ e, asInteger s = .error e) ↔ tooLong s = true := by
  unfold asInteger tooLong
  by_cases hint : isIntegerText s = true
  · rw [if_pos hint, hint]
    by_cases hlong : maxDigits < (if s.head? = some '-' then s.tail else s).length
    · simp [hlong]
    · simp [hlong]
  · rw [if_neg hint]
    simp [hint]

theorem isDigit_of_isIntegerText (h : isIntegerText s = true) :
    ∀ c ∈ (if s.head? = some '-' then s.tail else s), c.isDigit = true := by
  unfold isIntegerText at h
  rw [Bool.or_eq_true, Bool.and_eq_true, List.all_eq_true, decide_eq_true_eq] at h
  rcases h with heq | ⟨hall, -⟩
  · intro c hc
    rw [heq, List.mem_singleton] at hc
    rw [hc]
    rfl
  · exact hall

/-- No integer has the shape of a date. -/
theorem stamp?_of_isIntegerText (h : isIntegerText s = true) : stamp? s = none := by
  have hday : day? s = none := by
    have hdigits := isDigit_of_isIntegerText h
    by_cases hminus : s.head? = some '-'
    · obtain ⟨rest, rfl⟩ : ∃ rest, s = '-' :: rest := by
        cases s with
        | nil => cases hminus
        | cons c rest => exact ⟨rest, congrArg (· :: rest) (Option.some.inj hminus)⟩
      rfl
    · rw [if_neg hminus] at hdigits
      have hrest : s.dropWhile isDigit = [] :=
        List.dropWhile_eq_nil_iff.2 fun c hc ↦ isDigit_of_ascii (hdigits c hc)
      unfold day? number?
      rw [hrest]
      dsimp only
      split <;> rfl
  unfold stamp? datetime? date?
  rw [hday]
  rfl

theorem epoch_bounds (h : t.exists' = true) : -1000000000000 < t.epoch ∧ t.epoch < 1000000000000 := by
  simp only [Stamp.exists', Bool.and_eq_true, decide_eq_true_eq] at h
  obtain ⟨⟨⟨⟨⟨⟨⟨⟨hyear, hyear'⟩, hmonth⟩, hmonth'⟩, hday⟩, hday'⟩, hhour⟩, hminute⟩, hsecond⟩ := h
  have hindex : t.monthIndex ≤ 119987 := by
    unfold Stamp.monthIndex
    omega
  have hstart : monthStart (0 + t.monthIndex) ≤ monthStart 0 + 31 * t.monthIndex :=
    monthStart_add_le 0 t.monthIndex
  have hzero : monthStart 0 = 0 := rfl
  have hlength := monthLength_le t.monthIndex
  rw [Nat.zero_add, hzero] at hstart
  unfold Stamp.epoch ofMonthDay
  omega

theorem length_intText {z : ℤ} (h : -1000000000000 < z ∧ z < 1000000000000) :
    (intText z).length ≤ 13 := by
  have hdigits : (Nat.toDigits 10 z.natAbs).length ≤ 12 :=
    Nat.toDigits_length 10 z.natAbs 12 (by decide) (by omega)
  unfold intText
  split
  · rw [List.length_cons]
    omega
  · omega

/-- What is compared is too long where it was before. -/
theorem tooLong_validated (h : valueValidate s = .ok v) : tooLong v = tooLong s := by
  rw [valueValidate_eq] at h
  cases hstamp : stamp? s with
  | none =>
    rw [hstamp] at h
    cases h
    rfl
  | some t =>
    rw [hstamp] at h
    dsimp only at h
    unfold Stamp.timestamp at h
    have hshort : tooLong s = false := by
      cases hint : isIntegerText s with
      | false => rw [tooLong, hint, Bool.false_and]
      | true =>
        rw [stamp?_of_isIntegerText hint] at hstamp
        cases hstamp
    cases hexists : t.exists' with
    | false =>
      rw [hexists] at h
      cases h
    | true =>
      rw [hexists] at h
      obtain rfl : intText t.epoch = v := Except.ok.inj h
      have hlength := length_intText (epoch_bounds hexists)
      have htail : (if (intText t.epoch).head? = some '-' then (intText t.epoch).tail
          else intText t.epoch).length ≤ 13 := by
        split
        · rw [List.length_tail]
          omega
        · exact hlength
      have hdigits : maxDigits = 4300 := rfl
      rw [hshort, tooLong, Bool.and_eq_false_iff]
      exact .inr (decide_eq_false (by omega))

end Strings

section Fields

variable (rt : Runtime) (data : Data) (tags : List (Text × Text)) (field : Text × Condition)

/-- The text of the ticket that a comparison converts. -/
def checkedText (fieldName : Text) : Option Text :=
  match checkSource rt data tags fieldName with
  | .inl _ => none
  | .inr check => if perlTrue (some check) then some (sub tags check) else some check

/-- The text of the configuration that a comparison converts. -/
def matchedText (match' : Value) : Option Text := (scalar match').map (sub tags)

/-- A comparison gets the text of a date that does not exist, or orders integers of which one is
too long. -/
def breaks : Bool :=
  match conditionTypes.lookup field.2.type with
  | some (.base type) =>
    (checkedText rt data tags field.1).any noSuchDate ||
      (matchedText tags field.2.match').any noSuchDate ||
      (orderedOp type).isSome && (checkedText rt data tags field.1).isSome &&
        (matchedText tags field.2.match').isSome &&
        ((checkedText rt data tags field.1).any tooLong ||
          (matchedText tags field.2.match').any tooLong)
  | _ => false

theorem ordered_raises (check match' : Text) (op : ℤ → ℤ → Bool) :
    (∃ e, ordered (.inr check) (.inr match') op = .error e) ↔
      (tooLong check || tooLong match') = true := by
  rw [Bool.or_eq_true, ← asInteger_raises, ← asInteger_raises]
  dsimp only [ordered]
  generalize asInteger check = x
  generalize asInteger match' = y
  cases x with
  | error e => simp [bind, Except.bind]
  | ok x =>
    cases y with
    | error e => simp [bind, Except.bind]
    | ok y => cases x <;> cases y <;> simp [bind, Except.bind]

theorem quiet_falsy {check : Text} (h : perlTrue (some check) = false) :
    noSuchDate check = false ∧ tooLong check = false := by
  have hcheck : check = [] ∨ check = ['0'] := by
    by_contra hne
    rw [not_or] at hne
    simp [perlTrue, hne.1, hne.2] at h
  rcases hcheck with rfl | rfl
  · exact ⟨rfl, rfl⟩
  · exact ⟨by decide, by decide⟩

/-- The side of the ticket raises for its text, or leaves it as long as it was. -/
theorem checkValueGet_cases (fieldName : Text) :
    ((checkedText rt data tags fieldName).any noSuchDate = true ∧
        ∃ e, checkValueGet rt data tags fieldName = .error e) ∨
      ((checkedText rt data tags fieldName).any noSuchDate = false ∧
        ∃ side, checkValueGet rt data tags fieldName = .ok side ∧
          ((∃ items, side = .inl items) ∧ checkedText rt data tags fieldName = none ∨
            ∃ v s, side = .inr v ∧ checkedText rt data tags fieldName = some s ∧
              tooLong v = tooLong s)) := by
  unfold checkValueGet checkedText
  cases checkSource rt data tags fieldName with
  | inl items => exact .inr ⟨rfl, _, rfl, .inl ⟨⟨items, rfl⟩, rfl⟩⟩
  | inr check =>
    dsimp only
    by_cases htrue : perlTrue (some check) = true
    · rw [if_pos htrue, if_pos htrue, Option.any_some]
      cases hv : valueValidate (sub tags check) with
      | error e => exact .inl ⟨(valueValidate_raises _).1 ⟨e, hv⟩, e, rfl⟩
      | ok v =>
        have hdate : noSuchDate (sub tags check) = false := by
          refine Bool.eq_false_iff.2 fun hdate ↦ ?_
          obtain ⟨e, he⟩ := (valueValidate_raises _).2 hdate
          rw [hv] at he
          cases he
        exact .inr ⟨hdate, _, rfl, .inr ⟨v, _, rfl, rfl, tooLong_validated hv⟩⟩
    · rw [if_neg htrue, if_neg htrue, Option.any_some]
      have hquiet := quiet_falsy (Bool.eq_false_iff.2 htrue)
      exact .inr ⟨hquiet.1, _, rfl, .inr ⟨check, check, rfl, rfl, rfl⟩⟩

theorem matchValueGet_cases (match' : Value) :
    ((matchedText tags match').any noSuchDate = true ∧ ∃ e, matchValueGet tags match' = .error e) ∨
      ((matchedText tags match').any noSuchDate = false ∧
        ∃ side, matchValueGet tags match' = .ok side ∧
          ((∀ v, side ≠ some (.inr v)) ∧ matchedText tags match' = none ∨
            ∃ v s, side = some (.inr v) ∧ matchedText tags match' = some s ∧
              tooLong v = tooLong s)) := by
  have hscalar : ∀ s, (noSuchDate (sub tags s) = true ∧
        ∃ e, (valueValidate (sub tags s)).map (fun v ↦ some (Sum.inr v : Side)) = .error e) ∨
      (noSuchDate (sub tags s) = false ∧
        ∃ v, (valueValidate (sub tags s)).map (fun v ↦ some (Sum.inr v : Side)) =
          .ok (some (.inr v)) ∧ tooLong v = tooLong (sub tags s)) := by
    intro s
    cases hv : valueValidate (sub tags s) with
    | error e => exact .inl ⟨(valueValidate_raises _).1 ⟨e, hv⟩, e, rfl⟩
    | ok v =>
      refine .inr ⟨Bool.eq_false_iff.2 fun hdate ↦ ?_, v, rfl, tooLong_validated hv⟩
      obtain ⟨e, he⟩ := (valueValidate_raises _).2 hdate
      rw [hv] at he
      cases he
  unfold matchValueGet matchedText scalar
  cases match' with
  | null => exact .inr ⟨rfl, _, rfl, .inl ⟨(fun _ h ↦ by cases h), rfl⟩⟩
  | list items => exact .inr ⟨rfl, _, rfl, .inl ⟨(fun _ h ↦ by cases h), rfl⟩⟩
  | hash entries => exact .inr ⟨rfl, _, rfl, .inl ⟨(fun _ h ↦ by cases h), rfl⟩⟩
  | text s =>
    rcases hscalar s with hraise | ⟨hdate, v, hv, hlong⟩
    · exact .inl hraise
    · exact .inr ⟨hdate, _, hv, .inr ⟨v, _, rfl, rfl, hlong⟩⟩
  | other s =>
    rcases hscalar s with hraise | ⟨hdate, v, hv, hlong⟩
    · exact .inl hraise
    · exact .inr ⟨hdate, _, hv, .inr ⟨v, _, rfl, rfl, hlong⟩⟩

/-- A comparison raises where it orders texts of which one is too long. -/
theorem baseCompare_raises (type : BaseType) (check match' : Side) :
    (∃ e, baseCompare rt type check match' = .error e) ↔ (orderedOp type).isSome = true ∧
      ∃ c m, check = .inr c ∧ match' = .inr m ∧ (tooLong c || tooLong m) = true := by
  unfold baseCompare
  cases hop : orderedOp type with
  | some op =>
    cases check with
    | inl items => simp [ordered]
    | inr c =>
      cases match' with
      | inl items => simp [ordered]
      | inr m =>
        rw [ordered_raises]
        simp
  | none => cases type <;> simp

theorem compared_raises (type : BaseType) (check : Side) (matchValue : Option Side) :
    (∃ e : ValueError, (match matchValue with
        | some match' => (baseCompare rt type check match').map decided
        | none => (.ok .noMatch : Except ValueError Result)) = .error e) ↔
      (orderedOp type).isSome = true ∧
        ∃ c m, check = .inr c ∧ matchValue = some (.inr m) ∧ (tooLong c || tooLong m) = true := by
  cases matchValue with
  | none => simp
  | some match' =>
    simp only [Option.some_inj]
    rw [← baseCompare_raises rt]
    cases baseCompare rt type check match' <;> simp [Except.map]

/-- A field raises exactly where its texts make it. -/
theorem evaluateField_raises :
    (∃ e, evaluateField rt data tags field = .error e) ↔ breaks rt data tags field = true := by
  unfold evaluateField breaks
  cases htype : conditionTypes.lookup field.2.type with
  | none => simp
  | some type =>
    cases type with
    | base type =>
      dsimp only
      rcases checkValueGet_cases rt data tags field.1 with
        ⟨hdate, e, he⟩ | ⟨hdate, side, hside, hkind⟩
      · rw [he, hdate]
        simp [bind, Except.bind]
      · rw [hside, ok_bind, hdate]
        rcases matchValueGet_cases tags field.2.match' with
          ⟨hmatch, e, he⟩ | ⟨hmatch, matchValue, hvalue, hkind'⟩
        · rw [he, hmatch]
          simp [bind, Except.bind]
        · rw [hvalue, ok_bind, hmatch]
          refine (compared_raises rt type side matchValue).trans ?_
          rcases hkind with ⟨⟨items, rfl⟩, hnone⟩ | ⟨v, s, rfl, hs, hlong⟩
          · rw [hnone]
            simp
          · rcases hkind' with ⟨hother, hnone⟩ | ⟨v', s', rfl, hs', hlong'⟩
            · rw [hnone]
              simp [hother]
            · rw [hs, hs']
              simp [hlong, hlong']
    | module => cases resolveConditionModule rt field.2.match' <;> simp
    | string => simp
    | regexp => simp
    | array => simp
    | hash => simp

end Fields

section Meaning

variable (rt : Runtime) (data : Data) (tags : List (Text × Text))

def fieldMatches (field : Text × Condition) : Bool :=
  match evaluateField rt data tags field with
  | .ok .match' => true
  | _ => false

/-- What the type of a block says of its fields. -/
def blockHolds (condType : Linking) (block : Block) : Bool :=
  match condType with
  | .and => block.fields.all (fieldMatches rt data tags)
  | .or => block.fields.any (fieldMatches rt data tags)
  | .xor => block.fields.countP (fieldMatches rt data tags) = 1

def Block.holds (block : Block) : Bool :=
  match block.condType with
  | some condType => blockHolds rt data tags condType block
  | none => false

/-- What the linking of a transition says of its blocks. -/
def linkingHolds (linking : Linking) (blocks : List Block) : Bool :=
  match linking with
  | .and => blocks.all (Block.holds rt data tags)
  | .or => blocks.any (Block.holds rt data tags)
  | .xor => blocks.countP (fun b ↦ b.condType ≠ some .or && b.holds rt data tags) = 1

def TransitionConfig.holds (cfg : TransitionConfig) : Bool :=
  match linkings.lookup cfg.conditionLinking with
  | some linking => linkingHolds rt data tags linking cfg.conditions
  | none => false

/-- What the check of some blocks comes to after the blocks counted so far. -/
def verdict (linking : Linking) (blocks : List Block) (success fail : ℕ) : Bool :=
  match linking with
  | .and => fail = 0 && blocks.all (Block.holds rt data tags)
  | .or => 0 < success || blocks.any (Block.holds rt data tags)
  | .xor =>
    success + blocks.countP (fun b ↦ b.condType ≠ some .or && b.holds rt data tags) = 1

end Meaning

section Reached

variable (rt : Runtime) (data : Data) (tags : List (Text × Text))

/-- The check of a block goes on after a field. -/
def goesOn (condType : Linking) (field : Text × Condition) : Bool :=
  match evaluateField rt data tags field with
  | .ok .match' => condType ≠ .or
  | .ok .noMatch => condType ≠ .and
  | .ok .noMatchQuiet => true
  | _ => false

/-- The field at which the check of a block stops. -/
def stop (condType : Linking) (fields : List (Text × Condition)) : Option (Text × Condition) :=
  fields.find? fun field ↦ !goesOn rt data tags condType field

/-- A field that ends its block in order. -/
def leaves (field : Text × Condition) : Bool :=
  match evaluateField rt data tags field with
  | .ok .match' => true
  | .ok .noMatch => true
  | _ => false

/-- The check goes on after a block. -/
def passes (linking condType : Linking) (block : Block) : Bool :=
  match stop rt data tags condType block.sorted with
  | some field => leaves rt data tags field && linking ≠ condType
  | none =>
    !(linking = .or && blockHolds rt data tags condType block) &&
      !(linking = .and && !blockHolds rt data tags condType block && condType ≠ .xor)

def reachedInBlock (condType : Linking) (block : Block) : List (Text × Condition) :=
  block.sorted.takeWhile (goesOn rt data tags condType) ++
    (stop rt data tags condType block.sorted).toList

/-- The fields that the check of some blocks gets to. -/
def reached (linking : Linking) : List Block → List (Text × Condition)
  | [] => []
  | block :: rest =>
    if block.fields.isEmpty then []
    else
      match block.condType with
      | some condType => reachedInBlock rt data tags condType block ++
        if passes rt data tags linking condType block then reached linking rest else []
      | none => []

def TransitionConfig.reached (cfg : TransitionConfig) : List (Text × Condition) :=
  match linkings.lookup cfg.conditionLinking with
  | some linking => Process.reached rt data tags linking cfg.conditions
  | none => []

end Reached

section Walks

variable (rt : Runtime) {data : Data} {tags : List (Text × Text)} {linking condType : Linking}
  {field : Text × Condition} {block : Block}

theorem stop_cons {fields : List (Text × Condition)}
    (h : goesOn rt data tags condType field = true) :
    stop rt data tags condType (field :: fields) = stop rt data tags condType fields := by
  rw [stop, List.find?_cons, h]
  rfl

theorem stop_cons_neg {fields : List (Text × Condition)}
    (h : goesOn rt data tags condType field = false) :
    stop rt data tags condType (field :: fields) = some field := by
  rw [stop, List.find?_cons, h]
  rfl

theorem checkFields_eq (linking condType : Linking) (fields : List (Text × Condition))
    (success fail : ℕ) : checkFields rt data tags linking condType fields success fail =
      match stop rt data tags condType fields with
      | none => .ok (.counted (success + fields.countP (fieldMatches rt data tags))
          (fail + fields.countP fun field ↦ !fieldMatches rt data tags field))
      | some field =>
        match evaluateField rt data tags field with
        | .error e => .error (.value e)
        | .ok .error => .error (.config (.invalidField field.1))
        | .ok _ => .ok (if linking = condType then .returned (condType = .or) else .skipped) := by
  induction fields generalizing success fail with
  | nil => rfl
  | cons field fields ih =>
    have hcount : ∀ m n, fieldMatches rt data tags field = m →
        n + (field :: fields).countP (fieldMatches rt data tags) =
          n + (if m then 1 else 0) + fields.countP (fieldMatches rt data tags) ∧
        (n + (field :: fields).countP fun field ↦ !fieldMatches rt data tags field) =
          n + (if m then 0 else 1) +
            fields.countP fun field ↦ !fieldMatches rt data tags field := by
      intro m n hm
      rw [List.countP_cons, List.countP_cons, hm]
      cases m <;> constructor <;> simp only [Bool.not_false, Bool.not_true, Bool.false_eq_true,
        if_true, if_false] <;> omega
    unfold checkFields
    cases hfield : evaluateField rt data tags field with
    | error e =>
      have hstop : goesOn rt data tags condType field = false := by rw [goesOn, hfield]
      simp only [stop_cons_neg rt hstop, hfield]
    | ok result =>
      cases result with
      | error =>
        have hstop : goesOn rt data tags condType field = false := by rw [goesOn, hfield]
        simp only [stop_cons_neg rt hstop, hfield]
      | match' =>
        have hmatch : fieldMatches rt data tags field = true := by rw [fieldMatches, hfield]
        by_cases hor : condType = .or
        · subst hor
          have hstop : goesOn rt data tags .or field = false := by
            rw [goesOn, hfield]
            rfl
          by_cases hlinking : linking = .or <;> simp [stop_cons_neg rt hstop, hfield, hlinking]
        · rw [stop_cons rt (by rw [goesOn, hfield]; simp [hor]), (hcount true success hmatch).1,
            (hcount true fail hmatch).2]
          simp only [hor, and_false, if_false, if_true, Nat.add_zero, ih]
      | noMatch =>
        have hmatch : fieldMatches rt data tags field = false := by rw [fieldMatches, hfield]
        by_cases hand : condType = .and
        · subst hand
          have hstop : goesOn rt data tags .and field = false := by
            rw [goesOn, hfield]
            rfl
          by_cases hlinking : linking = .and <;> simp [stop_cons_neg rt hstop, hfield, hlinking]
        · rw [stop_cons rt (by rw [goesOn, hfield]; simp [hand]), (hcount false success hmatch).1,
            (hcount false fail hmatch).2]
          simp only [hand, and_false, if_false, Bool.false_eq_true, Nat.add_zero, ih]
      | noMatchQuiet =>
        have hmatch : fieldMatches rt data tags field = false := by rw [fieldMatches, hfield]
        rw [stop_cons rt (by rw [goesOn, hfield]), (hcount false success hmatch).1,
          (hcount false fail hmatch).2]
        simp only [if_false, Bool.false_eq_true, Nat.add_zero, ih]

theorem goesOn_of_stop (h : stop rt data tags condType block.sorted = none) :
    ∀ field ∈ block.fields, goesOn rt data tags condType field = true := by
  intro field hfield
  have hsorted : field ∈ block.sorted := List.mem_mergeSort.2 hfield
  have hgoes := List.find?_eq_none.1 h field hsorted
  simpa using hgoes

theorem mem_of_stop (h : stop rt data tags condType block.sorted = some field) :
    field ∈ block.fields ∧ goesOn rt data tags condType field = false := by
  refine ⟨List.mem_mergeSort.1 (List.mem_of_find?_eq_some h), ?_⟩
  have hstops := List.find?_some h
  simpa using hstops

theorem countP_sorted (block : Block) (p : Text × Condition → Bool) :
    block.sorted.countP p = block.fields.countP p :=
  (List.mergeSort_perm _ _).countP_eq p

/-- The counts of a block say whether it holds. -/
theorem blockOk_eq (condType : Linking) (block : Block) :
    blockOk condType (0 + block.sorted.countP (fieldMatches rt data tags))
      (0 + block.sorted.countP fun field ↦ !fieldMatches rt data tags field) =
      blockHolds rt data tags condType block := by
  rw [countP_sorted, countP_sorted, Nat.zero_add, Nat.zero_add]
  cases condType with
  | and =>
    rw [blockOk, blockHolds, Bool.eq_iff_iff, decide_eq_true_eq, List.countP_eq_zero,
      List.all_eq_true]
    simp
  | or =>
    rw [blockOk, blockHolds, Bool.eq_iff_iff, decide_eq_true_eq, List.countP_pos_iff,
      List.any_eq_true]
  | xor => rfl

/-- The check of a block that stops in order has decided whether the block holds. -/
theorem blockHolds_of_leaves (h : stop rt data tags condType block.sorted = some field)
    (hleaves : leaves rt data tags field = true) : condType ≠ .xor ∧
      blockHolds rt data tags condType block = decide (condType = .or) := by
  obtain ⟨hmem, hgoes⟩ := mem_of_stop rt h
  unfold goesOn at hgoes
  unfold leaves at hleaves
  cases hfield : evaluateField rt data tags field with
  | error e => simp [hfield] at hleaves
  | ok result =>
    rw [hfield] at hgoes hleaves
    cases result with
    | error => simp at hleaves
    | noMatchQuiet => simp at hleaves
    | match' =>
      obtain rfl : condType = .or := by simpa using hgoes
      refine ⟨by decide, ?_⟩
      rw [blockHolds, decide_eq_true rfl, List.any_eq_true]
      exact ⟨field, hmem, by rw [fieldMatches, hfield]⟩
    | noMatch =>
      obtain rfl : condType = .and := by simpa using hgoes
      refine ⟨by decide, ?_⟩
      rw [blockHolds, decide_eq_false (by decide), List.all_eq_false]
      exact ⟨field, hmem, by rw [fieldMatches, hfield]; decide⟩

/-- An or-block whose fields are all counted does not hold. -/
theorem blockHolds_or_of_stop (h : stop rt data tags .or block.sorted = none) :
    blockHolds rt data tags .or block = false := by
  rw [blockHolds, List.any_eq_false]
  intro field hfield
  have hgoes := goesOn_of_stop rt h field hfield
  unfold goesOn at hgoes
  unfold fieldMatches
  cases hfield : evaluateField rt data tags field with
  | error e => simp
  | ok result =>
    rw [hfield] at hgoes
    cases result <;> simp_all

theorem raises_reachedInBlock (condType : Linking) (block : Block) :
    (∃ field ∈ reachedInBlock rt data tags condType block, breaks rt data tags field = true) ↔
      ∃ field, stop rt data tags condType block.sorted = some field ∧
        breaks rt data tags field = true := by
  unfold reachedInBlock
  constructor
  · rintro ⟨field, hfield, hbreaks⟩
    rcases List.mem_append.1 hfield with hgone | hstop
    · have hgoes := List.mem_takeWhile_imp hgone
      obtain ⟨e, he⟩ := (evaluateField_raises rt data tags field).2 hbreaks
      rw [goesOn, he] at hgoes
      cases hgoes
    · exact ⟨field, Option.mem_toList.1 hstop, hbreaks⟩
  · rintro ⟨field, hstop, hbreaks⟩
    exact ⟨field, List.mem_append_right _ (Option.mem_toList.2 hstop), hbreaks⟩

/-- The check raises exactly where it gets to a field that does. -/
theorem checkBlocks_raises (linking : Linking) (blocks : List Block) (success fail : ℕ) :
    (∃ e, checkBlocks rt data tags linking blocks success fail = .error (.value e)) ↔
      ∃ field ∈ reached rt data tags linking blocks, breaks rt data tags field = true := by
  induction blocks generalizing success fail with
  | nil => cases linking <;> simp [checkBlocks, reached]
  | cons block blocks ih =>
    unfold checkBlocks reached
    by_cases hempty : block.fields.isEmpty = true
    · simp [hempty]
    · rw [if_neg hempty, if_neg hempty]
      cases hcond : block.condType with
      | none => simp
      | some condType =>
        dsimp only
        rw [checkFields_eq]
        simp only [List.mem_append, or_and_right, exists_or, raises_reachedInBlock]
        cases hstop : stop rt data tags condType block.sorted with
        | none =>
          have hpasses : passes rt data tags linking condType block =
              (!(linking = .or && blockHolds rt data tags condType block) &&
                !(linking = .and && !blockHolds rt data tags condType block &&
                  condType ≠ .xor)) := by
            rw [passes, hstop]
          rw [ok_bind, hpasses]
          simp only [blockOk_eq]
          cases blockHolds rt data tags condType block with
          | true => cases linking <;> simp [ih]
          | false => cases linking <;> cases condType <;> simp [ih]
        | some field =>
          have hpasses : passes rt data tags linking condType block =
              (leaves rt data tags field && linking ≠ condType) := by
            rw [passes, hstop]
          have hraises := evaluateField_raises rt data tags field
          rw [hpasses]
          unfold leaves
          simp only [Option.some_inj, exists_eq_left', ← hraises]
          cases hfield : evaluateField rt data tags field with
          | error e => simp [bind, Except.bind]
          | ok result =>
            have hon : (∃ e, checkBlocks rt data tags linking blocks success fail =
                .error (.value e)) ↔ ∃ field ∈ reached rt data tags linking blocks,
                  breaks rt data tags field = true := ih success fail
            cases result with
            | noMatchQuiet =>
              have hgoes := (mem_of_stop rt hstop).2
              rw [goesOn, hfield] at hgoes
              cases hgoes
            | error => simp [bind, Except.bind]
            | match' => by_cases hlinking : linking = condType <;>
                simp [bind, Except.bind, hlinking, hon]
            | noMatch => by_cases hlinking : linking = condType <;>
                simp [bind, Except.bind, hlinking, hon]

/-- A block that stops without an error stops in order. -/
theorem walk_of_stop {walk : Walk} (h : stop rt data tags condType block.sorted = some field)
    (hwalk : checkFields rt data tags linking condType block.sorted 0 0 = .ok walk) :
    leaves rt data tags field = true ∧
      walk = if linking = condType then .returned (condType = .or) else .skipped := by
  rw [checkFields_eq, h] at hwalk
  unfold leaves
  cases hfield : evaluateField rt data tags field with
  | error e => simp [hfield] at hwalk
  | ok result =>
    simp only [hfield] at hwalk
    cases result with
    | error => simp at hwalk
    | noMatchQuiet =>
      have hgoes := (mem_of_stop rt h).2
      rw [goesOn, hfield] at hgoes
      cases hgoes
    | match' => exact ⟨rfl, (Except.ok.inj hwalk).symm⟩
    | noMatch => exact ⟨rfl, (Except.ok.inj hwalk).symm⟩

theorem checkBlocks_ok (linking : Linking) (blocks : List Block) (success fail : ℕ) {b : Bool}
    (h : checkBlocks rt data tags linking blocks success fail = .ok b) :
    b = verdict rt data tags linking blocks success fail := by
  induction blocks generalizing success fail with
  | nil =>
    cases linking <;> simp [checkBlocks, verdict] at h ⊢ <;> exact h.symm
  | cons block blocks ih =>
    unfold checkBlocks at h
    by_cases hempty : block.fields.isEmpty = true
    · simp [hempty] at h
    · rw [if_neg hempty] at h
      cases hcond : block.condType with
      | none => simp [hcond] at h
      | some condType =>
        have hholds : block.holds rt data tags = blockHolds rt data tags condType block := by
          rw [Block.holds, hcond]
        rw [hcond] at h
        dsimp only at h
        cases hstop : stop rt data tags condType block.sorted with
        | none =>
          rw [checkFields_eq, hstop, ok_bind] at h
          simp only [blockOk_eq] at h
          cases hblock : blockHolds rt data tags condType block with
          | true =>
            have hother : condType ≠ .or := by
              rintro rfl
              rw [blockHolds_or_of_stop rt hstop] at hblock
              cases hblock
            rw [hblock] at h hholds
            cases linking with
            | and => simpa [verdict, hholds] using ih (success + 1) fail h
            | or => simpa [verdict, hholds] using h.symm
            | xor =>
              have hrest := ih (success + 1) fail h
              rw [hrest]
              simp [verdict, hholds, hcond, hother, Nat.add_assoc, Nat.add_comm 1]
          | false =>
            rw [hblock] at h hholds
            cases linking with
            | and =>
              by_cases hxor : condType = .xor
              · rw [if_neg Bool.false_ne_true, if_neg (by simp [hxor])] at h
                simpa [verdict, hholds] using ih success (fail + 1) h
              · simpa [verdict, hholds, hxor] using h.symm
            | or => simpa [verdict, hholds] using ih success (fail + 1) h
            | xor => simpa [verdict, hholds] using ih success (fail + 1) h
        | some field =>
          cases hwalk : checkFields rt data tags linking condType block.sorted 0 0 with
          | error e =>
            rw [hwalk] at h
            cases h
          | ok walk =>
            obtain ⟨hleaves, rfl⟩ := walk_of_stop rt hstop hwalk
            obtain ⟨hxor, hblock⟩ := blockHolds_of_leaves rt hstop hleaves
            rw [hblock] at hholds
            rw [hwalk, ok_bind] at h
            by_cases hlinking : linking = condType
            · subst hlinking
              rw [if_pos rfl] at h
              cases linking with
              | and => simpa [verdict, hholds] using h.symm
              | or => simpa [verdict, hholds] using h.symm
              | xor => exact absurd rfl hxor
            · rw [if_neg hlinking] at h
              have hrest := ih success fail h
              rw [hrest]
              cases condType with
              | and => cases linking <;> simp_all [verdict]
              | or => cases linking <;> simp_all [verdict]
              | xor => exact absurd rfl hxor

theorem checkTransition_raises (cfg : TransitionConfig) :
    (∃ e, checkTransition rt data tags cfg = .error (.value e)) ↔
      ∃ field ∈ cfg.reached rt data tags, breaks rt data tags field = true := by
  unfold checkTransition TransitionConfig.reached
  cases hlinking : linkings.lookup cfg.conditionLinking with
  | none => by_cases hcondition : cfg.hasCondition = true <;> simp [hcondition]
  | some linking =>
    dsimp only
    rw [← checkBlocks_raises rt linking cfg.conditions 0 0]
    by_cases hcondition : cfg.hasCondition = true
    · rw [if_pos hcondition]
    · have hnone : cfg.conditions = [] := by
        simp [TransitionConfig.hasCondition] at hcondition
        exact hcondition.2
      rw [if_neg hcondition, hnone]
      cases linking <;> simp [checkBlocks]

theorem checkTransition_inOrder (cfg : TransitionConfig) :
    ((∃ result, checkTransition rt data tags cfg = .ok result) ∨
        ∃ e, checkTransition rt data tags cfg = .error (.config e)) ↔
      ∀ field ∈ cfg.reached rt data tags, breaks rt data tags field = false := by
  have hraises : ¬(∃ e, checkTransition rt data tags cfg = .error (.value e)) ↔
      ¬∃ field ∈ cfg.reached rt data tags, breaks rt data tags field = true :=
    (checkTransition_raises rt cfg).not
  simp only [not_exists, not_and, Bool.not_eq_true] at hraises
  rw [← hraises]
  cases checkTransition rt data tags cfg with
  | ok result => simp
  | error failure => cases failure <;> simp

end Walks

section Aborts

variable (rt : Runtime) (data : Data) (tags : List (Text × Text))

/-- A check ends in order, with a boolean or the error of its configuration, exactly where it gets
to no field that raises; and a text raises where it has the shape of a date that does not exist. -/
theorem check_ends_in_order (cfg : TransitionConfig) :
    (((∃ result, checkTransition rt data tags cfg = .ok result) ∨
        ∃ e, checkTransition rt data tags cfg = .error (.config e)) ↔
      ∀ field ∈ cfg.reached rt data tags, breaks rt data tags field = false) ∧
    ∀ s, (∃ v, valueValidate s = .ok v) ↔ noSuchDate s = false := by
  refine ⟨checkTransition_inOrder rt cfg, fun s ↦ ?_⟩
  rw [← Bool.not_eq_true, ← valueValidate_raises]
  cases valueValidate s <;> simp

end Aborts

section Linkings

variable (rt : Runtime) (data : Data) (tags : List (Text × Text))

/-- A condition whose `Match` is what its type takes. -/
def Condition.wellFormed (c : Condition) : Bool :=
  match conditionTypes.lookup c.type, c.match' with
  | some .array, .list _ => true
  | some .array, _ => false
  | some .hash, .hash _ => true
  | some .hash, _ => false
  | some _, _ => true
  | none, _ => false

structure Block.Clean (block : Block) : Prop where
  nonempty : block.fields ≠ []
  type : block.condType ≠ none
  fields : ∀ field ∈ block.fields, field.2.wellFormed = true

/-- A configuration without an error. -/
structure Clean (cfg : TransitionConfig) : Prop where
  present : cfg.hasCondition = true
  linking : linkings.lookup cfg.conditionLinking ≠ none
  blocks : ∀ block ∈ cfg.conditions, block.Clean

/-- The same blocks with the same fields in another order. -/
def Reordered (cfg cfg' : TransitionConfig) : Prop :=
  cfg.conditionLinking = cfg'.conditionLinking ∧ ∃ blocks, cfg.conditions.Perm blocks ∧
    List.Forall₂ (fun b b' : Block ↦ b.type = b'.type ∧ b.fields.Perm b'.fields) blocks
      cfg'.conditions

theorem evaluateField_wellFormed {field : Text × Condition} (h : field.2.wellFormed = true) :
    evaluateField rt data tags field ≠ .ok .error := by
  have hdecided : ∀ found, decided found ≠ .error := by
    intro found
    cases found <;> decide
  unfold Condition.wellFormed at h
  unfold evaluateField
  cases htype : conditionTypes.lookup field.2.type with
  | none => simp [htype] at h
  | some type =>
    rw [htype] at h
    cases type with
    | string =>
      unfold stringField
      cases scalar field.2.match' with
      | none => simp
      | some m => by_cases hm : m = [] <;> cases lookup data field.1 <;> simp [hm, hdecided]
    | regexp =>
      unfold regexpField
      cases scalar field.2.match' with
      | none => simp
      | some m =>
        by_cases hm : perlTrue (some m) = true <;> cases lookup data field.1 <;>
          simp [hm, hdecided]
    | array =>
      unfold arrayField
      cases hm : field.2.match' <;> simp [hm, hdecided] at h ⊢
    | hash =>
      unfold hashField
      cases hm : field.2.match' with
      | hash wanted =>
        cases lookup data field.1 with
        | hash entries => cases hempty : entries.isEmpty <;> simp [hempty, hdecided]
        | null => simp
        | text s => simp
        | other s => simp
        | list items => simp
      | null => simp [hm] at h
      | text s => simp [hm] at h
      | other s => simp [hm] at h
      | list items => simp [hm] at h
    | module => cases resolveConditionModule rt field.2.match' <;> simp [hdecided]
    | base type =>
      cases checkValueGet rt data tags field.1 with
      | error e => simp [bind, Except.bind]
      | ok check =>
        dsimp only
        rw [ok_bind]
        cases matchValueGet tags field.2.match' with
        | error e => simp [bind, Except.bind]
        | ok matchValue =>
          rw [ok_bind]
          cases matchValue with
          | none => simp
          | some m =>
            change (baseCompare rt type check m).map decided ≠ _
            cases baseCompare rt type check m <;> simp [Except.map, hdecided]

theorem checkFields_clean (linking condType : Linking) {block : Block} (h : block.Clean)
    (e : ConfigError) :
    checkFields rt data tags linking condType block.sorted 0 0 ≠ .error (.config e) := by
  rw [checkFields_eq]
  cases hstop : stop rt data tags condType block.sorted with
  | none => simp
  | some field =>
    have hne := evaluateField_wellFormed rt data tags (h.fields field (mem_of_stop rt hstop).1)
    cases hfield : evaluateField rt data tags field with
    | error e => simp [hfield]
    | ok result =>
      cases result with
      | error => exact absurd hfield hne
      | match' => simp [hfield]
      | noMatch => simp [hfield]
      | noMatchQuiet => simp [hfield]

theorem checkBlocks_clean {linking : Linking} {blocks : List Block}
    (h : ∀ block ∈ blocks, block.Clean) (success fail : ℕ) (e : ConfigError) :
    checkBlocks rt data tags linking blocks success fail ≠ .error (.config e) := by
  induction blocks generalizing success fail with
  | nil => cases linking <;> simp [checkBlocks]
  | cons block blocks ih =>
    obtain ⟨hblock, hblocks⟩ := List.forall_mem_cons.1 h
    have hrest := ih hblocks
    unfold checkBlocks
    rw [if_neg (by simpa using hblock.nonempty)]
    cases hcond : block.condType with
    | none => exact absurd hcond hblock.type
    | some condType =>
      dsimp only
      have hfields := checkFields_clean rt data tags linking condType hblock e
      cases hwalk : checkFields rt data tags linking condType block.sorted 0 0 with
      | error failure =>
        have hne : failure ≠ .config e := by
          rintro rfl
          exact hfields hwalk
        simpa [bind, Except.bind] using hne
      | ok walk =>
        rw [ok_bind]
        cases walk with
        | returned result => simp
        | skipped => exact hrest success fail
        | counted s f =>
          dsimp only
          split
          · split
            · simp
            · exact hrest _ _
          · split
            · simp
            · exact hrest _ _

theorem linkingHolds_congr {linking : Linking} {blocks blocks' : List Block}
    (h : (blocks.map fun b ↦ (b.condType, b.holds rt data tags)).Perm
      (blocks'.map fun b ↦ (b.condType, b.holds rt data tags))) :
    linkingHolds rt data tags linking blocks = linkingHolds rt data tags linking blocks' := by
  have hall := h.all_eq (f := fun b ↦ b.2)
  have hany := h.any_eq (f := fun b ↦ b.2)
  have hcount := h.countP_eq fun b ↦ b.1 ≠ some .or && b.2
  rw [List.all_map, List.all_map] at hall
  rw [List.any_map, List.any_map] at hany
  rw [List.countP_map, List.countP_map] at hcount
  cases linking with
  | and => exact hall
  | or => exact hany
  | xor => exact congrArg (fun n : ℕ ↦ decide (n = 1)) hcount

theorem holds_congr {b b' : Block} (htype : b.type = b'.type) (hfields : b.fields.Perm b'.fields) :
    b.condType = b'.condType ∧ b.holds rt data tags = b'.holds rt data tags := by
  have hcond : b.condType = b'.condType := by rw [Block.condType, Block.condType, htype]
  refine ⟨hcond, ?_⟩
  unfold Block.holds
  rw [hcond]
  cases b'.condType with
  | none => rfl
  | some condType =>
    cases condType with
    | and => exact hfields.all_eq
    | or => exact hfields.any_eq
    | xor => exact congrArg (fun n : ℕ ↦ decide (n = 1)) (hfields.countP_eq _)

theorem holds_reordered {cfg cfg' : TransitionConfig} (h : Reordered cfg cfg') :
    cfg.holds rt data tags = cfg'.holds rt data tags := by
  obtain ⟨hlinking, blocks, hperm, hblocks⟩ := h
  have hmap : ∀ bs bs' : List Block,
      List.Forall₂ (fun b b' : Block ↦ b.type = b'.type ∧ b.fields.Perm b'.fields) bs bs' →
      (bs.map fun b ↦ (b.condType, b.holds rt data tags)) =
        bs'.map fun b ↦ (b.condType, b.holds rt data tags) := by
    intro bs bs' hbs
    induction hbs with
    | nil => rfl
    | cons hb _ ih =>
      obtain ⟨hcond, hholds⟩ := holds_congr rt data tags hb.1 hb.2
      rw [List.map_cons, List.map_cons, hcond, hholds, ih]
  unfold TransitionConfig.holds
  rw [hlinking]
  cases linkings.lookup cfg'.conditionLinking with
  | none => rfl
  | some linking => exact linkingHolds_congr rt data tags (hmap _ _ hblocks ▸ hperm.map _)

/-- The check of a configuration without an error says what its linking and its blocks say, exactly
where it gets to no field that raises; and then the order of the blocks and fields does not matter. -/
theorem transition_means_linking {cfg : TransitionConfig} (hclean : Clean cfg) :
    (checkTransition rt data tags cfg = .ok (cfg.holds rt data tags) ↔
      ∀ field ∈ cfg.reached rt data tags, breaks rt data tags field = false) ∧
    ∀ cfg', Clean cfg' → Reordered cfg cfg' →
      (∀ field ∈ cfg.reached rt data tags, breaks rt data tags field = false) →
      (∀ field ∈ cfg'.reached rt data tags, breaks rt data tags field = false) →
      checkTransition rt data tags cfg = checkTransition rt data tags cfg' := by
  have hmeans : ∀ cfg, Clean cfg → (checkTransition rt data tags cfg = .ok (cfg.holds rt data tags) ↔
      ∀ field ∈ cfg.reached rt data tags, breaks rt data tags field = false) := by
    intro cfg hclean
    rw [← checkTransition_inOrder]
    refine ⟨fun h ↦ .inl ⟨_, h⟩, fun h ↦ ?_⟩
    have hpresent := hclean.present
    have hlinking := hclean.linking
    cases hlookup : linkings.lookup cfg.conditionLinking with
    | none => exact absurd hlookup hlinking
    | some linking =>
      have hcheck : checkTransition rt data tags cfg =
          checkBlocks rt data tags linking cfg.conditions 0 0 := by
        rw [checkTransition, if_pos hpresent, hlookup]
      have hholds : cfg.holds rt data tags = linkingHolds rt data tags linking cfg.conditions := by
        rw [TransitionConfig.holds, hlookup]
      rw [hcheck] at h ⊢
      rcases h with ⟨result, hresult⟩ | ⟨e, he⟩
      · rw [hresult, checkBlocks_ok rt linking cfg.conditions 0 0 hresult, hholds]
        cases linking <;> simp [verdict, linkingHolds]
      · exact absurd he (checkBlocks_clean rt data tags hclean.blocks 0 0 e)
  refine ⟨hmeans cfg hclean, fun cfg' hclean' hreordered h h' ↦ ?_⟩
  rw [(hmeans cfg hclean).2 h, (hmeans cfg' hclean').2 h', holds_reordered rt data tags hreordered]

section Sample

/-- Texts that are compared as they are. -/
def plainRuntime : Runtime := ⟨id, fun _ _ ↦ none, fun _ ↦ [], fun _ ↦ none⟩

/-- A transition with one block, which compares the title with a text. -/
def titleIs (wanted : Text) : TransitionConfig where
  conditionLinking := "and".toList
  conditions := [⟨"and".toList, [("Title".toList, ⟨.text wanted, "Equal".toList⟩)]⟩]
  conditionPresent := true

def titled (title : Text) : Data := [("Title".toList, .text title)]

theorem clean_titleIs (wanted : Text) : Clean (titleIs wanted) := by
  have hand : linkings.lookup "and".toList ≠ none := by decide
  refine ⟨rfl, hand, fun block hblock ↦ ?_⟩
  rw [List.mem_singleton.1 hblock]
  refine ⟨by simp, hand, fun field hfield ↦ ?_⟩
  rw [List.mem_singleton.1 hfield]
  rfl

theorem transition_means_linking_sample :
    checkTransition plainRuntime (titled "order".toList) [] (titleIs "order".toList) =
      .ok ((titleIs "order".toList).holds plainRuntime (titled "order".toList) []) :=
  (transition_means_linking plainRuntime (titled "order".toList) [] (clean_titleIs _)).1.2
    (by decide +kernel)

/-- A title with the shape of a date that does not exist is neither the same nor another. -/
theorem title_unread : Clean (titleIs "order".toList) ∧
    checkTransition plainRuntime (titled "2024-02-30".toList) [] (titleIs "order".toList) ≠
      .ok ((titleIs "order".toList).holds plainRuntime (titled "2024-02-30".toList) []) :=
  ⟨clean_titleIs _, by decide +kernel⟩

/-- The title of a ticket aborts a check. -/
theorem title_aborts :
    ¬((∃ result, checkTransition plainRuntime (titled "2024-02-30".toList) []
        (titleIs "order".toList) = .ok result) ∨
      ∃ e, checkTransition plainRuntime (titled "2024-02-30".toList) [] (titleIs "order".toList) =
        .error (.config e)) := by
  have hraises : checkTransition plainRuntime (titled "2024-02-30".toList) []
      (titleIs "order".toList) = .error (.value .noSuchDate) := by
    decide +kernel
  rw [hraises]
  simp

end Sample

end Linkings

end Tiqora.Process
