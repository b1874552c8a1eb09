import Mathlib.Data.List.Basic

namespace Tiqora.Domain.Acl

abbrev Text := List Char

/-- A value of the YAML of an ACL or of the checks: a scalar is what `str` prints of it. -/
inductive Value
  | null
  | scalar (text : Text)
  | list (items : List Value)
  | dict (entries : List (Text × Value))

abbrev Entries := List (Text × Value)

structure Result where
  matched : Bool
  skip : Bool
  deriving DecidableEq

/-- `re.search` with its flag for the case, nothing for an invalid pattern; and what `str` prints
of lists and dicts. -/
structure Runtime where
  search : Text → Text → Bool → Option Bool
  print : Value → Text

namespace Runtime

variable (rt : Runtime)

def reSearch (pattern data : Text) (ignoreCase : Bool) : Bool :=
  (rt.search pattern data ignoreCase).getD false

/-- Parse `/pattern/` or `/pattern/i` into the pattern and whether the case is ignored. -/
def slashRegex : Text → Option (Text × Bool)
  | '/' :: rest =>
    if rest = [] then none
    else if "/i".toList.isSuffixOf ('/' :: rest) && 3 ≤ rest.length + 1 then
      some (rest.dropLast.dropLast, true)
    else if "/".toList.isSuffixOf ('/' :: rest) then some (rest.dropLast, false)
    else none
  | _ => none

def isNegated (item : Text) : Bool := "[Not".toList.isPrefixOf item

/-- What a negated item does not allow. -/
def excludes (item data : Text) : Bool :=
  if "[Not]".toList.isPrefixOf item then item.drop 5 = data
  else if "[NotRegExp]".toList.isPrefixOf item then rt.reSearch (item.drop 11) data false
  else if "[Notregexp]".toList.isPrefixOf item then rt.reSearch (item.drop 11) data true
  else false

def matchesRegExp (item data : Text) : Bool :=
  if "[RegExp]".toList.isPrefixOf item then rt.reSearch (item.drop 8) data false
  else if "[regexp]".toList.isPrefixOf item then rt.reSearch (item.drop 8) data true
  else false

def matchesSlash (item data : Text) : Bool :=
  match slashRegex item with
  | some (pattern, ignoreCase) => rt.reSearch pattern data ignoreCase
  | none => false

def compareMatchWithData (item data : Text) (singleItem : Bool) : Result :=
  if isNegated item then
    if rt.excludes item data then ⟨false, false⟩
    else if singleItem then ⟨true, false⟩
    else ⟨true, true⟩
  else if item = data then ⟨true, false⟩
  else if rt.matchesRegExp item data then ⟨true, false⟩
  else if rt.matchesSlash item data then ⟨true, false⟩
  else if singleItem then ⟨false, false⟩
  else ⟨false, true⟩

def str : Value → Text
  | .null => "None".toList
  | .scalar text => text
  | value => rt.print value

/-- An element of a list as a text. -/
def itemText : Value → Text
  | .null => []
  | value => rt.str value

def asStrList : Value → List Text
  | .null => []
  | .list items => items.map rt.itemText
  | value => [rt.str value]

def checkValueAsItems : Value → Option (List Text ⊕ Text)
  | .null => none
  | .list items => some (.inl (items.map rt.itemText))
  | .dict _ => none
  | value => some (.inr (rt.str value))

/-- The loop over the elements of a list: the first one that is not skipped decides. -/
def matchList (item : Text) : Bool → List Text → Bool
  | matchItem, [] => matchItem
  | matchItem, data :: rest =>
    let result := rt.compareMatchWithData item data false
    if result.skip then matchList item matchItem rest else result.matched

def matchPropertyItems (matchItems : List Text) (checkValue : Value) : Bool :=
  match rt.checkValueAsItems checkValue with
  | some (.inl items) => matchItems.any fun item ↦ rt.matchList item (isNegated item) items
  | some (.inr text) => matchItems.any fun item ↦ (rt.compareMatchWithData item text true).matched
  | none => false

/-- `checks.get(key)`, where only a dict counts. -/
def usedChecks (checks : Entries) (key : Text) : Entries :=
  match checks.lookup key with
  | some (.dict entries) => entries
  | _ => []

def fieldMatches (checks : Entries) (key : Text) (field : Text × Value) : Bool :=
  rt.matchPropertyItems (rt.asStrList field.2) (((usedChecks checks key).lookup field.1).getD .null)

/-- One entry of a block; the pair is `match` and `match_try`. -/
def entryMatches (checks : Entries) (found : Bool × Bool) : Text × Value → Bool × Bool
  | (key, .dict fields) =>
    fields.foldl (fun found field ↦ (found.1 && rt.fieldMatches checks key field, true)) found
  | _ => (false, true)

def propertiesBlockMatches (block : Option Entries) (checks : Entries) : Bool × Bool :=
  match block with
  | some entries => entries.foldl (rt.entryMatches checks) (true, false)
  | none => (true, false)

/-- The block of a side, where only a dict with entries counts. -/
def presentBlock (configMatch : Entries) (side : Text) : Option Entries :=
  match configMatch.lookup side with
  | some (.dict entries) => if entries.isEmpty then none else some entries
  | _ => none

def aclPropertiesMatch (configMatch checks checksDatabase : Entries) : Bool × Bool :=
  let props := presentBlock configMatch "Properties".toList
  let propsDb := presentBlock configMatch "PropertiesDatabase".toList
  if props.isNone && propsDb.isNone then (true, true)
  else
    let p := rt.propertiesBlockMatches props checks
    let d := rt.propertiesBlockMatches propsDb checksDatabase
    let p := if props.isNone then d else p
    let d := if propsDb.isNone then p else d
    (p.1 && d.1, p.2 && d.2)

end Runtime

section Lists

variable (rt : Runtime) {item data : Text}

/-- The element of a list as a scalar. -/
def asScalar (value : Value) : Value := .scalar (rt.itemText value)

theorem single_matched (item data : Text) : (rt.compareMatchWithData item data true).matched =
    if Runtime.isNegated item then !rt.excludes item data
    else item = data || rt.matchesRegExp item data || rt.matchesSlash item data := by
  unfold Runtime.compareMatchWithData
  by_cases hnot : Runtime.isNegated item = true
  · rw [if_pos hnot, if_pos hnot]
    cases rt.excludes item data <;> rfl
  · rw [if_neg hnot, if_neg hnot]
    by_cases heq : item = data
    · rw [if_pos heq, decide_eq_true heq]
      rfl
    · rw [if_neg heq, decide_eq_false heq]
      cases rt.matchesRegExp item data <;> cases rt.matchesSlash item data <;> rfl

/-- An element decides where it goes against the start of the loop. -/
theorem list_result (item data : Text) : rt.compareMatchWithData item data false =
    ⟨(rt.compareMatchWithData item data true).matched,
      (rt.compareMatchWithData item data true).matched == Runtime.isNegated item⟩ := by
  rw [single_matched]
  unfold Runtime.compareMatchWithData
  by_cases hnot : Runtime.isNegated item = true
  · rw [if_pos hnot, if_pos hnot, hnot]
    cases rt.excludes item data <;> rfl
  · rw [if_neg hnot, if_neg hnot, Bool.eq_false_iff.2 hnot]
    by_cases heq : item = data
    · rw [if_pos heq, decide_eq_true heq]
      rfl
    · rw [if_neg heq, decide_eq_false heq]
      cases rt.matchesRegExp item data <;> cases rt.matchesSlash item data <;> rfl

theorem matchList_eq (item : Text) (texts : List Text) :
    rt.matchList item (Runtime.isNegated item) texts =
      if Runtime.isNegated item then
        texts.all fun data ↦ (rt.compareMatchWithData item data true).matched
      else texts.any fun data ↦ (rt.compareMatchWithData item data true).matched := by
  induction texts with
  | nil => cases hnot : Runtime.isNegated item <;> rfl
  | cons data texts ih =>
    rw [Runtime.matchList, list_result, ih, List.all_cons, List.any_cons]
    dsimp only
    cases Runtime.isNegated item <;> cases (rt.compareMatchWithData item data true).matched <;>
      rfl

theorem matchPropertyItems_cons (item : Text) (items : List Text) (value : Value) :
    rt.matchPropertyItems (item :: items) value =
      (rt.matchPropertyItems [item] value || rt.matchPropertyItems items value) := by
  unfold Runtime.matchPropertyItems
  cases rt.checkValueAsItems value with
  | none => rfl
  | some found =>
    cases found <;> simp only [List.any_cons, List.any_nil, Bool.or_false]

theorem matchPropertyItems_scalar (item text : Text) :
    rt.matchPropertyItems [item] (.scalar text) =
      (rt.compareMatchWithData item text true).matched :=
  Bool.or_false _

theorem matchPropertyItems_list (item : Text) (values : List Value) :
    rt.matchPropertyItems [item] (.list values) =
      if Runtime.isNegated item then
        values.all fun value ↦ rt.matchPropertyItems [item] (asScalar rt value)
      else values.any fun value ↦ rt.matchPropertyItems [item] (asScalar rt value) := by
  have hitem : ∀ value, rt.matchPropertyItems [item] (asScalar rt value) =
      (rt.compareMatchWithData item (rt.itemText value) true).matched :=
    fun value ↦ matchPropertyItems_scalar rt item _
  change (rt.matchList item (Runtime.isNegated item) (values.map rt.itemText) || false) = _
  rw [Bool.or_false, matchList_eq, List.all_map, List.any_map]
  simp only [Function.comp_def, hitem]

end Lists

section Blocks

variable (rt : Runtime) {checks : Entries} {block : Entries} {found : Bool × Bool}

/-- Each field of a block matches; an entry that holds no fields does not match. -/
def FieldsMatch (checks : Entries) (block : Entries) : Prop :=
  ∀ entry ∈ block, ∃ fields, entry.2 = .dict fields ∧
    ∀ field ∈ fields, rt.fieldMatches checks entry.1 field = true

/-- There is something to match in a block. -/
def Tries (block : Entries) : Prop := ∃ entry ∈ block, ∀ fields, entry.2 = .dict fields → fields ≠ []

theorem fields_fold (key : Text) (fields : Entries) :
    fields.foldl (fun found field ↦ (found.1 && rt.fieldMatches checks key field, true)) found =
      (found.1 && fields.all (rt.fieldMatches checks key), found.2 || !fields.isEmpty) := by
  induction fields generalizing found with
  | nil => simp
  | cons field fields ih =>
    rw [List.foldl_cons, ih, List.all_cons, Bool.and_assoc]
    simp

theorem entryMatches_spec (checks : Entries) (found : Bool × Bool) (entry : Text × Value) :
    ((rt.entryMatches checks found entry).1 = true ↔ found.1 = true ∧ ∃ fields,
      entry.2 = .dict fields ∧ ∀ field ∈ fields, rt.fieldMatches checks entry.1 field = true) ∧
    ((rt.entryMatches checks found entry).2 = true ↔
      found.2 = true ∨ ∀ fields, entry.2 = .dict fields → fields ≠ []) := by
  obtain ⟨key, value⟩ := entry
  cases value with
  | dict fields =>
    rw [Runtime.entryMatches, fields_fold]
    simp
  | null => simp [Runtime.entryMatches]
  | scalar text => simp [Runtime.entryMatches]
  | list items => simp [Runtime.entryMatches]

theorem entries_fold :
    ((block.foldl (rt.entryMatches checks) found).1 = true ↔
      found.1 = true ∧ FieldsMatch rt checks block) ∧
    ((block.foldl (rt.entryMatches checks) found).2 = true ↔ found.2 = true ∨ Tries block) := by
  induction block generalizing found with
  | nil => simp [FieldsMatch, Tries]
  | cons entry block ih =>
    obtain ⟨hmatch, htry⟩ := entryMatches_spec rt checks found entry
    rw [List.foldl_cons, ih.1, ih.2, hmatch, htry]
    simp only [FieldsMatch, Tries, List.forall_mem_cons, List.exists_mem_cons_iff, and_assoc,
      or_assoc, and_self]

/-- The outcome for a side. -/
theorem propertiesBlockMatches_spec (block : Option Entries) (checks : Entries) :
    ((rt.propertiesBlockMatches block checks).1 = true ↔
      ∀ entries, block = some entries → FieldsMatch rt checks entries) ∧
    ((rt.propertiesBlockMatches block checks).2 = true ↔
      ∃ entries, block = some entries ∧ Tries entries) := by
  cases block with
  | none => simp [Runtime.propertiesBlockMatches]
  | some entries =>
    rw [Runtime.propertiesBlockMatches, (entries_fold rt).1, (entries_fold rt).2]
    simp

end Blocks

section Properties

variable (rt : Runtime)

def properties (configMatch : Entries) : Option Entries :=
  Runtime.presentBlock configMatch "Properties".toList

def propertiesDatabase (configMatch : Entries) : Option Entries :=
  Runtime.presentBlock configMatch "PropertiesDatabase".toList

theorem aclPropertiesMatch_cases (configMatch checks checksDatabase : Entries) :
    rt.aclPropertiesMatch configMatch checks checksDatabase =
      match properties configMatch, propertiesDatabase configMatch with
      | none, none => (true, true)
      | some _, none => rt.propertiesBlockMatches (properties configMatch) checks
      | none, some _ => rt.propertiesBlockMatches (propertiesDatabase configMatch) checksDatabase
      | some _, some _ =>
        ((rt.propertiesBlockMatches (properties configMatch) checks).1 &&
          (rt.propertiesBlockMatches (propertiesDatabase configMatch) checksDatabase).1,
        (rt.propertiesBlockMatches (properties configMatch) checks).2 &&
          (rt.propertiesBlockMatches (propertiesDatabase configMatch) checksDatabase).2) := by
  unfold Runtime.aclPropertiesMatch
  change (if (properties configMatch).isNone && (propertiesDatabase configMatch).isNone then _
    else _) = _
  cases hprops : properties configMatch with
  | none =>
    cases hdb : propertiesDatabase configMatch with
    | none => rfl
    | some db =>
      rw [properties] at hprops
      rw [propertiesDatabase] at hdb
      simp only [hprops, hdb, Option.isNone_none, Option.isNone_some, Bool.and_false,
        Bool.false_eq_true, if_false, if_true, Bool.and_self]
  | some props =>
    cases hdb : propertiesDatabase configMatch with
    | none =>
      rw [properties] at hprops
      rw [propertiesDatabase] at hdb
      simp only [hprops, hdb, Option.isNone_none, Option.isNone_some, Bool.and_true,
        Bool.false_eq_true, if_false, if_true, Bool.and_self]
    | some db =>
      rw [properties] at hprops
      rw [propertiesDatabase] at hdb
      simp only [hprops, hdb, Option.isNone_some, Bool.and_false, Bool.false_eq_true, if_false]

theorem aclPropertiesMatch_iff (configMatch checks checksDatabase : Entries) :
    (rt.aclPropertiesMatch configMatch checks checksDatabase).1 = true ↔
      (∀ block, properties configMatch = some block → FieldsMatch rt checks block) ∧
        ∀ block, propertiesDatabase configMatch = some block →
          FieldsMatch rt checksDatabase block := by
  rw [aclPropertiesMatch_cases]
  cases hprops : properties configMatch <;> cases hdb : propertiesDatabase configMatch <;>
    simp [(propertiesBlockMatches_spec rt _ _).1]

/-- A list matches a negated item when each of its elements does, another item when one does; and
the blocks of both sides match when all their fields do, a missing side aside. -/
theorem acl_matching_lifts :
    (∀ item items value, rt.matchPropertyItems (item :: items) value =
      (rt.matchPropertyItems [item] value || rt.matchPropertyItems items value)) ∧
    (∀ item values, rt.matchPropertyItems [item] (.list values) =
      if Runtime.isNegated item then
        values.all fun value ↦ rt.matchPropertyItems [item] (asScalar rt value)
      else values.any fun value ↦ rt.matchPropertyItems [item] (asScalar rt value)) ∧
    (∀ text, asScalar rt (.scalar text) = .scalar text) ∧
    ∀ configMatch checks checksDatabase,
      ((rt.aclPropertiesMatch configMatch checks checksDatabase).1 = true ↔
        (∀ block, properties configMatch = some block → FieldsMatch rt checks block) ∧
          ∀ block, propertiesDatabase configMatch = some block →
            FieldsMatch rt checksDatabase block) ∧
      (∀ block, properties configMatch = none → propertiesDatabase configMatch = some block →
        rt.aclPropertiesMatch configMatch checks checksDatabase =
          rt.propertiesBlockMatches (some block) checksDatabase) ∧
      ∀ block, properties configMatch = some block → propertiesDatabase configMatch = none →
        rt.aclPropertiesMatch configMatch checks checksDatabase =
          rt.propertiesBlockMatches (some block) checks := by
  refine ⟨matchPropertyItems_cons rt, matchPropertyItems_list rt, fun _ ↦ rfl,
    fun configMatch checks checksDatabase ↦ ⟨aclPropertiesMatch_iff rt _ _ _,
      fun block hprops hdb ↦ ?_, fun block hprops hdb ↦ ?_⟩⟩
  · rw [aclPropertiesMatch_cases, hprops, hdb]
  · rw [aclPropertiesMatch_cases, hprops, hdb]

end Properties

end Tiqora.Domain.Acl
