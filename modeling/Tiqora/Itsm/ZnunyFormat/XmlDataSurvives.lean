import Mathlib.Algebra.BigOperators.Ring.List
import Mathlib.Algebra.Ring.Nat
import Tiqora.Itsm.ZnunyFormat.XmlDataRoundTrip

namespace Tiqora.Itsm.ZnunyFormat

open Foundation Cmdb.Definition Cmdb.Values

mutual

/-- Equal documents: the order of the keys does not matter. -/
def same : Raw → Raw → Bool
  | .null, .null => true
  | .bool b, .bool c => b = c
  | .int m, .int n => m = n
  | .float x, .float y => x = y
  | .str s, .str t => s = t
  | .list xs, .list ys => sameList xs ys
  | .dict xs, .dict ys => sameItems xs ys && ys.all fun kv ↦ (xs.lookup kv.1).isSome
  | _, _ => false

def sameList : List Raw → List Raw → Bool
  | [], [] => true
  | x :: xs, y :: ys => same x y && sameList xs ys
  | _, _ => false

def sameItems : List (Text × Raw) → Dict → Bool
  | [], _ => true
  | (key, x) :: xs, ys => (ys.lookup key).any (same x) && sameItems xs ys

end

mutual

/-- The entries of a document at all levels. -/
def entryCount : List AttributeDef → Dict → ℕ
  | [], _ => 0
  | a :: attrs,
    values => entryCountOf a ((values.lookup a.key).getD .null) + entryCount attrs values

def entryCountOf : AttributeDef → Raw → ℕ
  | .mk _ sub, value => ((entriesOf value).map fun d ↦
      1 + match get d "s" with
        | .dict s => entryCount sub s
        | _ => 0).sum

end

mutual

def height : List AttributeDef → ℕ
  | [] => 0
  | a :: attrs => max (heightOf a) (height attrs)

def heightOf : AttributeDef → ℕ
  | .mk _ sub => 1 + height sub

end

variable {print : Raw → Text} {L : Lib} {resolver : RefResolver} {attrs sub : List AttributeDef}
  {a : AttributeDef} {spec : AttributeSpec} {doc out values : Dict} {v w : Raw}
  {knownCatalogClasses knownClassKeys : List Text}

section Same

theorem lookup_same {xs ys : Dict} (h : same (.dict xs) (.dict ys) = true) (key : Text) :
    same ((xs.lookup key).getD .null) ((ys.lookup key).getD .null) = true := by
  rw [same, Bool.and_eq_true, List.all_eq_true] at h
  obtain ⟨hitems, hkeys⟩ := h
  have hfound : ∀ x, xs.lookup key = some x → (ys.lookup key).any (same x) = true := by
    clear hkeys
    induction xs with
    | nil => exact fun x hx ↦ by cases hx
    | cons item xs ih =>
      obtain ⟨k, x'⟩ := item
      rw [sameItems, Bool.and_eq_true] at hitems
      intro x hx
      rw [List.lookup_cons] at hx
      split at hx
      · next heq =>
        cases hx
        rw [eq_of_beq heq]
        exact hitems.1
      · exact ih hitems.2 x hx
  cases hx : xs.lookup key with
  | some x =>
    obtain ⟨y, hy, hsame⟩ := Option.any_eq_true _ _ |>.1 (hfound x hx)
    rw [hy]
    exact hsame
  | none =>
    cases hy : ys.lookup key with
    | none => rfl
    | some y =>
      obtain ⟨l₁, l₂, rfl, -⟩ := List.lookup_eq_some_iff.1 hy
      have hsome := hkeys (key, y) (List.mem_append_right l₁ List.mem_cons_self)
      rw [hx] at hsome
      cases hsome

theorem entriesOf_same (h : same v w = true) :
    List.Forall₂ (fun d e ↦ same (.dict d) (.dict e) = true) (entriesOf v) (entriesOf w) := by
  cases v with
  | list xs =>
    cases w with
    | list ys =>
      rw [same] at h
      induction xs generalizing ys with
      | nil =>
        cases ys with
        | nil => exact .nil
        | cons y ys => cases h
      | cons x xs ih =>
        cases ys with
        | nil => cases h
        | cons y ys =>
          rw [sameList, Bool.and_eq_true] at h
          have hrest := ih ys h.2
          cases x with
          | dict d =>
            cases y with
            | dict e => exact .cons h.1 hrest
            | _ => cases h.1
          | _ =>
            cases y with
            | dict e => cases h.1
            | _ => exact hrest
    | _ => cases h
  | dict xs =>
    cases w with
    | dict ys => exact .nil
    | _ => cases h
  | _ =>
    cases w with
    | list ys => cases h
    | _ => exact .nil

theorem coerce_scalar {given : Raw} (h : coerce L spec given = .ok v) :
    (∃ s, v = .str s) ∨ ∃ n, v = .int n := by
  by_cases htext : isText spec.type = true
  · exact .inl (coerce_text htext h)
  · by_cases hint : spec.type = .integer ∨ spec.type.isIntId = true
    · exact .inr (coerce_int hint h)
    · rw [coerce] at h
      cases hkind : spec.type with
      | date =>
        rw [hkind] at h
        cases given with
        | str s =>
          obtain ⟨-, h⟩ := require_bind_eq_ok.1 h
          obtain ⟨-, h⟩ := require_bind_eq_ok.1 h
          cases h
          exact .inl ⟨_, rfl⟩
        | _ => cases h
      | datetime =>
        rw [hkind] at h
        obtain ⟨utc, -, h⟩ := bind_eq_ok.1 h
        cases h
        exact .inl ⟨_, rfl⟩
      | group =>
        rw [hkind] at h
        cases h
      | text | textarea | url | email | ip | mac | customerUser | customerCompany | decimal
      | money => exact absurd (by rw [hkind]; rfl) htext
      | integer => exact absurd (.inl hkind) hint
      | catalog | ciRef | agent | service | sla | queue | priority | ticketType | state
      | attachment => exact absurd (.inr (by rw [hkind]; rfl)) hint

/-- A stored value is the same as itself only. -/
theorem eq_of_same_valued (hv : Valued L spec v) (h : same w v = true) : w = v := by
  have hscalar : v = .null ∨ (∃ s, v = .str s) ∨ ∃ n, v = .int n :=
    hv.imp_right fun ⟨_, _, hcoerce⟩ ↦ coerce_scalar hcoerce
  rcases hscalar with rfl | ⟨s, rfl⟩ | ⟨n, rfl⟩
  · cases w with
    | null => rfl
    | _ => cases h
  · cases w with
    | str t =>
      rw [same, decide_eq_true_eq] at h
      rw [h]
    | _ => cases h
  · cases w with
    | int m =>
      rw [same, decide_eq_true_eq] at h
      rw [h]
    | _ => cases h

theorem map_eq_of_forall₂ {α β : Type} {R : α → α → Prop} {f : α → β} {xs ys : List α}
    (h : List.Forall₂ R xs ys) (hf : ∀ x, ∀ y ∈ ys, R x y → f x = f y) : xs.map f = ys.map f := by
  induction h with
  | nil => rfl
  | @cons x y xs ys hxy _ ih =>
    rw [List.map_cons, List.map_cons, hf x y List.mem_cons_self hxy,
      ih fun x y hy ↦ hf x y (List.mem_cons_of_mem _ hy)]

/-- Equal documents are written as the same XMLData. -/
theorem written_same (hattrs : DistinctKeys attrs) (hout : Accepted L attrs out)
    (h : same (.dict doc) (.dict out) = true) :
    attributesToXmldata print attrs doc = attributesToXmldata print attrs out := by
  induction hattrs generalizing doc out with
  | @intro attrs hkeys _ ih =>
    obtain ⟨kept, rfl, hitems⟩ := hout.items
    rw [attributesToXmldata_eq hkeys, attributesToXmldata_eq hkeys]
    refine List.filterMap_congr fun a ha ↦ ?_
    have hwritten : writtenOf print doc a =
        writtenOf print (attrs.filterMap (level (·.key) fun a ↦ (kept a).map .dict)) a := by
      have hkept := entriesOf_level (fun a ↦ (kept a).map Raw.dict) hkeys ha
      have hds : entriesOf (.list ((kept a).map .dict)) = kept a :=
        (entriesOf_dicts id (kept a)).trans (List.map_id _)
      rw [hds] at hkept
      have hentries := entriesOf_same (lookup_same h a.key)
      rw [writtenOf, writtenOf, writeAttr_eq, writeAttr_eq]
      rw [hkept] at hentries ⊢
      refine map_eq_of_forall₂ hentries fun d e he hsame ↦ ?_
      obtain ⟨v, s, hitem⟩ := hitems a ha e he
      have hv := lookup_same hsame "v".toList
      have hs := lookup_same hsame "s".toList
      have hev : get e "v" = v := get_itemOf_v e hitem.eq
      have hes : get e "s" = if (nestedOf L a.sub).isSome then .dict s else .null :=
        get_itemOf_s e hitem.eq
      change same (get d "v") (get e "v") = true at hv
      change same (get d "s") (get e "s") = true at hs
      rw [hev] at hv
      rw [hes] at hs
      have hdv : get d "v" = v := eq_of_same_valued hitem.valued hv
      have hbelow : writeBelow (writer print a.sub) (get d "s") =
          writeBelow (writer print a.sub) (get e "s") := by
        rw [hes]
        cases hempty : a.sub.isEmpty with
        | true =>
          have hwriter : writer print a.sub = none := by rw [writer, hempty]; rfl
          rw [hwriter]
          rfl
        | false =>
          have hwriter : writer print a.sub = some (attributesToXmldata print a.sub) := by
            rw [writer, hempty]; rfl
          rw [nestedOf, hempty] at hs ⊢
          rw [hwriter]
          cases hd : get d "s" with
          | dict s' =>
            rw [hd] at hs
            exact ih a ha hitem.below hs
          | _ =>
            rw [hd] at hs
            cases hs
      rw [writeEntry, writeEntry, hdv, hev, hbelow]
    rw [level, level, hwritten]

end Same

section Size

theorem leavesOf_append (xs ys : Dict) : leavesOf (xs ++ ys) = leavesOf xs + leavesOf ys := by
  induction xs with
  | nil => exact (Nat.zero_add _).symm
  | cons x xs ih => rw [List.cons_append, leavesOf, leavesOf, ih, Nat.add_assoc]

theorem levelsOf_append (xs ys : Dict) : levelsOf (xs ++ ys) = max (levelsOf xs) (levelsOf ys) := by
  induction xs with
  | nil => exact (Nat.zero_max _).symm
  | cons x xs ih => rw [List.cons_append, levelsOf, levelsOf, ih, Nat.max_assoc]

theorem leavesAmong_map {α : Type} (f : α → Dict) (ds : List α) :
    leavesAmong (ds.map fun d ↦ .dict (f d)) = (ds.map fun d ↦ 1 + leavesOf (f d)).sum := by
  induction ds with
  | nil => rfl
  | cons d ds ih => rw [List.map_cons, List.map_cons, List.sum_cons, leavesAmong, ih, leavesAt]

theorem levelsAmong_map {α : Type} {f : α → Dict} {ds : List α} {n : ℕ}
    (h : ∀ d ∈ ds, 1 + levelsOf (f d) ≤ n) : levelsAmong (ds.map fun d ↦ .dict (f d)) ≤ n := by
  induction ds with
  | nil => exact Nat.zero_le _
  | cons d ds ih =>
    rw [List.forall_mem_cons] at h
    rw [List.map_cons, levelsAmong, levelsAt]
    exact max_le h.1 (ih h.2)

theorem leavesOf_level (entries : AttributeDef → List Raw) :
    leavesOf (attrs.filterMap (level (·.key) entries)) = (attrs.map fun a ↦
      leavesAmong (entries a)).sum := by
  induction attrs with
  | nil => rfl
  | cons a attrs ih =>
    rw [List.map_cons, List.sum_cons, List.filterMap_cons, level]
    cases hempty : (entries a).isEmpty with
    | true =>
      rw [List.isEmpty_iff.1 hempty, leavesAmong, Nat.zero_add]
      exact ih
    | false => exact congrArg (leavesAmong (entries a) + ·) ih

theorem levelsOf_level {entries : AttributeDef → List Raw} {n : ℕ}
    (h : ∀ a ∈ attrs, levelsAmong (entries a) ≤ n) :
    levelsOf (attrs.filterMap (level (·.key) entries)) ≤ n := by
  induction attrs with
  | nil => exact Nat.zero_le _
  | cons a attrs ih =>
    rw [List.forall_mem_cons] at h
    rw [List.filterMap_cons, level]
    cases hempty : (entries a).isEmpty with
    | true => exact ih h.2
    | false => exact max_le h.1 (ih h.2)

theorem entryCount_eq : entryCount attrs values = (attrs.map fun a ↦
    ((entriesOf ((values.lookup a.key).getD .null)).map fun d ↦ 1 + match get d "s" with
      | .dict s => entryCount a.sub s
      | _ => 0).sum).sum := by
  induction attrs with
  | nil => rw [entryCount]; rfl
  | cons a attrs ih =>
    obtain ⟨spec, sub⟩ := a
    rw [entryCount, entryCountOf, ih]
    rfl

theorem key_of_written (hkeys : (attrs.map (·.key)).Nodup) {key : Text}
    (h : key ∉ attrs.map (·.key)) :
    key ∉ (attributesToXmldata print attrs values).map Prod.fst := by
  rw [attributesToXmldata_eq hkeys]
  intro hmem
  obtain ⟨kv, hkv, rfl⟩ := List.mem_map.1 hmem
  exact h (key_mem_level hkv)

/-- The XML entry of an entry is what is below it, and the `Content`. -/
theorem writeEntry_eq (print : Raw → Text) (d : Dict) (hkeys : (a.sub.map (·.key)).Nodup)
    (hfree : "Content".toList ∉ a.sub.map (·.key)) : ∃ xml content,
    writeEntry print a.spec (writer print a.sub) d = xml ++ [("Content".toList, .str content)] ∧
      (xml = [] ∧ (∀ s, get d "s" = .dict s → a.sub = []) ∨
        ∃ s, get d "s" = .dict s ∧ xml = attributesToXmldata print a.sub s) := by
  have hnil : ∀ content : Raw, setItem ([] : Dict) "Content".toList content =
      [] ++ [("Content".toList, content)] := fun _ ↦ rfl
  rw [writeEntry]
  cases hempty : a.sub.isEmpty with
  | true =>
    have hwriter : writer print a.sub = none := by rw [writer, hempty]; rfl
    rw [hwriter, writeBelow, hnil]
    · exact ⟨[], _, rfl, .inl ⟨rfl, fun _ _ ↦ List.isEmpty_iff.1 hempty⟩⟩
    · exact fun write sub h ↦ by cases h
  | false =>
    have hwriter : writer print a.sub = some (attributesToXmldata print a.sub) := by
      rw [writer, hempty]; rfl
    rw [hwriter]
    cases hs : get d "s" with
    | dict s =>
      rw [writeBelow, setItem_new (key_of_written hkeys hfree)]
      exact ⟨_, _, rfl, .inr ⟨s, rfl, rfl⟩⟩
    | _ => exact ⟨[], _, rfl, .inl ⟨rfl, fun s h ↦ by cases h⟩⟩

/-- Two values for each entry. -/
theorem leavesOf_written (hattrs : DistinctKeys attrs)
    (hfree : everyAttr isContentFree attrs = true) :
    leavesOf (attributesToXmldata print attrs values) = 2 * entryCount attrs values := by
  induction hattrs generalizing values with
  | @intro attrs hkeys hsub ih =>
    rw [everyAttr_iff] at hfree
    rw [attributesToXmldata_eq hkeys, leavesOf_level, entryCount_eq, ← List.sum_map_mul_left]
    refine congrArg List.sum (List.map_congr_left fun a ha ↦ ?_)
    rw [writtenOf, writeAttr_eq, leavesAmong_map, ← List.sum_map_mul_left]
    refine congrArg List.sum (List.map_congr_left fun d _ ↦ ?_)
    obtain ⟨hsubkeys, -⟩ := hsub a ha
    obtain ⟨xml, content, hxml, hbelow⟩ := writeEntry_eq print d hsubkeys
      (by simpa [isContentFree] using (hfree a ha).1)
    rw [hxml, leavesOf_append]
    rcases hbelow with ⟨rfl, hleaf⟩ | ⟨s, hs, rfl⟩
    · cases hs : get d "s" with
      | dict s =>
        rw [hleaf s hs]
        rfl
      | _ => rfl
    · rw [ih a ha (hfree a ha).2, hs]
      dsimp only [leavesOf, leavesIn]
      omega

theorem levelsOf_written (hattrs : DistinctKeys attrs)
    (hfree : everyAttr isContentFree attrs = true) :
    levelsOf (attributesToXmldata print attrs values) ≤ height attrs := by
  induction hattrs generalizing values with
  | @intro attrs hkeys hsub ih =>
    rw [everyAttr_iff] at hfree
    have hheight : ∀ a ∈ attrs, 1 + height a.sub ≤ height attrs := by
      clear hkeys hsub ih hfree
      induction attrs with
      | nil => exact fun a ha ↦ absurd ha List.not_mem_nil
      | cons b attrs ih =>
        obtain ⟨spec, sub⟩ := b
        rw [height, heightOf, List.forall_mem_cons]
        exact ⟨le_max_left _ _, fun a ha ↦ (ih a ha).trans (le_max_right _ _)⟩
    rw [attributesToXmldata_eq hkeys]
    refine levelsOf_level fun a ha ↦ ?_
    rw [writtenOf, writeAttr_eq]
    refine levelsAmong_map fun d _ ↦ le_trans ?_ (hheight a ha)
    obtain ⟨hsubkeys, -⟩ := hsub a ha
    obtain ⟨xml, content, hxml, hbelow⟩ := writeEntry_eq print d hsubkeys
      (by simpa [isContentFree] using (hfree a ha).1)
    rw [hxml, levelsOf_append]
    rcases hbelow with ⟨rfl, -⟩ | ⟨s, -, rfl⟩
    · exact Nat.add_le_add_left (Nat.zero_le _) 1
    · exact Nat.add_le_add_left (max_le (ih a ha (hfree a ha).2) (Nat.zero_le _)) 1

mutual

theorem check_height {path : Text} {depth : ℕ} : ∀ a : AttributeDef,
    check knownCatalogClasses knownClassKeys a path depth = [] →
      depth + heightOf a ≤ maxDepth + 1
  | .mk spec sub => fun h ↦ by
    rw [check, List.append_eq_nil_iff] at h
    have hdepth : depth ≤ maxDepth := by
      by_contra hlt
      simp only [specIssues, if_pos (not_le.1 hlt), List.append_eq_nil_iff] at h
      exact absurd h.1 (by simp)
    have hsub := checkAll_height sub (Nat.succ_le_succ hdepth) h.2
    rw [heightOf]
    omega

theorem checkAll_height {start : Text} {depth : ℕ} {seen : List Text} :
    ∀ attrs : List AttributeDef, depth ≤ maxDepth + 1 →
      checkAll knownCatalogClasses knownClassKeys attrs start depth seen = [] →
        depth + height attrs ≤ maxDepth + 1
  | [] => fun hdepth _ ↦ hdepth
  | a :: attrs => fun hdepth h ↦ by
    rw [checkAll, List.append_eq_nil_iff, List.append_eq_nil_iff] at h
    rw [height, ← Nat.add_max_add_left]
    exact max_le (check_height a h.1.2) (checkAll_height attrs hdepth h.2)

end

theorem validateDefinition_height
    (h : validateDefinition knownCatalogClasses knownClassKeys attrs = []) :
    height attrs ≤ maxDepth := by
  rw [validateDefinition, List.append_eq_nil_iff] at h
  have hheight := checkAll_height attrs (Nat.succ_le_succ (Nat.zero_le _)) h.2
  omega

end Size

section Main

/-- The largest number of entries whose XMLData is let through. -/
def maxEntries : ℕ := 25000

/-- Values survive the XMLData format when they have at most 25000 entries; more are refused. -/
def Survives (print : Raw → Text) (L : Lib) (resolver : RefResolver) (attrs : List AttributeDef)
    (doc values : Dict) : Prop :=
  let result := xmldataToAttributes print L resolver attrs (attributesToXmldata print attrs doc)
  if entryCount attrs values ≤ maxEntries then result = .ok (values, [])
  else ∃ e, result = .error e

theorem guard_written (hattrs : validateDefinition knownCatalogClasses knownClassKeys attrs = [])
    (hfree : everyAttr isContentFree attrs = true) :
    guardXmlData (attributesToXmldata print attrs values) = .ok () ↔
      entryCount attrs values ≤ maxEntries := by
  have hdistinct := validateDefinition_distinct hattrs
  have hheight := validateDefinition_height hattrs
  have hlevels : levelsOf (attributesToXmldata print attrs values) ≤ height attrs :=
    levelsOf_written hdistinct hfree
  have hmax : maxXmlLeaves = 2 * maxEntries := rfl
  rw [guardXmlData_iff, leavesOf_written hdistinct hfree, hmax]
  have hdepth : 1 + levelsOf (attributesToXmldata print attrs values) ≤ maxXmlDepth := by
    have hsmall : 1 + maxDepth ≤ maxXmlDepth := by decide
    omega
  refine (and_iff_right hdepth).trans ?_
  omega

/-- Accepted values that are kept as they are survive the XMLData format, when integers have at
most 18 digits and no sub attribute has the key `Content`. -/
theorem xmlData_survives
    (hattrs : validateDefinition knownCatalogClasses knownClassKeys attrs = [])
    (hkinds : everyAttr isNoAttachment attrs = true)
    (hfree : everyAttr isContentFree attrs = true)
    (hrun : normalizeValues L attrs doc = (values, []))
    (hsame : same (.dict doc) (.dict values) = true) (hshort : ShortAttrs attrs values)
    (hid : resolver.Identity) : Survives print L resolver attrs doc values := by
  have hdistinct := validateDefinition_distinct hattrs
  have hout : Accepted L attrs values := .inr ⟨doc, [], hrun⟩
  obtain ⟨hkeys, -⟩ := hdistinct
  have hread : toAttributes print L resolver attrs (attributesToXmldata print attrs values) [] =
      (values, []) :=
    toAttributes_carried (validateDefinition_distinct hattrs) hid hkinds hfree hout hshort
      (carries_self hkeys)
  have hguard : guardXmlData (attributesToXmldata print attrs values) = .ok () ↔
      entryCount attrs values ≤ maxEntries := guard_written hattrs hfree
  rw [Survives, written_same (validateDefinition_distinct hattrs) hout hsame, xmldataToAttributes,
    hread]
  split
  · next hle =>
    rw [hguard.2 hle]
    rfl
  · next hlt =>
    cases hrefused : guardXmlData (attributesToXmldata print attrs values) with
    | ok _ => exact absurd (hguard.1 hrefused) hlt
    | error e => exact ⟨e, rfl⟩

end Main

section Sample

/-- An attribute of the class definitions below. -/
def sampleSpec (key : String) (kind : AttributeType) : AttributeSpec where
  key := key.toList
  name := key.toList
  type := kind
  required := false
  searchable := false
  countMin := 0
  countMax := 100
  countDefault := 1
  default := none
  help := none
  options := plainOptions

/-- The resolver that reads an id. -/
def readId : RefResolver := ⟨fun s ↦ some (signedValue s), fun s ↦ some (signedValue s)⟩

theorem readId_identity : readId.Identity :=
  ⟨fun n ↦ congrArg some (signedValue_intText n), fun n ↦ congrArg some (signedValue_intText n)⟩

def nic : List AttributeDef :=
  [.mk (sampleSpec "NIC" .group) [.mk (sampleSpec "Port" .integer) []]]

def onePort : Dict :=
  [("NIC".toList, .list [.dict [("v".toList, .null), ("s".toList, .dict
    [("Port".toList, .list [.dict [("v".toList, .int 0)]])])]])]

theorem xmlData_survives_sample :
    Survives (fun _ ↦ []) plainLib readId nic onePort onePort := by
  have hattrs : validateDefinition [] [] nic = [] := by decide +kernel
  have hrun : normalizeValues plainLib nic onePort = (onePort, []) := by rfl
  refine xmlData_survives hattrs (by decide) (by decide) hrun (by rfl) ?_ readId_identity
  rw [shortAttrs_iff]
  intro a ha d hd
  obtain rfl := List.mem_singleton.1 ha
  have hentry := List.mem_singleton.1 hd
  subst hentry
  refine ⟨fun _ n hn ↦ (by cases hn), fun s hs ↦ ?_⟩
  cases hs
  rw [shortAttrs_iff]
  intro b hb e he
  obtain rfl := List.mem_singleton.1 hb
  have hport := List.mem_singleton.1 he
  subst hport
  refine ⟨fun _ n hn ↦ ?_, fun s hs ↦ by cases hs⟩
  cases hn
  decide

/-- A hundred equal entries that are each kept as they are. -/
theorem normalizeValue_hundred {nested : Option Nested} {entry : Raw} {path : Text}
    (hcount : spec.countMax = 100 ∧ spec.countMin = 0)
    (h : ∀ path, normalizeEntry L spec nested path entry = ⟨some entry, false, []⟩) :
    normalizeValue L spec nested path (.list (List.replicate 100 entry)) =
      (List.replicate 100 entry, []) := by
  have hrun : ∀ p ∈ (List.replicate 100 entry).zipIdx 1,
      entryAt L spec nested path p = ⟨some p.1, false, []⟩ := by
    rintro ⟨e, i⟩ hp
    obtain rfl : e = entry := List.eq_of_mem_replicate (List.fst_mem_of_mem_zipIdx hp)
    exact h _
  have hissues : ∀ e ∈ normalizeEntries L spec nested path (List.replicate 100 entry),
      e.issues = [] := by
    intro e he
    obtain ⟨p, hp, rfl⟩ := List.mem_map.1 (normalizeEntries_eq (List.replicate 100 entry) ▸ he)
    rw [hrun p hp]
  refine normalizeValue_list.2 ⟨?_, hissues, ?_⟩
  · rw [normalizeEntries_eq, List.filterMap_map]
    exact filterMap_zipIdx_eq fun p hp ↦ congrArg Entry.item (hrun p hp)
  · rw [countP_unusable hissues, List.length_replicate, countIssues, hcount.1, hcount.2]
    rfl

/-- A level of one attribute with a hundred equal entries. -/
def hundred (key : String) (entry : Raw) : Dict :=
  [(key.toList, .list (List.replicate 100 entry))]

theorem normalizeLevel_hundred {key : String} {kind : AttributeType} {entry : Raw}
    (h : ∀ path, normalizeEntry L (sampleSpec key kind) (nestedOf L sub) path entry =
      ⟨some entry, false, []⟩) (start : Text) :
    normalizeLevel L [.mk (sampleSpec key kind) sub] (hundred key entry) start =
      (hundred key entry, []) := by
  have hkept : keptOf L (hundred key entry) start (.mk (sampleSpec key kind) sub) =
      (List.replicate 100 entry, []) := by
    have hlookup : (hundred key entry).lookup (AttributeDef.mk (sampleSpec key kind) sub).key =
        some (.list (List.replicate 100 entry)) := List.lookup_cons_self
    rw [keptOf, hlookup, normalizeAttr_eq]
    exact normalizeValue_hundred ⟨rfl, rfl⟩ h
  rw [normalizeLevel_nil]
  refine ⟨?_, ?_, unknownKeys_eq_nil ?_⟩
  · rw [normalizeAttrs_eq, List.filterMap_cons, hkept]
    rfl
  · rw [List.forall_mem_singleton, hkept]
  · rw [hundred, List.forall_mem_singleton]
    exact List.mem_singleton.2 rfl

/-- An entry of a group. -/
def groupEntry (s : Dict) : Raw := .dict [("v".toList, .null), ("s".toList, .dict s)]

theorem normalizeEntry_group {key : String} {s : Dict} (hs : s ≠ []) (hsub : sub ≠ [])
    (h : ∀ start, normalizeLevel L sub s start = (s, [])) (path : Text) :
    normalizeEntry L (sampleSpec key .group) (nestedOf L sub) path (groupEntry s) =
      ⟨some (groupEntry s), false, []⟩ := by
  have hnested : nestedOf L sub = some (normalizeLevel L sub) :=
    if_neg (by rwa [List.isEmpty_iff])
  have hvalue : entryValue L (sampleSpec key .group) path .null = (some .null, []) := rfl
  have hbelow : entrySub (nestedOf L sub) path (.dict s) = (s, []) := by
    rw [hnested, entrySub, if_neg (by rwa [List.isEmpty_iff]), h]
  have hgetv : get [("v".toList, Raw.null), ("s".toList, .dict s)] "v" = .null := rfl
  have hgets : get [("v".toList, Raw.null), ("s".toList, .dict s)] "s" = .dict s := rfl
  have hempty : s.isEmpty = false := List.isEmpty_eq_false_iff.2 hs
  rw [groupEntry, normalizeEntry_dict, hgetv, hgets, hvalue, hbelow]
  dsimp only
  rw [hempty, Bool.and_false, if_neg Bool.false_ne_true, hnested]
  rfl

def port : List AttributeDef := [.mk (sampleSpec "Port" .text) []]

def card : List AttributeDef := [.mk (sampleSpec "Card" .group) port]

def rack : List AttributeDef := [.mk (sampleSpec "Rack" .group) card]

/-- A hundred racks with a hundred cards with a hundred ports. -/
def ports : Dict := hundred "Port" (.dict [("v".toList, .str "x".toList)])

def cards : Dict := hundred "Card" (groupEntry ports)

def racks : Dict := hundred "Rack" (groupEntry cards)

theorem racks_kept : normalizeValues plainLib rack racks = (racks, []) := by
  have hports : ∀ start, normalizeLevel plainLib port ports start = (ports, []) :=
    normalizeLevel_hundred fun path ↦ rfl
  have hcards : ∀ start, normalizeLevel plainLib card cards start = (cards, []) :=
    normalizeLevel_hundred (normalizeEntry_group (List.cons_ne_nil _ _) (List.cons_ne_nil _ _)
      hports)
  exact normalizeLevel_hundred
    (normalizeEntry_group (List.cons_ne_nil _ _) (List.cons_ne_nil _ _) hcards) []

theorem entryCount_hundred {key : String} {kind : AttributeType} {entry : Dict} :
    entryCount [.mk (sampleSpec key kind) sub] (hundred key (.dict entry)) =
      100 * (1 + match get entry "s" with
        | .dict s => entryCount sub s
        | _ => 0) := by
  have hentries : entriesOf (.list (List.replicate 100 (.dict entry))) =
      List.replicate 100 entry := by
    rw [← List.map_replicate (f := Raw.dict)]
    exact (entriesOf_dicts id _).trans (List.map_id _)
  have hlookup : (hundred key (.dict entry)).lookup
      (AttributeDef.mk (sampleSpec key kind) sub).key =
        some (.list (List.replicate 100 (.dict entry))) := List.lookup_cons_self
  rw [entryCount, hlookup, Option.getD_some, entryCountOf, hentries, List.map_replicate,
    List.sum_replicate, entryCount]
  rfl

theorem same_hundred {key : String} {entry : Raw} (h : same entry entry = true) :
    same (.dict (hundred key entry)) (.dict (hundred key entry)) = true := by
  have hlist : ∀ n, sameList (List.replicate n entry) (List.replicate n entry) = true := by
    intro n
    induction n with
    | zero => rfl
    | succ n ih => rw [List.replicate_succ, sameList, h, ih]; rfl
  rw [same, hundred, sameItems, List.lookup_cons_self, sameItems, Option.any_some, same, hlist]
  simp

theorem same_group {s : Dict} (h : same (.dict s) (.dict s) = true) :
    same (groupEntry s) (groupEntry s) = true := by
  have hv : [("v".toList, Raw.null), ("s".toList, .dict s)].lookup "v".toList = some .null := rfl
  have hs : [("v".toList, Raw.null), ("s".toList, .dict s)].lookup "s".toList =
      some (.dict s) := rfl
  rw [groupEntry, same, sameItems, hv, sameItems, hs, sameItems, Option.any_some, Option.any_some,
    h]
  rfl

/-- A million entries are kept as they are, and their XMLData is refused. -/
theorem racks_refused : validateDefinition [] [] rack = [] ∧
    everyAttr isNoAttachment rack = true ∧
    normalizeValues plainLib rack racks = (racks, []) ∧
    same (.dict racks) (.dict racks) = true ∧ readId.Identity ∧
    xmldataToAttributes (fun _ ↦ []) plainLib readId rack
      (attributesToXmldata (fun _ ↦ []) rack racks) ≠ .ok (racks, []) := by
  have hattrs : validateDefinition [] [] rack = [] := by decide +kernel
  have hcount : entryCount rack racks = 1010100 := by
    rw [rack, racks, groupEntry, entryCount_hundred]
    change 100 * (1 + entryCount card cards) = _
    rw [card, cards, groupEntry, entryCount_hundred]
    change 100 * (1 + 100 * (1 + entryCount port ports)) = _
    rw [port, ports, entryCount_hundred]
    rfl
  refine ⟨hattrs, by decide, racks_kept, same_hundred (same_group (same_hundred (same_group
    (same_hundred (by decide))))), readId_identity, fun h ↦ ?_⟩
  obtain ⟨_, hguard, -⟩ := bind_eq_ok.1 h
  have hle : entryCount rack racks ≤ maxEntries := (guard_written hattrs (by decide)).1 hguard
  rw [hcount] at hle
  exact absurd hle (by decide)

end Sample

end Tiqora.Itsm.ZnunyFormat
