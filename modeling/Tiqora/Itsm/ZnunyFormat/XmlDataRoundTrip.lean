import Tiqora.Cmdb.ValuesIdempotent
import Tiqora.Itsm.ZnunyFormat.XmlDataScalars

namespace Tiqora.Itsm.ZnunyFormat

open Foundation Cmdb.Definition Cmdb.Values

mutual

/-- What holds of every attribute of a tree. -/
def everyAttr (p : AttributeDef → Bool) : List AttributeDef → Bool
  | [] => true
  | a :: attrs => everyOf p a && everyAttr p attrs

def everyOf (p : AttributeDef → Bool) : AttributeDef → Bool
  | .mk spec sub => p (.mk spec sub) && everyAttr p sub

end

def isNoAttachment (a : AttributeDef) : Bool := a.spec.type ≠ .attachment

/-- No sub attribute has the key that the format has for the value. -/
def isContentFree (a : AttributeDef) : Bool := "Content".toList ∉ a.sub.map (·.key)

mutual

def ShortAttrs : List AttributeDef → Dict → Prop
  | [], _ => True
  | a :: attrs, values => ShortAttr a ((values.lookup a.key).getD .null) ∧ ShortAttrs attrs values

def ShortAttr : AttributeDef → Raw → Prop
  | .mk spec sub, value => ∀ d ∈ entriesOf value,
      Short spec.type (get d "v") ∧ ∀ s, get d "s" = .dict s → ShortAttrs sub s

end

variable {print : Raw → Text} {L : Lib} {resolver : RefResolver} {attrs sub : List AttributeDef}
  {a : AttributeDef} {spec : AttributeSpec} {out node values : Dict} {start path : Text}
  {value entry : Raw}

theorem everyAttr_iff {p : AttributeDef → Bool} : everyAttr p attrs = true ↔
    ∀ a ∈ attrs, p a = true ∧ everyAttr p a.sub = true := by
  induction attrs with
  | nil => exact iff_of_true rfl fun a ha ↦ absurd ha List.not_mem_nil
  | cons a attrs ih =>
    obtain ⟨spec, sub⟩ := a
    rw [everyAttr, everyOf, Bool.and_eq_true, Bool.and_eq_true, ih, List.forall_mem_cons]
    exact Iff.rfl

theorem shortAttrs_iff : ShortAttrs attrs values ↔ ∀ a ∈ attrs,
    ∀ d ∈ entriesOf ((values.lookup a.key).getD .null),
      Short a.spec.type (get d "v") ∧ ∀ s, get d "s" = .dict s → ShortAttrs a.sub s := by
  induction attrs with
  | nil => exact iff_of_true trivial fun a ha ↦ absurd ha List.not_mem_nil
  | cons a attrs ih =>
    obtain ⟨spec, sub⟩ := a
    rw [ShortAttrs, ShortAttr, ih, List.forall_mem_cons]
    exact Iff.rfl

section Levels

variable {α : Type} {key : α → Text} {as : List α}

/-- Distinct keys are assigned one after the other. -/
theorem foldl_level (entries : α → List Raw) (hkeys : (as.map key).Nodup) :
    as.foldl (fun out a ↦ if (entries a).isEmpty then out
      else setItem out (key a) (.list (entries a))) [] = as.filterMap (level key entries) := by
  have hassign : ∀ out : Dict, ∀ a : α, (if (entries a).isEmpty then out
      else setItem out (key a) (.list (entries a))) =
        (level key entries a).elim out fun item ↦ setItem out item.1 item.2 := by
    intro out a
    rw [level]
    split <;> rfl
  have hkey : ∀ a item, level key entries a = some item → item.1 = key a := by
    intro a item h
    rw [level] at h
    split at h
    · cases h
    · cases h
      rfl
  simp only [hassign]
  rw [foldl_setItem, List.nil_append]
  · exact fun a _ item _ ↦ List.not_mem_nil
  · refine (List.pairwise_map.1 hkeys).imp fun hne x y hx hy ↦ ?_
    rwa [hkey _ x hx, hkey _ y hy]

theorem entriesOf_level {a : α} (entries : α → List Raw) (hkeys : (as.map key).Nodup)
    (ha : a ∈ as) : entriesOf (((as.filterMap (level key entries)).lookup (key a)).getD .null) =
      entriesOf (.list (entries a)) := by
  rw [lookup_level entries hkeys ha]
  split
  · next hempty =>
    rw [List.isEmpty_iff.1 hempty]
    rfl
  · rfl

theorem entriesOf_dicts (f : α → Dict) (ds : List α) :
    entriesOf (.list (ds.map fun d ↦ .dict (f d))) = ds.map f := by
  induction ds with
  | nil => rfl
  | cons d ds ih =>
    rw [List.map_cons, List.map_cons, ← ih]
    rfl

end Levels

section Accepted

/-- What a level of a definition accepts, or the empty level of an entry. -/
def Accepted (L : Lib) (attrs : List AttributeDef) (out : Dict) : Prop :=
  out = [] ∨ ∃ raw start, normalizeLevel L attrs raw start = (out, [])

/-- A stored value, or none. -/
def Valued (L : Lib) (spec : AttributeSpec) (value : Raw) : Prop :=
  value = .null ∨ ∃ v, v.isEmpty = false ∧ coerce L spec v = .ok value

/-- An entry of an attribute as it is stored. -/
structure Item (L : Lib) (a : AttributeDef) (d : Dict) (value : Raw) (s : Dict) : Prop where
  eq : itemOf (nestedOf L a.sub) value s = .dict d
  valued : Valued L a.spec value
  below : Accepted L a.sub s

variable {nested : Option Nested} {unusable : Bool} {kept : List Raw}

theorem entryValue_valued {v : Raw} {bad : List ValueIssue}
    (h : entryValue L spec path v = (some value, bad)) : Valued L spec value := by
  rw [entryValue] at h
  split at h
  · next hpresent =>
    rw [isPresent, Bool.and_eq_true] at hpresent
    split at h
    · next r hr =>
      cases h
      exact .inr ⟨v, by simpa using hpresent.2, hr⟩
    · cases h
  · cases h
    exact .inl rfl

theorem entrySub_accepted {s : Raw} {below : Dict}
    (h : entrySub (nestedOf L sub) path s = (below, [])) : Accepted L sub below := by
  rw [nestedOf] at h
  split at h
  · exact .inl (entrySub_none h)
  · cases s with
    | dict items =>
      rw [entrySub] at h
      split at h
      · exact .inl (congrArg Prod.fst h).symm
      · exact .inr ⟨items, _, h⟩
    | null => exact .inl (congrArg Prod.fst h).symm
    | _ => cases h

/-- What is kept of an entry without an issue. -/
theorem normalizeEntry_item
    (h : normalizeEntry L a.spec (nestedOf L a.sub) path entry = ⟨some value, unusable, []⟩) :
    ∃ d v s, value = .dict d ∧ Item L a d v s := by
  cases entry with
  | dict given =>
    rw [normalizeEntry_dict] at h
    rcases hv : entryValue L a.spec path (get given "v") with ⟨v, bad⟩
    rcases hs : entrySub (nestedOf L a.sub) path (get given "s") with ⟨s, issues⟩
    rw [hv, hs] at h
    cases v with
    | none => cases h
    | some v =>
      dsimp only at h
      split at h
      · split at h <;> cases h
      · injection h with hitem _ hissues
        rw [(List.append_eq_nil_iff.1 hissues).2] at hs
        exact ⟨_, v, s, (Option.some.inj hitem).symm, rfl, entryValue_valued hv,
          entrySub_accepted hs⟩
  | _ => cases h

theorem normalizeValue_items
    (h : normalizeValue L a.spec (nestedOf L a.sub) path value = (kept, [])) :
    ∀ e ∈ kept, ∃ d v s, e = .dict d ∧ Item L a d v s := by
  have hlist : ∀ entries,
      normalizeValue L a.spec (nestedOf L a.sub) path (.list entries) = (kept, []) →
        ∀ e ∈ kept, ∃ d v s, e = .dict d ∧ Item L a d v s := by
    intro entries hentries e he
    obtain ⟨hkept, hissues, -⟩ := normalizeValue_list.1 hentries
    rw [← hkept, List.mem_filterMap] at he
    obtain ⟨found, hfound, hitem⟩ := he
    obtain ⟨p, -, hp⟩ := List.mem_map.1 (normalizeEntries_eq entries ▸ hfound)
    exact normalizeEntry_item (hp.trans (entry_eta hitem (hissues found hfound)))
  cases value with
  | list entries => exact hlist entries h
  | null => exact hlist [] h
  | _ => cases h

/-- An accepted level holds stored entries under the keys of its attributes. -/
theorem Accepted.items (h : Accepted L attrs out) : ∃ kept : AttributeDef → List Dict,
    out = attrs.filterMap (level (·.key) fun a ↦ (kept a).map .dict) ∧
      ∀ a ∈ attrs, ∀ d ∈ kept a, ∃ v s, Item L a d v s := by
  have hall : ∃ entries : AttributeDef → List Raw, out = attrs.filterMap (level (·.key) entries) ∧
      ∀ a ∈ attrs, ∀ e ∈ entries a, ∃ d v s, e = .dict d ∧ Item L a d v s := by
    rcases h with rfl | ⟨raw, start, hrun⟩
    · refine ⟨fun _ ↦ [], ?_, fun a _ e he ↦ absurd he List.not_mem_nil⟩
      exact (List.filterMap_eq_nil_iff.2 fun a _ ↦ rfl).symm
    · obtain ⟨rfl, hissues, -⟩ := normalizeLevel_nil.1 hrun
      refine ⟨fun a ↦ (keptOf L raw start a).1, by rw [normalizeAttrs_eq]; rfl, fun a ha ↦ ?_⟩
      have hfirst : normalizeValue L a.spec (nestedOf L a.sub) (start ++ a.key)
          ((raw.lookup a.key).getD .null) = ((keptOf L raw start a).1, []) := by
        rw [← normalizeAttr_eq, ← hissues a ha]
      exact normalizeValue_items hfirst
  obtain ⟨entries, rfl, hitems⟩ := hall
  refine ⟨fun a ↦ entriesOf (.list (entries a)), List.filterMap_congr fun a ha ↦ ?_,
    fun a ha d hd ↦ ?_⟩
  · have hentries : entries a = (entriesOf (.list (entries a))).map .dict := by
      have hdict : ∀ e ∈ entries a, e.dict?.map Raw.dict = some e := by
        intro e he
        obtain ⟨d, -, -, rfl, -⟩ := hitems a ha e he
        rfl
      rw [entriesOf, List.map_filterMap, List.filterMap_congr hdict, List.filterMap_some]
    rw [level, level, ← hentries]
  · obtain ⟨d', v, s, heq, hitem⟩ := hitems a ha _ (mem_entriesOf.1 hd)
    cases heq
    exact ⟨v, s, hitem⟩

end Accepted

section Written

variable (print L resolver)

def writer (sub : List AttributeDef) : Option (Dict → Dict) :=
  if sub.isEmpty then none else some (attributesToXmldata print sub)

def reader (sub : List AttributeDef) : Option Reader :=
  if sub.isEmpty then none else some (toAttributes print L resolver sub)

/-- The XML entries of an attribute of a level. -/
abbrev writtenOf (values : Dict) (a : AttributeDef) : List Raw :=
  writeAttr print a ((values.lookup a.key).getD .null)

/-- A node that carries XMLData, and besides it nothing that reads as an attribute. -/
structure Carries (attrs : List AttributeDef) (node xml : Dict) : Prop where
  same : ∀ a ∈ attrs, node.lookup a.key = xml.lookup a.key
  other : ∀ kv ∈ node, kv.1 ∈ attrs.map (·.key) ∨ isAttributeList kv.2 = false

variable {print L resolver}

theorem writeAttr_eq (a : AttributeDef) (value : Raw) : writeAttr print a value =
    (entriesOf value).map fun d ↦ .dict (writeEntry print a.spec (writer print a.sub) d) := by
  obtain ⟨spec, sub⟩ := a
  rw [writeAttr]
  rfl

theorem readAttr_eq (a : AttributeDef) (value : Raw) (path : Text) :
    readAttr print L resolver a value path =
      readEntries print L resolver a.spec (reader print L resolver a.sub) path
        (entriesOf value) := by
  obtain ⟨spec, sub⟩ := a
  rw [readAttr]
  rfl

theorem writeAttrs_eq : writeAttrs print attrs values out = attrs.foldl (fun out a ↦
    if (writtenOf print values a).isEmpty then out
    else setItem out a.key (.list (writtenOf print values a))) out := by
  induction attrs generalizing out with
  | nil => rw [writeAttrs]; rfl
  | cons a attrs ih =>
    rw [writeAttrs, List.foldl_cons]
    exact ih

theorem attributesToXmldata_eq (hkeys : (attrs.map (·.key)).Nodup) :
    attributesToXmldata print attrs values =
      attrs.filterMap (level (·.key) (writtenOf print values)) := by
  rw [attributesToXmldata, writeAttrs_eq, foldl_level _ hkeys]

theorem carries_self (hkeys : (attrs.map (·.key)).Nodup) :
    Carries attrs (attributesToXmldata print attrs values)
      (attributesToXmldata print attrs values) := by
  refine ⟨fun _ _ ↦ rfl, fun kv hkv ↦ .inl ?_⟩
  rw [attributesToXmldata_eq hkeys] at hkv
  exact key_mem_level hkv

/-- The `Content` beside the sub attributes of an entry. -/
theorem carries_content (hkeys : (sub.map (·.key)).Nodup)
    (hfree : "Content".toList ∉ sub.map (·.key)) (content : Text) :
    Carries sub (setItem (attributesToXmldata print sub values) "Content".toList (.str content))
      (attributesToXmldata print sub values) := by
  refine ⟨fun a ha ↦ lookup_setItem_of_ne fun heq ↦ ?_, fun kv hkv ↦ ?_⟩
  · exact hfree (heq ▸ List.mem_map.2 ⟨a, ha, rfl⟩)
  · rcases mem_setItem hkv with hkv | rfl
    · exact (carries_self hkeys).other kv hkv
    · exact .inr rfl

theorem readAttrs_eq {entries : AttributeDef → List Raw}
    (h : ∀ a ∈ attrs, readAttr print L resolver a ((node.lookup a.key).getD .null)
      (start ++ a.key) = (entries a, [])) (issues : List AttrIssue) :
    readAttrs print L resolver attrs node start (out, issues) =
      (attrs.foldl (fun out a ↦ if (entries a).isEmpty then out
        else setItem out a.key (.list (entries a))) out, issues) := by
  induction attrs generalizing out with
  | nil => rw [readAttrs]; rfl
  | cons a attrs ih =>
    rw [List.forall_mem_cons] at h
    rw [readAttrs, h.1, List.foldl_cons]
    dsimp only
    rw [List.append_nil]
    exact ih h.2

theorem readUnknown_eq (h : ∀ kv ∈ node, kv.1 ∈ attrs.map (·.key) ∨ isAttributeList kv.2 = false)
    (acc : Dict × List AttrIssue) : readUnknown print attrs node start acc = acc := by
  rw [readUnknown]
  induction node generalizing acc with
  | nil => rfl
  | cons kv node ih =>
    rw [List.forall_mem_cons] at h
    have hskip : kv.1 ∈ attrs.map (·.key) ∨ ¬ isAttributeList kv.2 = true :=
      h.1.imp_right fun hfalse ↦ Bool.eq_false_iff.1 hfalse
    rw [List.foldl_cons]
    dsimp only
    rw [if_pos hskip]
    exact ih h.2 acc

/-- A written entry is read as it was. -/
theorem readEntry_writeEntry {d s : Dict} {v : Raw} (hitem : Item L a d v s)
    (hid : resolver.Identity) (hkind : a.spec.type ≠ .attachment) (hshort : Short a.spec.type v)
    (hkeys : (a.sub.map (·.key)).Nodup) (hfree : "Content".toList ∉ a.sub.map (·.key))
    (hbelow : ∀ node start, Carries a.sub node (attributesToXmldata print a.sub s) →
      toAttributes print L resolver a.sub node start = (s, [])) :
    readEntry print L resolver a.spec (reader print L resolver a.sub) path
      (writeEntry print a.spec (writer print a.sub) d) = (.dict d, []) := by
  have hv : get d "v" = v := get_itemOf_v d hitem.eq
  have hs : get d "s" = if (nestedOf L a.sub).isSome then .dict s else .null :=
    get_itemOf_s d hitem.eq
  have hcontent : ∀ xml : Dict, text print
      (get (setItem xml "Content".toList (.str (toContent print a.spec.type v))) "Content") =
        toContent print a.spec.type v := by
    intro xml
    rw [Cmdb.Values.get, lookup_setItem_self]
    rfl
  have hconvert : convertValue L resolver a.spec.type (toContent print a.spec.type v) path =
      (v, []) := by
    rcases hitem.valued with rfl | ⟨given, hgiven, hcoerce⟩
    · exact convertValue_null
    · exact convertValue_toContent hid hkind hgiven hcoerce hshort
  have hd := hitem.eq
  rw [writeEntry, readEntry, hv, hs]
  cases hempty : a.sub.isEmpty with
  | true =>
    rw [nestedOf, hempty] at hd
    have hwriter : writer print a.sub = none := by rw [writer, hempty]; rfl
    have hreader : reader print L resolver a.sub = none := by rw [reader, hempty]; rfl
    rw [hwriter, hreader, hcontent, hconvert, ← hd]
    rfl
  | false =>
    have hwriter : writer print a.sub = some (attributesToXmldata print a.sub) := by
      rw [writer, hempty]; rfl
    have hreader : reader print L resolver a.sub = some (toAttributes print L resolver a.sub) := by
      rw [reader, hempty]; rfl
    rw [nestedOf, hempty] at hd ⊢
    rw [hwriter, hreader]
    simp only [Bool.false_eq_true, if_false, Option.isSome_some, if_true, writeBelow]
    rw [hcontent, hconvert, hbelow _ _ (carries_content hkeys hfree _), ← hd]
    rfl

/-- The written entries of an attribute are read as they were. -/
theorem readEntries_write {f : Dict → Dict} {below : Option Reader} {ds : List Dict}
    (h : ∀ d ∈ ds, ∀ path, readEntry print L resolver spec below path (f d) = (.dict d, [])) :
    readEntries print L resolver spec below path (ds.map f) = (ds.map .dict, []) := by
  have hall : ∀ k, ((ds.map f).zipIdx k).map (fun p ↦ readEntry print L resolver spec below
      (path ++ '[' :: Nat.toDigits 10 p.2 ++ [']']) p.1) = ds.map fun d ↦ (.dict d, []) := by
    induction ds with
    | nil => exact fun k ↦ rfl
    | cons d ds ih =>
      intro k
      rw [List.forall_mem_cons] at h
      rw [List.map_cons, List.zipIdx_cons, List.map_cons, List.map_cons, ih h.2, h.1]
  rw [readEntries]
  dsimp only
  rw [hall 1, List.map_map, List.flatMap_map]
  exact Prod.ext rfl (List.flatMap_eq_nil_iff.2 fun _ _ ↦ rfl)

/-- What is accepted is read back from a node that carries it. -/
theorem toAttributes_carried (hattrs : DistinctKeys attrs) (hid : resolver.Identity)
    (hkinds : everyAttr isNoAttachment attrs = true)
    (hfree : everyAttr isContentFree attrs = true) (hout : Accepted L attrs out)
    (hshort : ShortAttrs attrs out)
    (hnode : Carries attrs node (attributesToXmldata print attrs out)) :
    toAttributes print L resolver attrs node start = (out, []) := by
  induction hattrs generalizing out node start with
  | @intro attrs hkeys hsub ih =>
    rw [everyAttr_iff] at hkinds hfree
    rw [shortAttrs_iff] at hshort
    obtain ⟨kept, rfl, hitems⟩ := hout.items
    have hsubkeys : ∀ a ∈ attrs, (a.sub.map (·.key)).Nodup := fun a ha ↦ by
      obtain ⟨hnodup, -⟩ := hsub a ha
      exact hnodup
    have hread : ∀ a ∈ attrs, readAttr print L resolver a ((node.lookup a.key).getD .null)
        (start ++ a.key) = ((kept a).map .dict, []) := by
      intro a ha
      have hkept := entriesOf_level (fun a ↦ (kept a).map Raw.dict) hkeys ha
      have hds : entriesOf (.list ((kept a).map .dict)) = kept a :=
        (entriesOf_dicts id (kept a)).trans (List.map_id _)
      rw [hds] at hkept
      rw [readAttr_eq, hnode.same a ha, attributesToXmldata_eq hkeys, entriesOf_level _ hkeys ha,
        writtenOf, writeAttr_eq, hkept, entriesOf_dicts]
      refine readEntries_write fun d hd path ↦ ?_
      obtain ⟨v, s, hitem⟩ := hitems a ha d hd
      have hentry := hshort a ha d (by rwa [hkept])
      rw [get_itemOf_v d hitem.eq, get_itemOf_s d hitem.eq] at hentry
      refine readEntry_writeEntry hitem hid (by simpa [isNoAttachment] using (hkinds a ha).1)
        hentry.1 (hsubkeys a ha) (by simpa [isContentFree] using (hfree a ha).1) fun node start h ↦
          ?_
      refine ih a ha (hkinds a ha).2 (hfree a ha).2 hitem.below ?_ h
      cases hempty : a.sub.isEmpty with
      | true =>
        rw [List.isEmpty_iff.1 hempty, ShortAttrs]
        trivial
      | false =>
        refine hentry.2 s ?_
        rw [nestedOf, hempty]
        rfl
    rw [toAttributes, readAttrs_eq hread, readUnknown_eq hnode.other, foldl_level _ hkeys]

end Written

end Tiqora.Itsm.ZnunyFormat
