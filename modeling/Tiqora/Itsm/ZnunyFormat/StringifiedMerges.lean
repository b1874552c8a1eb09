import Tiqora.Itsm.ZnunyFormat.StringifiedRoundTrip

namespace Tiqora.Itsm.ZnunyFormat

open Foundation Cmdb.Definition Cmdb.Values

/-- The content of an item: what is absent keeps the original content, an empty text removes it, a
value that is true in Perl replaces it, and another one that is false keeps it. -/
def cell (stringified : Dict) (original : List (Text × Text)) (key : Text) (counter : ℕ) :
    Option Raw :=
  let kept := (original.lookup key).map Raw.str
  match (stringified.lookup key).getD .null with
  | .null => kept
  | .str [] => kept.map fun _ ↦ .str []
  | .list items => items[counter - 1]?.filter perlTruthy
  | new => if perlTruthy new then some new else kept

section Arrange

variable (print : Raw → Text) (int : Raw → Option ℤ) (cells : Text → ℕ → Option Raw)

mutual

/-- The items of a definition that have a content, below items with a content that is true. -/
def arrange : List ZnunyAttribute → Text → Dict
  | [], _ => []
  | a :: definition, start =>
    let entries := arrangeAttr a start
    if entries.isEmpty then arrange definition start
    else (a.key, .list entries) :: arrange definition start

def arrangeAttr : ZnunyAttribute → Text → List Raw
  | .mk spec sub, start => (List.range' 1 (countMax int spec.countMax)).filterMap fun counter ↦
      let key := flatKey (start ++ spec.key) counter
      (cells key counter).map fun value ↦
        .dict (setItem (if perlTruthy value then arrange sub (subStart key) else [])
          "Content".toList (asText print value))

end

end Arrange

variable {print : Raw → Text} {int : Raw → Option ℤ} {customerLookup : Option (Text → List Text)}
  {definition : List ZnunyAttribute} {a : ZnunyAttribute} {x d stringified : Dict}
  {start key c c' : Text} {original : List (Text × Text)}

section Flattened

/-- No key is flattened twice. -/
theorem stringify_functional (hdef : Keyed definition) (hx : Built int HasContent definition x)
    (h : (key, c) ∈ stringify print x start) (h' : (key, c') ∈ stringify print x start) : c =
      c' := by
  induction hdef generalizing x start with
  | @intro definition hkeys hplain hsub ih =>
    obtain ⟨a, ha, ds, hlookup, i, d, hget, hmem⟩ := (mem_stringify_built hx).1 h
    obtain ⟨t, ht, htail, hcase⟩ := entryPairs_key hmem
    obtain ⟨ds', hlookup', d', hget', hmem'⟩ :=
      (mem_stringify_at (p := (key, c')) (.intro hkeys hplain hsub) hx ha htail ht).1 h'
    rw [hlookup] at hlookup'
    obtain rfl := dicts_inj hlookup'
    rw [hget] at hget'
    cases hget'
    have hentry : BuiltEntry int HasContent a.sub d := by
      obtain ⟨ds'', heq, -, -, hentries⟩ := builtAttrs_iff.1 hx.2 a ha _ hlookup
      obtain rfl := dicts_inj (congrArg some heq)
      exact hentries d (List.mem_of_getElem? hget)
    obtain ⟨content, hcontent, htruthy⟩ := hentry.content
    rcases hcase with ⟨rfl, -⟩ | ⟨r, rfl, hbelow⟩
    · rw [List.append_nil] at ht
      obtain rfl : key = _ := ht
      have hc := (mem_entryPairs hcontent htruthy).1.1 hmem
      have hc' := (mem_entryPairs hcontent htruthy).1.1 hmem'
      exact hc.trans hc'.symm
    · obtain rfl : key = _ := ht
      rw [← subStart_append] at hmem'
      have hbelow' := ((mem_entryPairs hcontent htruthy).2 r).1 hmem'
      rw [subStart_append] at hbelow'
      exact ih a ha hentry.below hbelow hbelow'

/-- The keys and contents of the flattened map. -/
theorem lookup_stringified (hdef : Keyed definition) (hx : Built int HasContent definition x)
    (h : xmldataToStringified print x = .ok original) :
    original.lookup key = some c ↔ (key, c) ∈ stringify print x [] := by
  obtain ⟨-, -, h⟩ := bind_eq_ok.1 h
  cases h
  rw [lookup_foldl_setItem fun k v w hv hw ↦ stringify_functional hdef hx hv hw]
  exact or_iff_left fun h ↦ by cases h.2

theorem xmldataToStringified_ok :
    (∃ s, xmldataToStringified print x = .ok s) ↔
      1 + levelsOf x ≤ maxXmlDepth ∧ leavesOf x ≤ maxXmlLeaves := by
  rw [← guardXmlData_iff]
  constructor
  · rintro ⟨s, hs⟩
    obtain ⟨_, hguard, -⟩ := bind_eq_ok.1 hs
    exact hguard
  · intro hguard
    exact ⟨_, bind_eq_ok.2 ⟨_, hguard, rfl⟩⟩

end Flattened

section Merged

theorem truthy_of_contentPair {content : Raw} {path : Text} (h :
    (key, c) ∈ contentPair print path content) :
    perlTruthy content = true ∧ c = text print content := by
  rw [contentPair] at h
  split at h
  · next htruthy =>
    cases List.mem_singleton.1 h
    exact ⟨htruthy, rfl⟩
  · cases h

/-- Contents of built XMLData are true in Perl. -/
theorem truthy_of_original (hdef : Keyed definition) (hx : Built int HasContent definition x)
    (h : xmldataToStringified print x = .ok original) (hc : original.lookup key = some c) :
    perlTruthy (.str c) = true := by
  have hmem := (lookup_stringified hdef hx h).1 hc
  have hall : ∀ (definition : List ZnunyAttribute) (hdef : Keyed definition) (x : Dict)
      (start : Text), Built int HasContent definition x → (key, c) ∈ stringify print x start →
        perlTruthy (.str c) = true := by
    clear hdef hx h hc hmem
    intro definition hdef
    induction hdef with
    | @intro definition hkeys _ _ ih =>
      intro x start hx hmem
      obtain ⟨a, ha, ds, hlookup, i, d, hget, hmem⟩ := (mem_stringify_built hx).1 hmem
      obtain ⟨ds', heq, -, -, hentries⟩ := builtAttrs_iff.1 hx.2 a ha _ hlookup
      obtain rfl := dicts_inj (congrArg some heq)
      have hd : d ∈ ds := List.mem_of_getElem? hget
      obtain ⟨content, hcontent, htruthy⟩ := (hentries d hd).content
      rcases List.mem_append.1 hmem with hmem | hmem
      · rw [hcontent] at hmem
        rw [(truthy_of_contentPair hmem).2]
        exact htruthy
      · exact ih a ha (rest d) _ (hentries d hd).below hmem
  exact hall definition hdef x [] hx hmem

/-- The value of an entry is the content of its item. -/
theorem itemValue_cell {spec : ZnunySpec} {counter : ℕ}
    (hinput : spec.inputType ≠ some "Customer".toList)
    (horiginal : ∀ c, original.lookup key = some c → perlTruthy (.str c) = true)
    (hnew : ∀ new, stringified.lookup key = some new → text print new = [] →
      new = .null ∨ new = .str []) :
    itemValue print customerLookup spec ((stringified.lookup key).getD .null)
      (oldOf original key) counter = cell stringified original key counter := by
  have hfinal : ∀ value : Raw, (∀ items, value ≠ .list items) →
      finalValue print customerLookup spec (oldOf original key) counter value = some value := by
    intro value hvalue
    have hplain : ¬ (isScalar value = true ∧ text print value ≠ [] ∧
        spec.inputType = some "Customer".toList) := fun h ↦ hinput h.2.2
    cases value with
    | list items => exact absurd rfl (hvalue items)
    | _ => simp only [finalValue, if_neg hplain]
  have hold : ∀ new, ¬ perlTruthy new = true → (text print new = [] → new = .null) →
      itemValue print customerLookup spec new (oldOf original key) counter =
        (original.lookup key).map .str := by
    intro new hfalse htext
    have hnull : ¬ (¬ new.isNull = true ∧ text print new = []) := fun h ↦ by
      rw [htext h.2] at h
      exact h.1 rfl
    rw [itemValue, mergedValue, if_neg hnull, if_neg hfalse]
    cases hc : original.lookup key with
    | none =>
      have hnone : oldOf original key = .null := by rw [oldOf, hc]; rfl
      rw [hnone]
      exact if_pos ⟨hfalse, Bool.false_ne_true⟩
    | some c =>
      have htruthy := horiginal c hc
      have hsome : oldOf original key = .str c := by rw [oldOf, hc]; rfl
      rw [hsome] at hfinal ⊢
      rw [if_neg (fun h ↦ h.2 htruthy), if_pos htruthy]
      exact hfinal _ fun items h ↦ by cases h
  have hfresh : ∀ new, perlTruthy new = true → text print new ≠ [] →
      (∀ items, new ≠ .list items) →
        itemValue print customerLookup spec new (oldOf original key) counter = some new := by
    intro new htruthy htext hlist
    rw [itemValue, mergedValue, if_neg (fun h ↦ h.1 htruthy), if_neg (fun h ↦ htext h.2),
      if_pos htruthy, hfinal new hlist]
  have hblank : ∀ new, (stringified.lookup key).getD .null = new → text print new = [] →
      new = .null ∨ new = .str [] := by
    intro new h htext
    cases hlookup : stringified.lookup key with
    | none =>
      rw [hlookup] at h
      exact .inl h.symm
    | some v =>
      rw [hlookup] at h
      exact hnew new (hlookup.trans (congrArg some h)) htext
  have hother : ∀ new, (stringified.lookup key).getD .null = new → (∀ items, new ≠ .list items) →
      new ≠ .str [] → itemValue print customerLookup spec new (oldOf original key) counter =
        if perlTruthy new then some new else (original.lookup key).map .str := by
    intro new h hlist hempty
    split
    · next htruthy =>
      refine hfresh new htruthy (fun htext ↦ ?_) hlist
      rcases hblank new h htext with rfl | rfl <;> cases htruthy
    · next hfalse =>
      exact hold new hfalse fun htext ↦ (hblank new h htext).resolve_right hempty
  rw [cell]
  cases hvalue : (stringified.lookup key).getD .null with
  | null => exact hold .null Bool.false_ne_true fun _ ↦ rfl
  | list items =>
    have htext : text print (.list items) ≠ [] := fun h ↦ by
      rcases hblank _ hvalue h with h | h <;> cases h
    have htruthy : perlTruthy (.list items) = true := rfl
    rw [itemValue, mergedValue, if_neg (fun h ↦ h.1 htruthy), if_neg (fun h ↦ htext h.2),
      if_pos htruthy]
    rfl
  | str s =>
    cases s with
    | nil =>
      have hempty : ¬ (Raw.str []).isNull = true ∧ text print (.str []) = [] :=
        ⟨Bool.false_ne_true, rfl⟩
      rw [itemValue, mergedValue, if_pos hempty]
      cases hc : original.lookup key with
      | none =>
        have hnone : oldOf original key = .null := by rw [oldOf, hc]; rfl
        rw [hnone]
        rfl
      | some c =>
        have hsome : oldOf original key = .str c := by rw [oldOf, hc]; rfl
        rw [hsome] at hfinal ⊢
        rw [if_neg fun h ↦ h.2 (horiginal c hc)]
        exact hfinal _ fun items h ↦ by cases h
    | cons c s => exact hother _ hvalue (fun items h ↦ by cases h) fun h ↦ by cases h
  | _ => exact hother _ hvalue (fun items h ↦ by cases h) fun h ↦ by cases h

theorem arrangeAttr_eq {cells : Text → ℕ → Option Raw} : arrangeAttr print int cells a start =
    (List.range' 1 (countMax int a.spec.countMax)).filterMap fun counter ↦
      (cells (flatKey (start ++ a.key) counter) counter).map fun value ↦
        .dict (setItem (if perlTruthy value then
          arrange print int cells a.sub (subStart (flatKey (start ++ a.key) counter)) else [])
            "Content".toList (asText print value)) := by
  obtain ⟨spec, sub⟩ := a
  rw [arrangeAttr]
  rfl

theorem arrange_eq {cells : Text → ℕ → Option Raw} : arrange print int cells definition start =
    definition.filterMap (level (·.key) fun a ↦ arrangeAttr print int cells a start) := by
  induction definition with
  | nil => rw [arrange]; rfl
  | cons a definition ih =>
    rw [arrange, ih, List.filterMap_cons, level]
    split <;> rfl

/-- The merged entries are the items that have a content. -/
theorem mergeAttrs_arrange {cells : Text → ℕ → Option Raw} (hdef : Keyed definition)
    (hcells : ∀ (spec : ZnunySpec) key counter, spec.inputType ≠ some "Customer".toList →
      itemValue print customerLookup spec ((stringified.lookup key).getD .null)
        (oldOf original key) counter = cells key counter) :
    mergeAttrs print int customerLookup stringified original definition start [] =
      arrange print int cells definition start := by
  induction hdef generalizing start with
  | @intro definition hkeys hplain _ ih =>
    rw [mergeAttrs_eq hkeys fun a _ ↦ List.not_mem_nil, List.nil_append, arrange_eq]
    refine List.filterMap_congr fun a ha ↦ ?_
    have hentries : mergeAttr print int customerLookup stringified original a start =
        arrangeAttr print int cells a start := by
      rw [mergeAttr_eq (hplain a ha).1, arrangeAttr_eq]
      refine List.filterMap_congr fun counter _ ↦ ?_
      rw [hcells _ _ _ (hplain a ha).2.2, ih a ha]
    rw [level, level, hentries]

end Merged

section Within

theorem rest_setItem {content : Raw} : rest (setItem d "Content".toList content) = rest d := by
  induction d with
  | nil => rfl
  | cons kv d ih =>
    rw [setItem]
    split
    · next heq =>
      rw [rest_cons_of_eq rfl, rest_cons_of_eq heq]
    · next hne =>
      rw [rest_cons_of_ne hne, rest_cons_of_ne hne, ih]

theorem keys_level {α : Type} {keyOf : α → Text} {entries : α → List Raw} {as : List α} :
    ((as.filterMap (level keyOf entries)).map Prod.fst).Sublist (as.map keyOf) := by
  induction as with
  | nil => exact .slnil
  | cons a as ih =>
    rw [List.filterMap_cons, level]
    split
    · exact ih.cons _
    · next h =>
      split at h
      · cases h
      · cases h
        exact ih.cons_cons _

variable {q : Dict → Prop}

theorem built_rest (h : Built int q definition x) : Built int q definition (rest x) := by
  have hsub : (rest x).Sublist x := List.filter_sublist
  refine ⟨⟨(hsub.map Prod.fst).nodup h.1.nodup, fun kv hkv ↦ h.1.known kv (hsub.mem hkv)⟩, ?_⟩
  refine builtAttrs_iff.2 fun a ha v hv ↦ builtAttrs_iff.1 h.2 a ha v ?_
  have hne : a.key ≠ "Content".toList := by
    intro heq
    obtain ⟨l₁, l₂, hl, -⟩ := List.lookup_eq_some_iff.1 hv
    have hmem : (a.key, v) ∈ rest x := hl ▸ List.mem_append_right l₁ List.mem_cons_self
    exact (mem_rest.1 hmem).2 heq
  rwa [lookup_rest hne] at hv

theorem built_nil : Built int q definition [] :=
  ⟨⟨.nil, fun _ h ↦ absurd h List.not_mem_nil⟩, builtAttrs_iff.2 fun a _ v h ↦ by cases h⟩

/-- Nothing outside the definition is produced. -/
theorem built_merged (hdef : Keyed definition) : Built int (fun _ ↦ True) definition
    (mergeAttrs print int customerLookup stringified original definition start []) := by
  induction hdef generalizing start with
  | @intro definition hkeys hplain _ ih =>
    rw [mergeAttrs_eq hkeys fun a _ ↦ List.not_mem_nil, List.nil_append]
    refine ⟨⟨keys_level.nodup hkeys, fun kv hkv ↦ key_mem_level hkv⟩,
      builtAttrs_iff.2 fun a ha v hv ↦ ?_⟩
    rw [lookup_level _ hkeys ha] at hv
    split at hv
    · cases hv
    · next hne =>
      cases hv
      rw [List.isEmpty_iff] at hne
      rw [mergeAttr_eq (hplain a ha).1] at hne ⊢
      refine ⟨(List.range' 1 (countMax int a.spec.countMax)).filterMap fun counter ↦
        (itemValue print customerLookup a.spec
          ((stringified.lookup (flatKey (start ++ a.key) counter)).getD .null)
          (oldOf original (flatKey (start ++ a.key) counter)) counter).map fun value ↦
            setItem (if perlTruthy value then
              mergeAttrs print int customerLookup stringified original a.sub
                (subStart (flatKey (start ++ a.key) counter)) []
              else []) "Content".toList (asText print value), ?_, ?_, ?_, ?_⟩
      · rw [List.map_filterMap]
        simp only [Option.map_map]
        rfl
      · intro hnil
        refine hne (List.filterMap_eq_nil_iff.2 fun counter hcounter ↦ ?_)
        have hnone := List.filterMap_eq_nil_iff.1 hnil counter hcounter
        rw [Option.map_eq_none_iff] at hnone ⊢
        exact hnone
      · refine (List.length_filterMap_le _ _).trans ?_
        rw [List.length_range']
      · intro d hd
        obtain ⟨counter, -, hitem⟩ := List.mem_filterMap.1 hd
        obtain ⟨value, -, rfl⟩ := Option.map_eq_some_iff.1 hitem
        refine ⟨trivial, ?_⟩
        rw [rest_setItem]
        split
        · exact built_rest (ih a ha)
        · exact built_nil

end Within

section Main

/-- Only the empty text prints as nothing. -/
def Printed (print : Raw → Text) (stringified : Dict) : Prop :=
  ∀ key new, stringified.lookup key = some new → text print new = [] → new = .null ∨ new = .str []

/-- What is expected of a map that is flattened from XMLData: it is built again, its contents are
merged with other ones item by item, and nothing outside the definition is produced. -/
structure Merges (print : Raw → Text) (int : Raw → Option ℤ)
    (customerLookup : Option (Text → List Text)) (definition : List ZnunyAttribute) (x : Dict) :
    Prop where
  roundTrip : if 1 + levelsOf x ≤ maxXmlDepth ∧ leavesOf x ≤ maxXmlLeaves then
      ∃ s, xmldataToStringified print x = .ok s ∧ same (.dict (stringifiedToXmldata print int
        customerLookup (asDict s) [] definition)) (.dict x) = true
    else ∃ e, xmldataToStringified print x = .error e
  merged : ∀ original, xmldataToStringified print x = .ok original →
    ∀ stringified, Printed print stringified →
      stringifiedToXmldata print int customerLookup stringified original definition =
        arrange print int (cell stringified original) definition []
  within : ∀ stringified original, Built int (fun _ ↦ True) definition
    (stringifiedToXmldata print int customerLookup stringified original definition)

/-- For a definition with keys that the separator can be told from,
  XMLData of its keys with Perl-true
contents is built again, and merged with other values item by item. -/
theorem stringified_merges (hdef : Keyed definition) (hx : Built int HasContent definition x) :
    Merges print int customerLookup definition x := by
  refine ⟨?_, fun original h stringified hprinted ↦ ?_, fun _ _ ↦ built_merged hdef⟩
  · split
    · next hsmall =>
      have hok : (∃ s, xmldataToStringified print x = .ok s) ↔ _ := xmldataToStringified_ok
      obtain ⟨s, hs⟩ := hok.2 hsmall
      exact ⟨s, hs, merged_built hdef hx fun t c ↦ lookup_stringified hdef hx hs⟩
    · next hlarge =>
      cases hs : xmldataToStringified print x with
      | ok s => exact absurd (xmldataToStringified_ok.1 ⟨s, hs⟩) hlarge
      | error e => exact ⟨e, rfl⟩
  · exact mergeAttrs_arrange hdef fun spec key counter hinput ↦
      itemValue_cell hinput (fun c hc ↦ truthy_of_original hdef hx h hc) fun new ↦ hprinted key new

end Main

section Sample

/-- Python's `int` of an integer. -/
def readRawInt : Raw → Option ℤ
  | .int n => some n
  | _ => none

/-- An attribute with up to two entries. -/
def vendorSpec : ZnunySpec := ⟨"Vendor".toList, .int 2, .null, some "Text".toList⟩

def vendor : List ZnunyAttribute := [.mk vendorSpec []]

def oldVendor : Dict := [("Vendor".toList, .list [.dict [("Content".toList, .str "Old".toList)]])]

theorem keyed_vendor : Keyed vendor := by
  refine .intro (List.nodup_singleton _) (List.forall_mem_singleton.2 ⟨?_, ?_, ?_⟩)
    (List.forall_mem_singleton.2 (.intro .nil (fun a ha ↦ absurd ha List.not_mem_nil)
      fun a ha ↦ absurd ha List.not_mem_nil))
  · decide
  · unfold Plain
    decide
  · decide

theorem built_oldVendor : Built readRawInt HasContent vendor oldVendor := by
  refine ⟨⟨List.nodup_singleton _, List.forall_mem_singleton.2 (List.mem_singleton.2 rfl)⟩,
    builtAttrs_iff.2 (List.forall_mem_singleton.2 fun v hv ↦ ?_)⟩
  cases hv
  exact ⟨[[("Content".toList, .str "Old".toList)]], rfl, List.cons_ne_nil _ _, by decide,
    List.forall_mem_singleton.2 ⟨⟨"Old".toList, rfl, rfl⟩, built_nil⟩⟩

theorem stringified_merges_sample :
    Merges (fun _ ↦ []) readRawInt none vendor oldVendor :=
  stringified_merges keyed_vendor built_oldVendor

/-- A `0` does not replace what there is. -/
theorem zero_keeps_original : Keyed vendor ∧ Built readRawInt HasContent vendor oldVendor ∧
    ∃ original, xmldataToStringified (fun _ ↦ []) oldVendor = .ok original ∧
      stringifiedToXmldata (fun _ ↦ []) readRawInt none [("Vendor::1".toList, .str ['0'])] original
        vendor = oldVendor := by
  refine ⟨keyed_vendor, built_oldVendor, [("Vendor::1".toList, "Old".toList)], ?_, rfl⟩
  have hflat : stringify (fun _ ↦ []) oldVendor [] = [("Vendor::1".toList, "Old".toList)] := by
    have hnil : stringify (fun _ ↦ []) (rest []) "Vendor::1::".toList = [] := by
      rw [stringify, inOrder]
      exact congrArg (List.flatMap Prod.snd) (List.mergeSort_nil)
    have hentry : entryPairs (fun _ ↦ []) "Vendor::1".toList [("Content".toList,
        .str "Old".toList)] =
        [("Vendor::1".toList, "Old".toList)] := by
      rw [entryPairs, rest_cons_of_eq rfl]
      exact congrArg (("Vendor::1".toList, "Old".toList) :: ·) hnil
    rw [stringify, stringifyItems_eq, inOrder, oldVendor, List.map_singleton,
      List.mergeSort_singleton]
    change stringifyEntries _ ([[("Content".toList, .str "Old".toList)]].map .dict) _ 1 ++ [] = _
    rw [stringifyEntries_dicts, List.append_nil]
    exact (List.append_nil _).trans hentry
  rw [xmldataToStringified, hflat]
  rfl

end Sample

end Tiqora.Itsm.ZnunyFormat
