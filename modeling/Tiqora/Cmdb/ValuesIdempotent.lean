import Tiqora.Cmdb.ValuesAgain

namespace Tiqora.Cmdb.Values

open Foundation Definition

section Settled

variable (L : Lib)

mutual

/-- Every value that a level reads is settled. -/
def Settles : List AttributeDef → Dict → Prop
  | [], _ => True
  | a :: attrs, raw => SettlesAttr a ((raw.lookup a.key).getD .null) ∧ Settles attrs raw

def SettlesAttr : AttributeDef → Raw → Prop
  | .mk spec sub, value => ∀ d ∈ entriesOf value, SettledEntry L spec (Settles sub) d

end

mutual

/-- A level has its own keys only, and no list is longer than it may be. -/
def ShapedAttrs : List AttributeDef → Dict → Prop
  | [], _ => True
  | a :: attrs, out => ShapedAttr a ((out.lookup a.key).getD .null) ∧ ShapedAttrs attrs out

def ShapedAttr : AttributeDef → Raw → Prop
  | .mk spec sub, value =>
    (∀ entries, value = .list entries → (entries.length : ℤ) ≤ spec.countMax) ∧
      ∀ d ∈ entriesOf value, ∀ s, get d "s" = .dict s →
        (∀ kv ∈ s, kv.1 ∈ sub.map (·.key)) ∧ ShapedAttrs sub s

end

def Shaped (attrs : List AttributeDef) (out : Dict) : Prop :=
  (∀ kv ∈ out, kv.1 ∈ attrs.map (·.key)) ∧ ShapedAttrs attrs out

end Settled

variable {L : Lib} {attrs : List AttributeDef} {raw out : Dict} {start : Text}
  {issues : List ValueIssue}

theorem settles_iff : Settles L attrs raw ↔
    ∀ a ∈ attrs, SettlesAttr L a ((raw.lookup a.key).getD .null) := by
  induction attrs with
  | nil => exact iff_of_true trivial fun a ha ↦ absurd ha List.not_mem_nil
  | cons a attrs ih => rw [Settles, ih, List.forall_mem_cons]

theorem shapedAttrs_iff : ShapedAttrs attrs out ↔
    ∀ a ∈ attrs, ShapedAttr a ((out.lookup a.key).getD .null) := by
  induction attrs with
  | nil => exact iff_of_true trivial fun a ha ↦ absurd ha List.not_mem_nil
  | cons a attrs ih => rw [ShapedAttrs, ih, List.forall_mem_cons]

/-- What is below an attribute, as a normalisation. -/
def nestedOf (L : Lib) (sub : List AttributeDef) : Option Nested :=
  if sub.isEmpty then none else some (normalizeLevel L sub)

theorem normalizeAttr_eq (a : AttributeDef) (value : Raw) (path : Text) :
    normalizeAttr L a value path = normalizeValue L a.spec (nestedOf L a.sub) path value := by
  obtain ⟨spec, sub⟩ := a
  rw [normalizeAttr]
  rfl

/-- What one attribute of a level becomes. -/
abbrev keptOf (L : Lib) (raw : Dict) (start : Text) (a : AttributeDef) : List Raw × List ValueIssue :=
  normalizeAttr L a ((raw.lookup a.key).getD .null) (start ++ a.key)

theorem normalizeAttrs_eq : normalizeAttrs L attrs raw start =
    (attrs.filterMap fun a ↦ if (keptOf L raw start a).1.isEmpty then none
      else some (a.key, .list (keptOf L raw start a).1),
      attrs.flatMap fun a ↦ (keptOf L raw start a).2) := by
  induction attrs with
  | nil => rw [normalizeAttrs]; rfl
  | cons a attrs ih =>
    rw [normalizeAttrs, ih, List.filterMap_cons, List.flatMap_cons]
    dsimp only
    split <;> rfl

theorem normalizeLevel_nil : normalizeLevel L attrs raw start = (out, []) ↔
    (normalizeAttrs L attrs raw start).1 = out ∧ (∀ a ∈ attrs, (keptOf L raw start a).2 = []) ∧
      unknownKeys attrs raw start = [] := by
  change ((normalizeAttrs L attrs raw start).1, (normalizeAttrs L attrs raw start).2 ++
    unknownKeys attrs raw start) = (out, []) ↔ _
  rw [Prod.mk.injEq, List.append_eq_nil_iff]
  refine and_congr_right fun _ ↦ and_congr_left fun _ ↦ ?_
  rw [normalizeAttrs_eq, List.flatMap_eq_nil_iff]

theorem key_mem_of_out {kv : Text × Raw} (h : kv ∈ (normalizeAttrs L attrs raw start).1) :
    kv.1 ∈ attrs.map (·.key) := by
  rw [normalizeAttrs_eq, List.mem_filterMap] at h
  obtain ⟨a, ha, h⟩ := h
  split at h
  · cases h
  · cases h
    exact List.mem_map.2 ⟨a, ha, rfl⟩

theorem unknownKeys_eq_nil (h : ∀ kv ∈ raw, kv.1 ∈ attrs.map (·.key)) :
    unknownKeys attrs raw start = [] := by
  rw [unknownKeys, List.map_eq_nil_iff, List.filter_eq_nil_iff]
  intro kv hkv
  simp [h kv hkv]

section Level

variable {α : Type} {key : α → Text} {as : List α} {a : α}

/-- The entries of an attribute under its key, if there are some. -/
def level (key : α → Text) (entries : α → List Raw) (a : α) : Option (Text × Raw) :=
  if (entries a).isEmpty then none else some (key a, .list (entries a))

theorem key_mem_level {entries : α → List Raw} {kv : Text × Raw}
    (h : kv ∈ as.filterMap (level key entries)) : kv.1 ∈ as.map key := by
  obtain ⟨a, ha, h⟩ := List.mem_filterMap.1 h
  rw [level] at h
  split at h
  · cases h
  · cases h
    exact List.mem_map.2 ⟨a, ha, rfl⟩

/-- What is found of an attribute in a level. -/
theorem lookup_level (entries : α → List Raw) (hkeys : (as.map key).Nodup) (ha : a ∈ as) :
    (as.filterMap (level key entries)).lookup (key a) =
      if (entries a).isEmpty then none else some (.list (entries a)) := by
  induction as with
  | nil => cases ha
  | cons b as ih =>
    rw [List.map_cons, List.nodup_cons] at hkeys
    rw [List.filterMap_cons, level]
    rcases List.mem_cons.1 ha with rfl | ha
    · cases hempty : (entries a).isEmpty with
      | true =>
        simp only [if_true]
        rw [List.lookup_eq_none_iff]
        intro kv hkv
        have hne : key a ≠ kv.1 := fun heq ↦ hkeys.1 (heq ▸ key_mem_level hkv)
        simpa using hne
      | false =>
        simp only [Bool.false_eq_true, if_false, List.lookup_cons_self]
    · have hne : key a ≠ key b := fun heq ↦ hkeys.1 (heq ▸ List.mem_map.2 ⟨a, ha, rfl⟩)
      have hrest := ih hkeys.2 ha
      cases hempty : (entries b).isEmpty with
      | true =>
        simp only [if_true]
        exact hrest
      | false =>
        simp only [Bool.false_eq_true, if_false]
        have hbeq : (key a == key b) = false := beq_false_of_ne hne
        rw [List.lookup_cons, hbeq]
        exact hrest

end Level

/-- What is found of an attribute in the result of its level. -/
theorem lookup_out (hkeys : (attrs.map (·.key)).Nodup) {a : AttributeDef} (ha : a ∈ attrs) :
    (normalizeAttrs L attrs raw start).1.lookup a.key =
      if (keptOf L raw start a).1.isEmpty then none else some (.list (keptOf L raw start a).1) := by
  rw [normalizeAttrs_eq]
  exact lookup_level (fun a : AttributeDef ↦ (keptOf L raw start a).1) hkeys ha

/-- A level that is normalised again reads what it kept. -/
theorem keptOf_out (hkeys : (attrs.map (·.key)).Nodup) {a : AttributeDef} (ha : a ∈ attrs)
    (start' : Text) : keptOf L (normalizeAttrs L attrs raw start).1 start' a =
      normalizeAttr L a (.list (keptOf L raw start a).1) (start' ++ a.key) := by
  rw [keptOf, lookup_out hkeys ha]
  split
  · next hempty =>
    rw [List.isEmpty_iff.1 hempty, normalizeAttr_eq, normalizeAttr_eq]
    rfl
  · rfl

/-- What a level becomes without an issue. -/
structure Again (L : Lib) (attrs : List AttributeDef) : Prop where
  again : ∀ raw start out, normalizeLevel L attrs raw start = (out, []) → ∀ start',
    normalizeLevel L attrs out start' = (out, []) ↔ Settles L attrs raw
  shaped : ∀ raw start out, normalizeLevel L attrs raw start = (out, []) → Shaped attrs out
  quiet : ∀ raw start issues, normalizeLevel L attrs raw start = ([], issues) → Quiet issues →
    Settles L attrs raw

theorem shaped_nil : Shaped attrs [] := by
  refine ⟨fun kv hkv ↦ absurd hkv List.not_mem_nil, shapedAttrs_iff.2 fun a _ ↦ ?_⟩
  obtain ⟨spec, sub⟩ := a
  rw [ShapedAttr]
  exact ⟨fun entries h ↦ (by cases h), fun d hd ↦ absurd hd List.not_mem_nil⟩

theorem settles_nil : Settles L attrs [] :=
  settles_iff.2 fun a _ ↦ by
    obtain ⟨spec, sub⟩ := a
    rw [SettlesAttr]
    exact fun d hd ↦ absurd hd List.not_mem_nil

theorem Again.below (h : Again L attrs) : Below (nestedOf L attrs) (Settles L attrs) := by
  rw [nestedOf]
  split
  · next hempty =>
    refine ⟨fun n hn ↦ (by cases hn), fun n hn ↦ (by cases hn), settles_nil, fun _ raw ↦ ?_⟩
    rw [List.isEmpty_iff.1 hempty, Settles]
    trivial
  · refine ⟨fun n hn ↦ ?_, fun n hn ↦ ?_, settles_nil, fun hnone ↦ by cases hnone⟩
    · cases hn
      exact h.again
    · cases hn
      exact h.quiet

/-- A level becomes itself again if and only if all of it was settled. -/
theorem again_of_distinct (h : DistinctKeys attrs) : Again L attrs := by
  induction h with
  | @intro attrs hkeys _ ih =>
    have hbelow : ∀ a ∈ attrs, Below (nestedOf L a.sub) (Settles L a.sub) := fun a ha ↦ (ih a ha).below
    have hsettles : ∀ (a : AttributeDef) value, SettlesAttr L a value ↔
        ∀ d ∈ entriesOf value, SettledEntry L a.spec (Settles L a.sub) d := by
      rintro ⟨spec, sub⟩ value
      rw [SettlesAttr]
      exact Iff.rfl
    refine ⟨fun raw start out hrun start' ↦ ?_, fun raw start out hrun ↦ ?_,
      fun raw start issues hrun hquiet ↦ ?_⟩
    · obtain ⟨rfl, hissues, -⟩ := normalizeLevel_nil.1 hrun
      have hagain : ∀ a ∈ attrs, (normalizeAttr L a (.list (keptOf L raw start a).1) (start' ++ a.key) =
          ((keptOf L raw start a).1, []) ↔ SettlesAttr L a ((raw.lookup a.key).getD .null)) := by
        intro a ha
        have hfirst : normalizeValue L a.spec (nestedOf L a.sub) (start ++ a.key)
            ((raw.lookup a.key).getD .null) = ((keptOf L raw start a).1, []) := by
          rw [← normalizeAttr_eq, ← hissues a ha]
        rw [normalizeAttr_eq, hsettles]
        exact (normalizeValue_again (hbelow a ha) hfirst).2 _
      rw [settles_iff, normalizeLevel_nil]
      constructor
      · rintro ⟨hout, hissues', -⟩ a ha
        refine (hagain a ha).1 ?_
        rw [← keptOf_out hkeys ha start']
        have hsame : (keptOf L (normalizeAttrs L attrs raw start).1 start' a).1 =
            (keptOf L raw start a).1 := by
          have hlookup := congrArg (fun out : Dict ↦ out.lookup a.key) hout
          rw [lookup_out hkeys ha, lookup_out hkeys ha] at hlookup
          split at hlookup
          · next hempty =>
            split at hlookup
            · next hempty' => rw [List.isEmpty_iff.1 hempty, List.isEmpty_iff.1 hempty']
            · cases hlookup
          · split at hlookup
            · cases hlookup
            · exact Raw.list.inj (Option.some.inj hlookup)
        rw [← hissues' a ha, ← hsame]
      · intro hsettled
        have hrun' : ∀ a ∈ attrs, keptOf L (normalizeAttrs L attrs raw start).1 start' a =
            ((keptOf L raw start a).1, []) := by
          intro a ha
          rw [keptOf_out hkeys ha]
          exact (hagain a ha).2 (hsettled a ha)
        refine ⟨?_, fun a ha ↦ by rw [hrun' a ha], unknownKeys_eq_nil fun kv hkv ↦ key_mem_of_out hkv⟩
        rw [normalizeAttrs_eq, normalizeAttrs_eq]
        exact List.filterMap_congr fun a ha ↦ by rw [← normalizeAttrs_eq, hrun' a ha]
    · obtain ⟨rfl, hissues, -⟩ := normalizeLevel_nil.1 hrun
      refine ⟨fun kv hkv ↦ key_mem_of_out hkv, shapedAttrs_iff.2 fun a ha ↦ ?_⟩
      have hfirst : normalizeValue L a.spec (nestedOf L a.sub) (start ++ a.key)
          ((raw.lookup a.key).getD .null) = ((keptOf L raw start a).1, []) := by
        rw [← normalizeAttr_eq, ← hissues a ha]
      have hcount := (normalizeValue_again (hbelow a ha) hfirst).1
      have hsub := normalizeValue_sub hfirst
      have hspec : ∀ value, ShapedAttr a value ↔
          (∀ entries, value = .list entries → (entries.length : ℤ) ≤ a.spec.countMax) ∧
            ∀ d ∈ entriesOf value, ∀ s, get d "s" = .dict s → Shaped a.sub s := by
        intro value
        obtain ⟨spec, sub⟩ := a
        rw [ShapedAttr]
        exact Iff.rfl
      rw [lookup_out hkeys ha, hspec]
      split
      · exact ⟨fun entries h ↦ (by cases h), fun d hd ↦ absurd hd List.not_mem_nil⟩
      · refine ⟨fun entries h ↦ ?_, fun d hd s hs ↦ ?_⟩
        · cases h
          exact hcount
        · rcases hsub d (mem_entriesOf.1 hd) s hs with rfl | ⟨n, hn, raw', start', hn'⟩
          · exact shaped_nil
          · rw [nestedOf] at hn
            split at hn
            · cases hn
            · cases hn
              exact (ih a ha).shaped _ _ _ hn'
    · have hout : (normalizeAttrs L attrs raw start).1 = [] := congrArg Prod.fst hrun
      have hissues : (normalizeAttrs L attrs raw start).2 ++ unknownKeys attrs raw start = issues :=
        congrArg Prod.snd hrun
      rw [← hissues, quiet_append, normalizeAttrs_eq] at hquiet
      rw [normalizeAttrs_eq] at hout
      refine settles_iff.2 fun a ha ↦ (hsettles a _).2 ?_
      have hkept : (keptOf L raw start a).1 = [] := by
        have hnone := List.filterMap_eq_nil_iff.1 hout a ha
        split at hnone
        · next hempty => exact List.isEmpty_iff.1 hempty
        · cases hnone
      have hfirst : normalizeValue L a.spec (nestedOf L a.sub) (start ++ a.key)
          ((raw.lookup a.key).getD .null) = ([], (keptOf L raw start a).2) := by
        rw [← normalizeAttr_eq, ← hkept]
      exact normalizeValue_quiet (hbelow a ha) hfirst fun i hi ↦
        hquiet.1 i (List.mem_flatMap.2 ⟨a, ha, hi⟩)

/-- What is expected of accepted values: they are kept when they are normalised again, and they
have the keys of the definition and lists within its counts. -/
structure Normal (L : Lib) (attrs : List AttributeDef) (raw : Dict) : Prop where
  again : normalizeValues L attrs (normalizeValues L attrs raw).1 =
    ((normalizeValues L attrs raw).1, [])
  shaped : Shaped attrs (normalizeValues L attrs raw).1

/-- Accepted values are kept if and only if decimals are below 10^28, MAC and IP addresses fit the
limit in their canonical form, and moments read the same in the zone. -/
theorem normal_iff (L : Lib) {catalogClasses classKeys : List Text} {attrs : List AttributeDef}
    {raw : Dict} (hattrs : validateDefinition catalogClasses classKeys attrs = [])
    (hraw : (normalizeValues L attrs raw).2 = []) : Normal L attrs raw ↔ Settles L attrs raw := by
  have hagain : Again L attrs := again_of_distinct (validateDefinition_distinct hattrs)
  have hrun : normalizeLevel L attrs raw [] = ((normalizeValues L attrs raw).1, []) := by
    rw [← hraw]
    rfl
  constructor
  · intro h
    exact (hagain.again _ _ _ hrun []).1 h.again
  · intro h
    exact ⟨(hagain.again _ _ _ hrun []).2 h, hagain.shaped _ _ _ hrun⟩

section Sample

open Calendar Civil

/-- What `isoformat` prints, read back. -/
def readIso (s : Text) : Option Datetime :=
  let num (start length : ℕ) := readDigits ((s.drop start).take length)
  let month := 12 * (num 0 4 - 1) + (num 5 2 - 1)
  let seconds := num 11 2 * 3600 + num 14 2 * 60 + num 17 2
  Datetime.of? (ofMonthDay month (num 8 2) * dayMicros + seconds * 1000000)

theorem readIso_isoformat {dt : Datetime} (h : dt.1 % 1000000 = 0) :
    readIso (isoformat dt) = some dt := by
  obtain ⟨y, e, a, r, m, o, d, t, h', i, n, u, s, c, hdigits⟩ := exists_digits dt
  rw [isoformat_digits hdigits, readIso]
  simp only [List.drop_succ_cons, List.drop_zero, List.take_succ_cons, List.take_zero]
  simp only [← hdigits.year, ← hdigits.month, ← hdigits.day, ← hdigits.hour, ← hdigits.minute,
    ← hdigits.second, readDigits_zfill]
  exact of?_fields h

/-- A library without addresses, whose zone is UTC. -/
def plainLib : Lib where
  urlparse _ := none
  address _ := none
  interface _ := none
  fromisoformat s := (readIso s).map fun dt ↦ (dt, none)
  utcoffset _ := 0
  address_text := fun _ _ h ↦ by cases h
  interface_text := fun _ _ h ↦ by cases h
  fromisoformat_isoformat dt h := by rw [readIso_isoformat h]; rfl

def plainOptions : AttributeOptions := ⟨none, none, none, none, none, []⟩

def cost : AttributeSpec where
  key := "Cost".toList
  name := "Cost".toList
  type := .decimal
  required := false
  searchable := false
  countMin := 0
  countMax := 1
  countDefault := 1
  default := none
  help := none
  options := plainOptions

def oneValue (value : String) : Dict :=
  [("Cost".toList, .list [.dict [("v".toList, .str value.toList)]])]

theorem normal_iff_sample : Normal plainLib [.mk cost []] (oneValue "1.50") := by
  have hattrs : validateDefinition [] [] [.mk cost []] = [] := by decide +kernel
  have hraw : (normalizeValues plainLib [.mk cost []] (oneValue "1.50")).2 = [] := by decide +kernel
  refine (normal_iff plainLib hattrs hraw).2 (settles_iff.2 fun a ha ↦ ?_)
  obtain rfl := List.mem_singleton.1 ha
  rw [SettlesAttr]
  intro d hd
  have hvalue : d = [("v".toList, .str "1.50".toList)] := List.mem_singleton.1 hd
  subst hvalue
  refine ⟨fun _ n hn ↦ .inr ?_, fun s hs ↦ by cases hs⟩
  have hread : toDecimal (.str "1.50".toList) = .ok ⟨false, 150, -2⟩ := by decide +kernel
  rw [show get [("v".toList, .str "1.50".toList)] "v" = .str "1.50".toList from rfl, hread] at hn
  cases hn
  decide

/-- A number of 31 digits is accepted and refused when it is saved again. -/
theorem large_number_refused :
    validateDefinition [] [] [.mk cost []] = [] ∧
      (normalizeValues plainLib [.mk cost []] (oneValue "1e30")).2 = [] ∧
        ¬ Normal plainLib [.mk cost []] (oneValue "1e30") := by
  refine ⟨by decide +kernel, by decide +kernel, fun h ↦ ?_⟩
  have hissues : (normalizeValues plainLib [.mk cost []]
      (normalizeValues plainLib [.mk cost []] (oneValue "1e30")).1).2 ≠ [] := by decide +kernel
  exact hissues (congrArg Prod.snd h.again)

end Sample

end Tiqora.Cmdb.Values
