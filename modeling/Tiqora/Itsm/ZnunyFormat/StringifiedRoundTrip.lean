import Tiqora.Itsm.ZnunyFormat.Stringified

namespace Tiqora.Itsm.ZnunyFormat

open Foundation Cmdb.Definition Cmdb.Values

/-- A definition without `Customer` inputs whose keys are distinct at each level, are not empty and
do not contain the separator. -/
inductive Keyed : List ZnunyAttribute → Prop
  | intro {definition : List ZnunyAttribute} : (definition.map (·.key)).Nodup →
      (∀ a ∈ definition, a.key ≠ [] ∧ Plain a.key ∧ a.spec.inputType ≠ some "Customer".toList) →
      (∀ a ∈ definition, Keyed a.sub) → Keyed definition

/-- An entry with a text that is true in Perl. -/
def HasContent (d : Dict) : Prop :=
  ∃ content, get d "Content" = .str content ∧ perlTruthy (.str content) = true

section Built

variable (int : Raw → Option ℤ) (p : Dict → Prop)

/-- A level with distinct keys, all of them of the definition. -/
structure Known (definition : List ZnunyAttribute) (x : Dict) : Prop where
  nodup : (x.map Prod.fst).Nodup
  known : ∀ kv ∈ x, kv.1 ∈ definition.map (·.key)

mutual

/-- XMLData of the keys of a definition within the counts. -/
def BuiltAttrs : List ZnunyAttribute → Dict → Prop
  | [], _ => True
  | a :: definition, x => BuiltAttr a (x.lookup a.key) ∧ BuiltAttrs definition x

def BuiltAttr : ZnunyAttribute → Option Raw → Prop
  | .mk spec sub, value => ∀ v ∈ value, ∃ ds : List Dict, v = .list (ds.map .dict) ∧ ds ≠ [] ∧
      ds.length ≤ countMax int spec.countMax ∧ ∀ d ∈ ds,
        p d ∧ Known sub (rest d) ∧ BuiltAttrs sub (rest d)

end

def Built (definition : List ZnunyAttribute) (x : Dict) : Prop :=
  Known definition x ∧ BuiltAttrs int p definition x

end Built

variable {print : Raw → Text} {int : Raw → Option ℤ} {customerLookup : Option (Text → List Text)}
  {definition : List ZnunyAttribute} {a : ZnunyAttribute} {x d : Dict} {start t c : Text}
  {p : Text × Text} {n : ℕ} {ds : List Dict}

/-- An entry of built XMLData. -/
structure BuiltEntry (int : Raw → Option ℤ) (q : Dict → Prop) (sub : List ZnunyAttribute)
    (d : Dict) : Prop where
  content : q d
  below : Built int q sub (rest d)

theorem dicts_inj {xs ys : List Dict}
    (h : some (Raw.list (xs.map .dict)) = some (.list (ys.map .dict))) : xs = ys :=
  List.map_injective_iff.2 (fun _ _ h ↦ Raw.dict.inj h) (Raw.list.inj (Option.some.inj h))

theorem builtAttrs_iff {q : Dict → Prop} : BuiltAttrs int q definition x ↔
    ∀ a ∈ definition, ∀ v ∈ x.lookup a.key, ∃ ds : List Dict, v = .list (ds.map .dict) ∧ ds ≠ [] ∧
      ds.length ≤ countMax int a.spec.countMax ∧ ∀ d ∈ ds, BuiltEntry int q a.sub d := by
  induction definition with
  | nil => exact iff_of_true trivial fun a ha ↦ absurd ha List.not_mem_nil
  | cons a definition ih =>
    obtain ⟨spec, sub⟩ := a
    rw [BuiltAttrs, BuiltAttr, ih, List.forall_mem_cons]
    refine and_congr_left fun _ ↦ forall₂_congr fun v _ ↦ exists_congr fun ds ↦
      and_congr_right fun _ ↦ and_congr_right fun _ ↦ and_congr_right fun _ ↦
        forall₂_congr fun d _ ↦ ?_
    exact ⟨fun h ↦ ⟨h.1, h.2⟩, fun h ↦ ⟨h.content, h.below⟩⟩

/-- Every key of built XMLData has its entries. -/
theorem Built.entries (h : Built int HasContent definition x) {kv : Text × Raw} (hkv : kv ∈ x) :
    ∃ a ∈ definition, ∃ ds : List Dict, kv = (a.key, .list (ds.map .dict)) ∧
      x.lookup a.key = some (.list (ds.map .dict)) ∧ ds ≠ [] ∧
        ds.length ≤ countMax int a.spec.countMax ∧ ∀ d ∈ ds, BuiltEntry int HasContent a.sub d := by
  obtain ⟨a, ha, heq⟩ := List.mem_map.1 (h.1.known kv hkv)
  have hlookup : x.lookup a.key = some kv.2 := by
    rw [heq]
    exact lookup_of_mem h.1.nodup hkv
  obtain ⟨ds, hds, hne, hcount, hentries⟩ := builtAttrs_iff.1 h.2 a ha kv.2 hlookup
  refine ⟨a, ha, ds, Prod.ext heq.symm hds, hds ▸ hlookup, hne, hcount, hentries⟩

section Pairs

/-- The pairs of a level are those of its entries. -/
theorem mem_stringify_built (h : Built int HasContent definition x) : p ∈ stringify print x start ↔
    ∃ a ∈ definition, ∃ ds : List Dict, x.lookup a.key = some (.list (ds.map .dict)) ∧
      ∃ i d, ds[i]? = some d ∧ p ∈ entryPairs print (flatKey (start ++ a.key) (i + 1)) d := by
  rw [mem_stringify]
  have hvalue : ∀ (ds : List Dict) (path : Text),
      p ∈ stringifyValue print (.list (ds.map .dict)) path ↔
      ∃ i d, ds[i]? = some d ∧ p ∈ entryPairs print (flatKey path (i + 1)) d := by
    intro ds path
    rw [stringifyValue, stringifyEntries_dicts, List.mem_flatMap]
    constructor
    · rintro ⟨⟨d, i⟩, hmem, hp⟩
      obtain ⟨hle, hget⟩ := List.mem_zipIdx_iff_le_and_getElem?_sub.1 hmem
      refine ⟨i - 1, d, hget, ?_⟩
      rwa [Nat.sub_add_cancel hle]
    · rintro ⟨i, d, hget, hp⟩
      refine ⟨(d, i + 1), List.mem_zipIdx_iff_le_and_getElem?_sub.2 ⟨Nat.le_add_left _ _, ?_⟩, hp⟩
      exact hget
  constructor
  · rintro ⟨kv, hkv, hp⟩
    obtain ⟨a, ha, ds, rfl, hlookup, -⟩ := h.entries hkv
    exact ⟨a, ha, ds, hlookup, (hvalue ds _).1 hp⟩
  · rintro ⟨a, -, ds, hlookup, hp⟩
    obtain ⟨l₁, l₂, rfl, -⟩ := List.lookup_eq_some_iff.1 hlookup
    exact ⟨(a.key, _), List.mem_append_right l₁ List.mem_cons_self, (hvalue ds _).2 hp⟩

/-- The pairs with the key of one entry or a key below it. -/
theorem mem_stringify_at (hdef : Keyed definition) (h : Built int HasContent definition x) (ha :
    a ∈ definition)
    (ht : Tail t) (hp : p.1 = flatKey (start ++ a.key) (n + 1) ++ t) :
    p ∈ stringify print x start ↔ ∃ ds : List Dict, x.lookup a.key = some (.list (ds.map .dict)) ∧
      ∃ d, ds[n]? = some d ∧ p ∈ entryPairs print (flatKey (start ++ a.key) (n + 1)) d := by
  obtain ⟨hkeys, hplain, -⟩ := hdef
  rw [mem_stringify_built h]
  constructor
  · rintro ⟨b, hb, ds, hlookup, i, d, hget, hmem⟩
    obtain ⟨t', hp', ht', -⟩ := entryPairs_key hmem
    rw [hp, flatKey_append, flatKey_append, List.append_assoc, List.append_assoc,
      List.append_cancel_left_eq] at hp'
    obtain ⟨hkey, hn, -⟩ := flatKey_inj (hplain a ha).2.1 (hplain b hb).2.1 ht ht' hp'
    obtain rfl : a = b := List.inj_on_of_nodup_map hkeys ha hb hkey
    obtain rfl : n = i := Nat.succ.inj hn
    exact ⟨ds, hlookup, d, hget, hmem⟩
  · rintro ⟨ds, hlookup, d, hget, hmem⟩
    exact ⟨a, ha, ds, hlookup, n, d, hget, hmem⟩

/-- The content of an entry, and the pairs below it. -/
theorem mem_entryPairs {key : Text} {content : Text} (hcontent : get d "Content" = .str content)
    (htruthy : perlTruthy (.str content) = true) :
    ((key, c) ∈ entryPairs print key d ↔ c = content) ∧
    ∀ t, ((subStart key ++ t, c) ∈ entryPairs print key d ↔
      (subStart key ++ t, c) ∈ stringify print (rest d) (subStart key)) := by
  have hpair : contentPair print key (get d "Content") = [(key, content)] := by
    rw [hcontent, contentPair, if_pos htruthy]
    rfl
  have hlong : ∀ t, key ≠ subStart key ++ t := by
    intro t heq
    have hlength := congrArg List.length heq
    rw [subStart_append, List.length_append, List.length_cons, List.length_cons] at hlength
    omega
  rw [entryPairs, hpair]
  constructor
  · rw [List.mem_append, List.mem_singleton, Prod.mk.injEq]
    constructor
    · rintro (h | h)
      · exact h.2
      · obtain ⟨t, ht⟩ := stringify_start h
        exact absurd ht (hlong t)
    · intro h
      exact .inl ⟨rfl, h⟩
  · intro t
    rw [List.mem_append, List.mem_singleton, Prod.mk.injEq]
    exact or_iff_right fun h ↦ hlong t h.1.symm

end Pairs

section Same

variable {xs ys : Dict}

theorem sameItems_iff : sameItems xs ys = true ↔ ∀ kv ∈ xs, (ys.lookup kv.1).any (same kv.2) =
    true := by
  induction xs with
  | nil => exact iff_of_true rfl fun kv hkv ↦ absurd hkv List.not_mem_nil
  | cons kv xs ih =>
    obtain ⟨key, x⟩ := kv
    rw [sameItems, Bool.and_eq_true, ih, List.forall_mem_cons]

theorem same_dict_iff : same (.dict xs) (.dict ys) = true ↔
    (∀ kv ∈ xs, (ys.lookup kv.1).any (same kv.2) = true) ∧
      ∀ kv ∈ ys, (xs.lookup kv.1).isSome = true := by
  rw [same, Bool.and_eq_true, sameItems_iff, List.all_eq_true]

/-- A level is the same as a document with the same entries for each key. -/
theorem same_level {α : Type} {key : α → Text} {entries : α → List Raw} {as : List α}
    (hkeys : (as.map key).Nodup) (hys : ∀ kv ∈ ys, kv.1 ∈ as.map key)
    (h : ∀ a ∈ as, entries a = [] ∧ ys.lookup (key a) = none ∨
      entries a ≠ [] ∧ ∃ w, ys.lookup (key a) = some w ∧ same (.list (entries a)) w = true) :
    same (.dict (as.filterMap (level key entries))) (.dict ys) = true := by
  refine same_dict_iff.2 ⟨fun kv hkv ↦ ?_, fun kv hkv ↦ ?_⟩
  · obtain ⟨a, ha, hlevel⟩ := List.mem_filterMap.1 hkv
    rw [level] at hlevel
    split at hlevel
    · cases hlevel
    · next hempty =>
      cases hlevel
      rcases h a ha with ⟨hnil, -⟩ | ⟨-, w, hw, hsame⟩
      · exact absurd (List.isEmpty_iff.2 hnil) hempty
      · rw [hw]
        exact hsame
  · obtain ⟨a, ha, heq⟩ := List.mem_map.1 (hys kv hkv)
    obtain ⟨v, hv⟩ : ∃ v, ys.lookup kv.1 = some v := by
      cases hlookup : ys.lookup kv.1 with
      | some v => exact ⟨v, rfl⟩
      | none =>
        have hne := List.lookup_eq_none_iff.1 hlookup kv hkv
        simp at hne
    rw [← heq] at hv ⊢
    rw [lookup_level entries hkeys ha]
    rcases h a ha with ⟨-, hnone⟩ | ⟨hne, -⟩
    · rw [hnone] at hv
      cases hv
    · rw [if_neg (by rwa [List.isEmpty_iff])]
      rfl

theorem sameList_zipIdx {f : Dict → ℕ → Raw} {k : ℕ}
    (h : ∀ d ∈ ds, ∀ i, k ≤ i → ds[i - k]? = some d → same (f d i) (.dict d) = true) :
    sameList ((ds.zipIdx k).map fun q ↦ f q.1 q.2) (ds.map .dict) = true := by
  induction ds generalizing k with
  | nil => rfl
  | cons d ds ih =>
    rw [List.zipIdx_cons, List.map_cons, List.map_cons, sameList, Bool.and_eq_true]
    refine ⟨h d List.mem_cons_self k le_rfl (by rw [Nat.sub_self]; rfl), ih fun e he i hle hget ↦
      ?_⟩
    refine h e (List.mem_cons_of_mem _ he) i (by omega) ?_
    rw [show i - k = i - (k + 1) + 1 by omega]
    exact hget

theorem lookup_rest {key : Text} (h : key ≠ "Content".toList) : (rest d).lookup key =
    d.lookup key := by
  induction d with
  | nil => rfl
  | cons kv d ih =>
    by_cases heq : kv.1 = "Content".toList
    · rw [rest_cons_of_eq heq, List.lookup_cons, heq, beq_false_of_ne h]
      exact ih
    · rw [rest_cons_of_ne heq, List.lookup_cons, List.lookup_cons, ih]

/-- The content beside the sub attributes. -/
theorem same_content {content : Raw} (hrest : same (.dict xs) (.dict (rest d)) = true)
    (hcontent : d.lookup "Content".toList = some content)
    (hsame : same content content = true) :
    same (.dict (setItem xs "Content".toList content)) (.dict d) = true := by
  obtain ⟨hitems, hkeys⟩ := same_dict_iff.1 hrest
  have hxs : ∀ kv ∈ xs, kv.1 ≠ "Content".toList ∧ (d.lookup kv.1).any (same kv.2) = true := by
    intro kv hkv
    have hfound := hitems kv hkv
    have hne : kv.1 ≠ "Content".toList := by
      intro heq
      obtain ⟨w, hw, -⟩ := Option.any_eq_true _ _ |>.1 hfound
      obtain ⟨l₁, l₂, hl, -⟩ := List.lookup_eq_some_iff.1 hw
      have hmem : (kv.1, w) ∈ rest d := hl ▸ List.mem_append_right l₁ List.mem_cons_self
      exact (mem_rest.1 hmem).2 heq
    rw [lookup_rest hne] at hfound
    exact ⟨hne, hfound⟩
  refine same_dict_iff.2 ⟨fun kv hkv ↦ ?_, fun kv hkv ↦ ?_⟩
  · rcases mem_setItem hkv with hkv | rfl
    · exact (hxs kv hkv).2
    · rw [hcontent]
      exact hsame
  · by_cases heq : kv.1 = "Content".toList
    · rw [heq, lookup_setItem_self]
      rfl
    · rw [lookup_setItem_of_ne heq]
      exact hkeys kv (mem_rest.2 ⟨hkv, heq⟩)

end Same

section Merge

variable {stringified : Dict} {original : List (Text × Text)}

/-- The texts of a map as values. -/
def asDict (s : List (Text × Text)) : Dict := s.map fun p ↦ (p.1, .str p.2)

theorem lookup_asDict (s : List (Text × Text)) (key : Text) :
    (asDict s).lookup key = (s.lookup key).map .str := by
  induction s with
  | nil => rfl
  | cons p s ih =>
    rw [asDict, List.map_cons, List.lookup_cons, List.lookup_cons]
    split
    · rfl
    · exact ih

theorem mergeAttr_eq (hkey : a.key ≠ []) :
    mergeAttr print int customerLookup stringified original a start =
      (List.range' 1 (countMax int a.spec.countMax)).filterMap fun counter ↦
        (itemValue print customerLookup a.spec
          ((stringified.lookup (flatKey (start ++ a.key) counter)).getD .null)
          (oldOf original (flatKey (start ++ a.key) counter)) counter).map fun value ↦
            .dict (setItem (if perlTruthy value then
              mergeAttrs print int customerLookup stringified original a.sub
                (subStart (flatKey (start ++ a.key) counter)) []
              else []) "Content".toList (asText print value)) := by
  obtain ⟨spec, sub⟩ := a
  have hsub : ∀ (value : Raw) (start : Text), (if perlTruthy value = true ∧ ¬ sub.isEmpty =
      true then
      mergeAttrs print int customerLookup stringified original sub start [] else []) =
        if perlTruthy value = true then
          mergeAttrs print int customerLookup stringified original sub start [] else [] := by
    intro value start
    cases sub with
    | nil =>
      rw [mergeAttrs, ite_self, ite_self]
    | cons b sub => simp
  have hspec : ¬ spec.key = [] := hkey
  rw [mergeAttr, if_neg hspec]
  simp only [hsub]
  rfl

theorem mergeAttrs_eq {out : Dict} (hkeys : (definition.map (·.key)).Nodup)
    (hnew : ∀ a ∈ definition, a.key ∉ out.map Prod.fst) :
    mergeAttrs print int customerLookup stringified original definition start out =
      out ++ definition.filterMap (level (·.key) fun a ↦
        mergeAttr print int customerLookup stringified original a start) := by
  induction definition generalizing out with
  | nil => rw [mergeAttrs]; exact (List.append_nil out).symm
  | cons a definition ih =>
    rw [List.map_cons, List.nodup_cons] at hkeys
    rw [List.forall_mem_cons] at hnew
    rw [mergeAttrs, List.filterMap_cons, level, addEntries]
    cases hempty : (mergeAttr print int customerLookup stringified original a start).isEmpty with
    | true => exact ih hkeys.2 hnew.2
    | false =>
      have hnone : out.lookup a.key = none := List.lookup_eq_none_iff.2 fun kv hkv ↦ by
        have hne : a.key ≠ kv.1 := fun heq ↦ hnew.1 (heq ▸ List.mem_map.2 ⟨kv, hkv, rfl⟩)
        simpa using hne
      simp only [Bool.false_eq_true, if_false]
      rw [hnone, setItem_new hnew.1, ih hkeys.2, List.append_assoc]
      · rfl
      · intro b hb hmem
        rw [List.map_append, List.mem_append] at hmem
        rcases hmem with hmem | hmem
        · exact hnew.2 b hb hmem
        · have heq : b.key = a.key := List.mem_singleton.1 hmem
          exact hkeys.1 (heq ▸ List.mem_map.2 ⟨b, hb, rfl⟩)

theorem filterMap_range' {α β : Type} {f : ℕ → Option β} {g : α → ℕ → β} {as : List α} {k m : ℕ}
    (hlength : as.length ≤ m) (hf : ∀ i, f (k + i) = as[i]?.map fun a ↦ g a (k + i)) :
    (List.range' k m).filterMap f = (as.zipIdx k).map fun q ↦ g q.1 q.2 := by
  induction as generalizing k m with
  | nil =>
    refine List.filterMap_eq_nil_iff.2 fun n hn ↦ ?_
    obtain ⟨hle, -⟩ := List.mem_range'_1.1 hn
    have hnone := hf (n - k)
    rwa [Nat.add_sub_cancel' hle] at hnone
  | cons a as ih =>
    cases m with
    | zero => cases hlength
    | succ m =>
      have hfirst : f k = some (g a k) := hf 0
      rw [List.range'_succ, List.filterMap_cons, hfirst, List.zipIdx_cons, List.map_cons]
      refine congrArg (g a k :: ·) (ih (Nat.le_of_succ_le_succ hlength) fun i ↦ ?_)
      have hnext := hf (i + 1)
      rwa [show k + (i + 1) = k + 1 + i by omega] at hnext

theorem itemValue_text {spec : ZnunySpec} {old : Raw} {counter : ℕ}
    (htruthy : perlTruthy (.str c) = true) (hinput : spec.inputType ≠ some "Customer".toList) :
    itemValue print customerLookup spec (.str c) old counter = some (.str c) := by
  have hc : c ≠ [] := fun heq ↦ by
    rw [heq] at htruthy
    cases htruthy
  have hmerged : mergedValue print spec (.str c) old = .str c := by
    rw [mergedValue, if_neg (fun h ↦ hc h.2), if_pos htruthy]
  rw [itemValue, if_neg (fun h ↦ h.1 htruthy), hmerged]
  exact if_neg fun h ↦ hinput h.2.2

/-- The entries of a key in built XMLData. -/
theorem Built.entriesOf (h : Built int HasContent definition x) (ha : a ∈ definition) : ∃ ds :
    List Dict,
    (ds = [] ∧ x.lookup a.key = none ∨ ds ≠ [] ∧ x.lookup a.key = some (.list (ds.map .dict))) ∧
      ds.length ≤ countMax int a.spec.countMax ∧ ∀ d ∈ ds, BuiltEntry int HasContent a.sub d := by
  cases hlookup : x.lookup a.key with
  | none => exact ⟨[], .inl ⟨rfl, rfl⟩, Nat.zero_le _, fun d hd ↦ absurd hd List.not_mem_nil⟩
  | some v =>
    obtain ⟨ds, rfl, hne, hcount, hentries⟩ := builtAttrs_iff.1 h.2 a ha v hlookup
    exact ⟨ds, .inr ⟨hne, rfl⟩, hcount, hentries⟩

/-- The entry that is built from the pairs of an entry. -/
def rebuilt (print : Raw → Text) (int : Raw → Option ℤ) (customerLookup : Option (Text → List Text))
    (s : List (Text × Text)) (a : ZnunyAttribute) (start : Text) (d : Dict) (counter : ℕ) : Raw :=
  .dict (setItem (mergeAttrs print int customerLookup (asDict s) [] a.sub
    (subStart (flatKey (start ++ a.key) counter)) []) "Content".toList (get d "Content"))

/-- What is flattened is built again. -/
theorem merged_built {s : List (Text × Text)} (hdef : Keyed definition)
    (hx : Built int HasContent definition x)
    (hs : ∀ t c, s.lookup (start ++ t) = some c ↔ (start ++ t, c) ∈ stringify print x start) :
    same (.dict (mergeAttrs print int customerLookup (asDict s) [] definition start [])) (.dict x) =
      true := by
  induction hdef generalizing x start with
  | @intro definition hkeys hplain hsub ih =>
    have hdef : Keyed definition := .intro hkeys hplain hsub
    rw [mergeAttrs_eq hkeys fun a _ ↦ List.not_mem_nil, List.nil_append]
    refine same_level hkeys hx.1.known fun a ha ↦ ?_
    obtain ⟨ds, hds, hcount, hentries⟩ := hx.entriesOf ha
    -- the pairs at and below the n-th entry are those of that entry
    have hat : ∀ n t c, Tail t → (s.lookup (flatKey (start ++ a.key) (n + 1) ++ t) = some c ↔
        ∃ d, ds[n]? = some d ∧ (flatKey (start ++ a.key) (n + 1) ++ t, c) ∈
          entryPairs print (flatKey (start ++ a.key) (n + 1)) d) := by
      intro n t c ht
      have hkey : flatKey (start ++ a.key) (n + 1) ++ t =
          start ++ (flatKey a.key (n + 1) ++ t) := by
        rw [flatKey_append, List.append_assoc]
      rw [hkey, hs, ← hkey, mem_stringify_at hdef hx ha ht rfl]
      rcases hds with ⟨rfl, hnone⟩ | ⟨hne, hsome⟩
      · rw [hnone]
        refine iff_of_false ?_ ?_
        · rintro ⟨_, h, -⟩
          cases h
        · rintro ⟨_, h, -⟩
          cases h
      · rw [hsome]
        constructor
        · rintro ⟨ds', h, hd⟩
          rwa [dicts_inj h]
        · intro hd
          exact ⟨ds, rfl, hd⟩
    have hentry : ∀ n d, ds[n]? = some d → BuiltEntry int HasContent a.sub d := fun n d hget ↦
      hentries d (List.mem_of_getElem? hget)
    have hmerged : mergeAttr print int customerLookup (asDict s) [] a start =
        (ds.zipIdx 1).map fun q ↦ rebuilt print int customerLookup s a start q.1 q.2 := by
      rw [mergeAttr_eq (hplain a ha).1]
      refine filterMap_range' hcount fun i ↦ ?_
      rw [Nat.add_comm 1 i, lookup_asDict]
      cases hget : ds[i]? with
      | none =>
        have hnone : s.lookup (flatKey (start ++ a.key) (i + 1)) = none := by
          cases hlookup : s.lookup (flatKey (start ++ a.key) (i + 1)) with
          | none => rfl
          | some c =>
            rw [← List.append_nil (flatKey _ _)] at hlookup
            obtain ⟨d, hd, -⟩ := (hat i [] c (.inl rfl)).1 hlookup
            rw [hget] at hd
            cases hd
        rw [hnone]
        rfl
      | some d =>
        obtain ⟨content, hcontent, htruthy⟩ := (hentry i d hget).content
        have hfound := (hat i [] content (.inl rfl)).2 ⟨d, hget, by
          rw [List.append_nil]
          exact (mem_entryPairs hcontent htruthy).1.2 rfl⟩
        rw [List.append_nil] at hfound
        rw [hfound, Option.map_some, Option.getD_some, itemValue_text htruthy (hplain a ha).2.2,
          Option.map_some, Option.map_some, if_pos htruthy, rebuilt, hcontent]
        rfl
    rw [hmerged]
    rcases hds with ⟨rfl, hnone⟩ | ⟨hne, hsome⟩
    · exact .inl ⟨rfl, hnone⟩
    · refine .inr ⟨?_, _, hsome, ?_⟩
      · intro hnil
        have hlength := congrArg List.length hnil
        rw [List.length_map, List.length_zipIdx] at hlength
        exact hne (List.length_eq_zero_iff.1 hlength)
      · rw [same]
        refine sameList_zipIdx fun d hd i hle hget ↦ ?_
        obtain ⟨content, hcontent, htruthy⟩ := (hentries d hd).content
        have hi : i - 1 + 1 = i := Nat.sub_add_cancel hle
        have hagree : ∀ t c, s.lookup (subStart (flatKey (start ++ a.key) i) ++ t) = some c ↔
            (subStart (flatKey (start ++ a.key) i) ++ t, c) ∈
              stringify print (rest d) (subStart (flatKey (start ++ a.key) i)) := by
          intro t c
          have hpair := hat (i - 1) (':' :: ':' :: t) c (.inr ⟨t, rfl⟩)
          rw [hi, ← subStart_append] at hpair
          rw [hpair, ← (mem_entryPairs hcontent htruthy).2 t]
          constructor
          · rintro ⟨e, he, hmem⟩
            rw [hget] at he
            cases he
            exact hmem
          · intro hmem
            exact ⟨d, hget, hmem⟩
        have hbelow := ih a ha (hentries d hd).below hagree
        have hlookup : d.lookup "Content".toList = some (.str content) := by
          rw [Cmdb.Values.get] at hcontent
          cases hd : d.lookup "Content".toList with
          | none =>
            rw [hd] at hcontent
            cases hcontent
          | some w =>
            rw [hd] at hcontent
            rw [← hcontent]
            rfl
        rw [rebuilt, hcontent]
        exact same_content hbelow hlookup (decide_eq_true rfl)

end Merge

end Tiqora.Itsm.ZnunyFormat
