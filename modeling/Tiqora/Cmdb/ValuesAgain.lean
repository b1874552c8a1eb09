import Tiqora.Cmdb.ValuesCoerce

namespace Tiqora.Cmdb.Values

open Foundation Definition

/-- An issue that an entry which is not there cannot have. -/
def ValueIssue.IsCount (i : ValueIssue) : Prop := i.code = "required" ∨ i.code = "too_few"

/-- Issues about entries that are not there and nothing else. -/
def Quiet (issues : List ValueIssue) : Prop := ∀ i ∈ issues, i.IsCount

def Raw.dict? : Raw → Option Dict
  | .dict items => some items
  | _ => none

/-- The entries of an attribute. -/
def entriesOf : Raw → List Dict
  | .list entries => entries.filterMap Raw.dict?
  | _ => []

/-- A value is settled, and so is what is below it. -/
def SettledEntry (L : Lib) (spec : AttributeSpec) (S : Dict → Prop) (d : Dict) : Prop :=
  (isPresent spec (get d "v") = true → SettledValue L spec (get d "v")) ∧
    ∀ s, get d "s" = .dict s → S s

/-- What is known of the attributes below an entry. -/
structure Below (nested : Option Nested) (S : Dict → Prop) : Prop where
  again : ∀ n ∈ nested, ∀ raw start out, n raw start = (out, []) →
    ∀ start', n out start' = (out, []) ↔ S raw
  quiet : ∀ n ∈ nested, ∀ raw start issues, n raw start = ([], issues) → Quiet issues → S raw
  empty : S []
  leaf : nested = none → ∀ raw, S raw

section Codes

/-- An operation whose errors are not about entries that are not there. -/
def Loud {α : Type} (x : Except Bad α) : Prop :=
  ∀ bad, x = .error bad → bad.code ≠ "required" ∧ bad.code ≠ "too_few"

variable {α β : Type} {x : Except Bad α} {f : α → Except Bad β} {L : Lib} {spec : AttributeSpec}
  {v : Raw}

theorem loud_ok (a : α) : Loud (.ok a : Except Bad α) := fun _ h ↦ by cases h

theorem loud_error {bad : Bad} (h : bad.code ≠ "required" ∧ bad.code ≠ "too_few") :
    Loud (.error bad : Except Bad α) := fun _ hbad ↦ by
  cases hbad
  exact h

theorem loud_require {c : Prop} [Decidable c] {bad : Bad}
    (h : bad.code ≠ "required" ∧ bad.code ≠ "too_few") : Loud (require c bad) := by
  rw [require]
  split
  · exact loud_ok _
  · exact loud_error h

theorem Loud.bind (hx : Loud x) (hf : ∀ a, Loud (f a)) : Loud (x >>= f) := by
  intro bad h
  rcases bind_eq_error h with h | ⟨a, -, h⟩
  · exact hx bad h
  · exact hf a bad h

theorem loud_toInt : Loud (toInt v) := by
  refine Loud.bind ?_ fun n ↦ (loud_require (by decide)).bind fun _ ↦ loud_ok n
  rw [readInt.eq_def]
  split
  · exact loud_ok _
  · split
    · exact loud_ok _
    · exact loud_error (by decide)
  · dsimp only
    split
    · exact (loud_require (by decide)).bind fun _ ↦ loud_ok _
    · exact loud_error (by decide)
  · exact loud_error (by decide)

theorem loud_toDecimal : Loud (toDecimal v) := by
  have helim : ∀ d : Option Decimal, Loud (d.elim (.error notNumber) .ok) := by
    intro d
    cases d with
    | none => exact loud_error (by decide)
    | some d => exact loud_ok d
  refine Loud.bind ?_ fun d ↦ (loud_require (by decide)).bind fun _ ↦ loud_ok d
  rw [readDecimal.eq_def]
  split
  · split
    · exact loud_ok _
    · exact loud_error (by decide)
  · exact helim _
  · exact helim _
  · exact loud_error (by decide)

theorem loud_toMoment : Loud (toMoment L v) := by
  have hutc : ∀ dt offset, Loud (toUtc dt offset) := by
    intro dt offset
    rw [toUtc]
    split
    · exact loud_ok _
    · exact loud_error (by decide)
  rw [toMoment.eq_def]
  split
  · split
    · exact loud_error (by decide)
    · exact (loud_require (by decide)).bind fun _ ↦ hutc _ _
    · exact hutc _ _
  · exact loud_error (by decide)

theorem loud_coerceText : Loud (coerceText L spec v) := by
  rw [coerceText.eq_def]
  split
  · have hlong : "too_long" ≠ "required" ∧ "too_long" ≠ "too_few" := by decide
    refine (loud_require (by decide)).bind fun _ ↦ (loud_require hlong).bind fun _ ↦ ?_
    split
    · exact (loud_require (by decide)).bind fun _ ↦ loud_ok _
    · exact (loud_require (by decide)).bind fun _ ↦ loud_ok _
    · split
      · exact loud_ok _
      · exact loud_error (by decide)
    · exact (loud_require (by decide)).bind fun _ ↦ loud_ok _
    · exact loud_ok _
  · exact loud_error (by decide)

theorem loud_coerceDate : Loud (coerceDate v) := by
  rw [coerceDate.eq_def]
  split
  · exact (loud_require (by decide)).bind fun _ ↦ (loud_require (by decide)).bind fun _ ↦ loud_ok _
  · exact loud_error (by decide)

theorem loud_coerce : Loud (coerce L spec v) := by
  have hrange : ∀ d, Loud (checkRange spec d) := fun d ↦ loud_require (by decide)
  have hint : Loud (do let n ← toInt v; return Raw.int n) := loud_toInt.bind fun n ↦ loud_ok _
  rw [coerce.eq_def]
  cases spec.type with
  | text | textarea | url | email | ip | mac | customerUser | customerCompany =>
    exact loud_coerceText
  | integer => exact loud_toInt.bind fun n ↦ (hrange _).bind fun _ ↦ loud_ok _
  | decimal | money => exact loud_toDecimal.bind fun d ↦ (hrange d).bind fun _ ↦ loud_ok _
  | date => exact loud_coerceDate
  | datetime => exact loud_toMoment.bind fun _ ↦ loud_ok _
  | group => exact loud_error (by decide)
  | catalog | ciRef | agent | service | sla | queue | priority | ticketType | state | attachment =>
    exact hint

end Codes

section Entries

variable {L : Lib} {spec : AttributeSpec} {nested : Option Nested} {S : Dict → Prop} {v s value : Raw}
  {sub d : Dict} {path path' : Text} {issues : List ValueIssue}

theorem isNull_of_isEmpty (h : v.isEmpty = false) : v.isNull = false := by
  cases v with
  | null => cases h
  | _ => rfl

/-- What the value of an entry becomes. -/
theorem entryValue_spec (h : entryValue L spec path v = (some value, issues)) : issues = [] ∧
    (value.isNull = true → isPresent spec v = false) ∧
    ∀ path', (entryValue L spec path' value = (some value, []) ↔
      (isPresent spec v = true → SettledValue L spec v)) := by
  rw [entryValue] at h
  cases hpresent : isPresent spec v with
  | false =>
    rw [hpresent] at h
    cases h
    refine ⟨rfl, fun _ ↦ rfl, fun path' ↦ iff_of_true ?_ fun hv ↦ by cases hv⟩
    have hnull : isPresent spec .null = false := by
      rw [isPresent]
      exact Bool.and_false _
    rw [entryValue, hnull]
    rfl
  | true =>
    rw [hpresent] at h
    rw [isPresent, Bool.and_eq_true] at hpresent
    have hv : v.isEmpty = false := by simpa using hpresent.2
    cases hcoerce : coerce L spec v with
    | error bad =>
      rw [hcoerce] at h
      cases h
    | ok r =>
      rw [hcoerce] at h
      cases h
      have hstored := stored_coerce hv hcoerce
      refine ⟨rfl, fun hnull ↦ ?_, fun path' ↦ ?_⟩
      · rw [isNull_of_isEmpty hstored.present] at hnull
        cases hnull
      · have hagain : isPresent spec value = true := by
          rw [isPresent, hpresent.1, hstored.present]
          rfl
        have hiff := hstored.again
        rw [entryValue, hagain]
        simp only [if_true, forall_const]
        rw [← hiff]
        constructor
        · intro h
          cases hcoerce' : coerce L spec value with
          | error bad =>
            rw [hcoerce'] at h
            cases h
          | ok r' =>
            rw [hcoerce'] at h
            cases h
            rfl
        · intro h
          rw [h]

/-- A bad value is not silent. -/
theorem entryValue_none (h : entryValue L spec path v = (none, issues)) : ¬ Quiet issues := by
  rw [entryValue] at h
  split at h
  · cases hcoerce : coerce L spec v with
    | ok r =>
      rw [hcoerce] at h
      cases h
    | error bad =>
      rw [hcoerce] at h
      cases h
      intro hquiet
      have hcodes := loud_coerce bad hcoerce
      rcases hquiet _ List.mem_cons_self with hcode | hcode
      · exact hcodes.1 hcode
      · exact hcodes.2 hcode
  · cases h

theorem entrySub_none (h : entrySub none path s = (sub, issues)) : sub = [] := by
  cases s <;> cases h <;> rfl

/-- What the attributes below an entry become. -/
theorem entrySub_again (hbelow : Below nested S) (h : entrySub nested path s = (sub, [])) :
    ∀ path', (entrySub nested path' (if nested.isSome then .dict sub else .null) = (sub, []) ↔
      ∀ items, s = .dict items → S items) := by
  intro path'
  cases hnested : nested with
  | none =>
    rw [hnested] at h
    obtain rfl := entrySub_none h
    exact iff_of_true rfl fun items _ ↦ hbelow.leaf hnested items
  | some n =>
    rw [hnested] at h
    simp only [Option.isSome_some, if_true]
    have hquiet : Quiet [] := fun i hi ↦ absurd hi List.not_mem_nil
    have hempty : sub = [] → ∀ items, s = .dict items → S items := by
      rintro rfl items rfl
      rw [entrySub] at h
      split at h
      · next hitems =>
        rw [List.isEmpty_iff.1 hitems]
        exact hbelow.empty
      · exact hbelow.quiet n hnested _ _ _ h hquiet
    by_cases hsub : sub = []
    · refine iff_of_true ?_ (hempty hsub)
      rw [hsub]
      rfl
    · have hrun : entrySub (some n) path' (.dict sub) = n sub (path' ++ ['.']) := by
        rw [entrySub, if_neg (by simpa using hsub)]
      rw [hrun]
      cases s with
      | dict items =>
        rw [entrySub] at h
        split at h
        · exact absurd (congrArg Prod.fst h).symm hsub
        · rw [hbelow.again n hnested _ _ _ h]
          exact ⟨fun hs items' heq ↦ by cases heq; exact hs, fun hall ↦ hall items rfl⟩
      | null => exact absurd (congrArg Prod.fst h).symm hsub
      | _ => cases h

/-- Nothing to be settled is below an entry without issues that tell more. -/
theorem entrySub_quiet (hbelow : Below nested S) (h : entrySub nested path s = ([], issues))
    (hquiet : Quiet issues) : ∀ items, s = .dict items → S items := by
  rintro items rfl
  cases hnested : nested with
  | none => exact hbelow.leaf hnested items
  | some n =>
    rw [hnested, entrySub] at h
    split at h
    · next hitems =>
      rw [List.isEmpty_iff.1 hitems]
      exact hbelow.empty
    · exact hbelow.quiet n hnested _ _ _ h hquiet

theorem quiet_append {l l' : List ValueIssue} : Quiet (l ++ l') ↔ Quiet l ∧ Quiet l' :=
  List.forall_mem_append

theorem quiet_nil : Quiet [] := fun _ hi ↦ absurd hi List.not_mem_nil

theorem get_itemOf_v : ∀ items, itemOf nested value sub = .dict items → get items "v" = value := by
  intro items h
  cases h
  rfl

theorem get_itemOf_s : ∀ items, itemOf nested value sub = .dict items →
    get items "s" = if nested.isSome then .dict sub else .null := by
  intro items h
  cases h
  cases nested <;> rfl

theorem itemOf_inj {value' : Raw} {sub' : Dict}
    (h : itemOf nested value sub = itemOf nested value' sub') (hsub : nested = none → sub = sub') :
    value = value' ∧ sub = sub' := by
  cases hnested : nested with
  | none =>
    rw [hnested] at h
    cases h
    exact ⟨rfl, hsub hnested⟩
  | some n =>
    rw [hnested] at h
    cases h
    exact ⟨rfl, rfl⟩

variable {entry : Raw} {unusable : Bool}

/-- What becomes of an entry, by its value and what is below it. -/
theorem normalizeEntry_dict : normalizeEntry L spec nested path (.dict d) =
    match (entryValue L spec path (get d "v")).1 with
    | none => ⟨none, true, (entryValue L spec path (get d "v")).2 ++
        (entrySub nested path (get d "s")).2⟩
    | some value =>
      if value.isNull && (entrySub nested path (get d "s")).1.isEmpty then
        let found := ((entryValue L spec path (get d "v")).2 ++
          (entrySub nested path (get d "s")).2).filter fun i ↦
            i.code ≠ "required" ∧ i.code ≠ "too_few"
        if spec.required then ⟨none, true, found ++ [⟨path, "required", "Pflichtfeld."⟩]⟩
        else ⟨none, false, found⟩
      else ⟨some (itemOf nested value (entrySub nested path (get d "s")).1), false,
        (entryValue L spec path (get d "v")).2 ++ (entrySub nested path (get d "s")).2⟩ := rfl

/-- An entry that is kept without an issue is kept again when it was settled. -/
theorem normalizeEntry_kept (hbelow : Below nested S)
    (h : normalizeEntry L spec nested path entry = ⟨some value, unusable, []⟩) :
    unusable = false ∧ ∃ d, entry = .dict d ∧ ∀ path',
      (normalizeEntry L spec nested path' value = ⟨some value, false, []⟩ ↔
        SettledEntry L spec S d) := by
  cases entry with
  | dict d =>
    rw [normalizeEntry_dict] at h
    rcases hv : entryValue L spec path (get d "v") with ⟨v, bad⟩
    rcases hs : entrySub nested path (get d "s") with ⟨sub, issues⟩
    rw [hv, hs] at h
    cases v with
    | none => cases h
    | some v =>
      dsimp only at h
      split at h
      · split at h <;> cases h
      · next hkept =>
        injection h with hitem hunusable hissues
        obtain rfl := Option.some.inj hitem
        obtain ⟨rfl, rfl⟩ := List.append_eq_nil_iff.1 hissues
        obtain ⟨-, -, hvalue⟩ := entryValue_spec hv
        have hsub := entrySub_again hbelow hs
        refine ⟨hunusable.symm, d, rfl, fun path' ↦ ?_⟩
        rw [SettledEntry, ← hvalue path', ← hsub path']
        obtain ⟨items, hitems⟩ : ∃ items, itemOf nested v sub = .dict items := ⟨_, rfl⟩
        rw [hitems, normalizeEntry_dict, get_itemOf_v items hitems, get_itemOf_s items hitems,
          ← hitems]
        constructor
        · intro hagain
          rcases hv' : entryValue L spec path' v with ⟨v', bad'⟩
          rcases hs' : entrySub nested path' (if nested.isSome then .dict sub else .null) with
            ⟨sub', issues'⟩
          rw [hv', hs'] at hagain
          cases v' with
          | none => cases hagain
          | some v' =>
            dsimp only at hagain
            split at hagain
            · split at hagain <;> cases hagain
            · injection hagain with hitem' _ hissues'
              obtain ⟨rfl, rfl⟩ := List.append_eq_nil_iff.1 hissues'
              have hleaf : nested = none → sub' = sub := by
                rintro rfl
                rw [entrySub_none hs', entrySub_none hs]
              obtain ⟨rfl, rfl⟩ := itemOf_inj (Option.some.inj hitem') hleaf
              exact ⟨rfl, rfl⟩
        · rintro ⟨hv', hs'⟩
          rw [hv', hs']
          dsimp only
          rw [if_neg hkept]
          rfl
  | _ => cases h

/-- An entry that is left out without telling more has nothing to be settled. -/
theorem normalizeEntry_dropped (hbelow : Below nested S)
    (h : normalizeEntry L spec nested path (.dict d) = ⟨none, unusable, issues⟩)
    (hquiet : Quiet issues) : SettledEntry L spec S d := by
  rw [normalizeEntry_dict] at h
  rcases hv : entryValue L spec path (get d "v") with ⟨v, bad⟩
  rcases hs : entrySub nested path (get d "s") with ⟨sub, found⟩
  rw [hv, hs] at h
  cases v with
  | none =>
    injection h with _ _ hissues
    rw [← hissues, quiet_append] at hquiet
    exact absurd hquiet.1 (entryValue_none hv)
  | some v =>
    dsimp only at h
    obtain ⟨rfl, hnull, -⟩ := entryValue_spec hv
    split at h
    · next hempty =>
      rw [Bool.and_eq_true] at hempty
      obtain rfl := List.isEmpty_iff.1 hempty.2
      have hfound : Quiet found := by
        have hfilter : Quiet (([] ++ found).filter fun i ↦
            i.code ≠ "required" ∧ i.code ≠ "too_few") := by
          split at h
          · injection h with _ _ hissues
            rw [← hissues, quiet_append] at hquiet
            exact hquiet.1
          · injection h with _ _ hissues
            rwa [← hissues] at hquiet
        intro i hi
        by_contra hloud
        have hcodes : i.code ≠ "required" ∧ i.code ≠ "too_few" := not_or.1 hloud
        exact hloud (hfilter i (List.mem_filter.2 ⟨hi, decide_eq_true hcodes⟩))
      refine ⟨fun hpresent ↦ ?_, entrySub_quiet hbelow hs hfound⟩
      rw [hnull hempty.1] at hpresent
      cases hpresent
    · cases h

/-- The entry at some place of a list. -/
abbrev entryAt (L : Lib) (spec : AttributeSpec) (nested : Option Nested) (path : Text)
    (p : Raw × ℕ) : Entry :=
  normalizeEntry L spec nested (path ++ '[' :: Nat.toDigits 10 p.2 ++ [']']) p.1

theorem normalizeEntries_eq (entries : List Raw) : normalizeEntries L spec nested path entries =
    (entries.zipIdx 1).map (entryAt L spec nested path) := rfl

/-- A list that a partial function keeps is kept element by element. -/
theorem filterMap_zipIdx_self {f : Raw × ℕ → Option Raw} {l : List Raw} {k : ℕ}
    (h : (l.zipIdx k).filterMap f = l) : ∀ p ∈ l.zipIdx k, f p = some p.1 := by
  induction l generalizing k with
  | nil => exact fun p hp ↦ absurd hp List.not_mem_nil
  | cons x l ih =>
    rw [List.zipIdx_cons] at h ⊢
    rw [List.filterMap_cons] at h
    have hlength := List.length_filterMap_le f (l.zipIdx (k + 1))
    rw [List.length_zipIdx] at hlength
    cases hx : f (x, k) with
    | none =>
      rw [hx] at h
      dsimp only at h
      rw [h, List.length_cons] at hlength
      exact absurd hlength (Nat.not_succ_le_self _)
    | some y =>
      rw [hx] at h
      obtain ⟨rfl, hrest⟩ := List.cons.inj h
      exact List.forall_mem_cons.2 ⟨hx, ih hrest⟩

theorem filterMap_zipIdx_eq {f : Raw × ℕ → Option Raw} {l : List Raw} {k : ℕ}
    (h : ∀ p ∈ l.zipIdx k, f p = some p.1) : (l.zipIdx k).filterMap f = l := by
  rw [List.filterMap_congr h]
  exact (congrFun (List.filterMap_eq_map (f := Prod.fst)) _).trans (List.zipIdx_map_fst k l)

variable {entries kept : List Raw}

/-- A list of entries that are kept without an issue. -/
theorem normalizeValue_list : normalizeValue L spec nested path (.list entries) = (kept, []) ↔
    (normalizeEntries L spec nested path entries).filterMap (·.item) = kept ∧
    (∀ e ∈ normalizeEntries L spec nested path entries, e.issues = []) ∧
    countIssues spec path (kept.length +
      (normalizeEntries L spec nested path entries).countP (·.unusable)) = [] := by
  change ((normalizeEntries L spec nested path entries).filterMap (·.item), _) = (kept, []) ↔ _
  rw [Prod.mk.injEq, List.append_eq_nil_iff, List.flatMap_eq_nil_iff]
  constructor
  · rintro ⟨rfl, hissues, hcount⟩
    exact ⟨rfl, hissues, hcount⟩
  · rintro ⟨rfl, hissues, hcount⟩
    exact ⟨rfl, hissues, hcount⟩

theorem mem_entriesOf : d ∈ entriesOf (.list entries) ↔ .dict d ∈ entries := by
  rw [entriesOf, List.mem_filterMap]
  constructor
  · rintro ⟨x, hx, hd⟩
    cases x with
    | dict items =>
      cases hd
      exact hx
    | _ => cases hd
  · intro h
    exact ⟨_, h, rfl⟩

theorem countIssues_congr {count : ℕ} (h : countIssues spec path count = []) (path' : Text) :
    countIssues spec path' count = [] ∧ (count : ℤ) ≤ spec.countMax := by
  rw [countIssues, List.append_eq_nil_iff] at h
  have hmax : ¬ spec.countMax < (count : ℤ) := fun hlt ↦ by
    rw [if_pos hlt] at h
    cases h.1
  have hmin : ¬ (count : ℤ) < spec.countMin := fun hlt ↦ by
    rw [if_pos hlt] at h
    cases h.2
  exact ⟨by rw [countIssues, if_neg hmax, if_neg hmin]; rfl, not_lt.1 hmax⟩

/-- An entry without an issue is not counted as unusable. -/
theorem unusable_eq_false {item : Option Raw}
    (h : normalizeEntry L spec nested path entry = ⟨item, unusable, []⟩) : unusable = false := by
  cases entry with
  | dict d =>
    rw [normalizeEntry_dict] at h
    rcases hv : entryValue L spec path (get d "v") with ⟨v, bad⟩
    rw [hv] at h
    cases v with
    | none =>
      injection h with _ _ hissues
      have hbad : bad = [] := (List.append_eq_nil_iff.1 hissues).1
      rw [hbad] at hv
      exact absurd quiet_nil (entryValue_none hv)
    | some v =>
      dsimp only at h
      split at h
      · split at h
        · injection h with _ _ hissues
          exact absurd (List.append_eq_nil_iff.1 hissues).2 (List.cons_ne_nil _ _)
        · injection h with _ hunusable
          exact hunusable.symm
      · injection h with _ hunusable
        exact hunusable.symm
  | _ => cases h

theorem entry_eta {e : Entry} {item : Option Raw} (hitem : e.item = item) (hissues : e.issues = []) :
    e = ⟨item, e.unusable, []⟩ := by
  obtain ⟨item', unusable, issues⟩ := e
  cases hitem
  cases hissues
  rfl

/-- An entry without an issue that is left out has nothing to be settled. -/
theorem settled_of_dropped (hbelow : Below nested S)
    (hitem : (normalizeEntry L spec nested path (.dict d)).item = none)
    (hissues : (normalizeEntry L spec nested path (.dict d)).issues = []) :
    SettledEntry L spec S d :=
  normalizeEntry_dropped hbelow (entry_eta hitem hissues) quiet_nil

theorem countP_unusable
    (h : ∀ e ∈ normalizeEntries L spec nested path entries, e.issues = []) :
    (normalizeEntries L spec nested path entries).countP (·.unusable) = 0 := by
  rw [List.countP_eq_zero]
  intro e he
  obtain ⟨p, -, hp⟩ := List.mem_map.1 (normalizeEntries_eq entries ▸ he)
  have hfalse := unusable_eq_false (hp.trans (entry_eta rfl (h e he)))
  rw [hfalse]
  exact Bool.false_ne_true

theorem exists_mem_zipIdx {x : Raw} (h : x ∈ entries) : ∃ i, (x, i) ∈ entries.zipIdx 1 := by
  rw [← List.zipIdx_map_fst 1 entries, List.mem_map] at h
  obtain ⟨⟨y, i⟩, hp, rfl⟩ := h
  exact ⟨i, hp⟩

/-- A list of entries without an issue is kept again when it was settled. -/
theorem normalizeList_again (hbelow : Below nested S)
    (h : normalizeValue L spec nested path (.list entries) = (kept, [])) (path' : Text) :
    normalizeValue L spec nested path' (.list kept) = (kept, []) ↔
      ∀ d ∈ entriesOf (.list entries), SettledEntry L spec S d := by
  obtain ⟨hkept, hissues, hcount⟩ := normalizeValue_list.1 h
  rw [countP_unusable hissues, Nat.add_zero] at hcount
  have hissue : ∀ p ∈ entries.zipIdx 1, (entryAt L spec nested path p).issues = [] := fun p hp ↦
    hissues _ (List.mem_map.2 ⟨p, hp, rfl⟩)
  have hfirst : ∀ p ∈ entries.zipIdx 1, ∀ x, (entryAt L spec nested path p).item = some x →
      ∃ d, p.1 = .dict d ∧ ∀ q, (normalizeEntry L spec nested q x = ⟨some x, false, []⟩ ↔
        SettledEntry L spec S d) := fun p hp x hx ↦
    (normalizeEntry_kept hbelow (entry_eta hx (hissue p hp))).2
  rw [normalizeEntries_eq, List.filterMap_map] at hkept
  rw [normalizeValue_list]
  constructor
  · rintro ⟨hkept', hissues', -⟩ d hd
    rw [normalizeEntries_eq, List.filterMap_map] at hkept'
    obtain ⟨i, hi⟩ := exists_mem_zipIdx (mem_entriesOf.1 hd)
    cases hitem : (entryAt L spec nested path (.dict d, i)).item with
    | none => exact settled_of_dropped hbelow hitem (hissue _ hi)
    | some x =>
      obtain ⟨d', hd', hagain⟩ := hfirst _ hi x hitem
      cases hd'
      have hx : x ∈ kept := hkept ▸ List.mem_filterMap.2 ⟨_, hi, hitem⟩
      obtain ⟨j, hj⟩ := exists_mem_zipIdx hx
      have hitem' := filterMap_zipIdx_self hkept' _ hj
      have hrun := entry_eta hitem' (hissues' _ (List.mem_map.2 ⟨_, hj, rfl⟩))
      have hfalse := unusable_eq_false hrun
      rw [hfalse] at hrun
      exact (hagain _).1 hrun
  · intro hsettled
    have hrun : ∀ p ∈ kept.zipIdx 1, entryAt L spec nested path' p = ⟨some p.1, false, []⟩ := by
      intro p hp
      have hmem : p.1 ∈ kept := List.fst_mem_of_mem_zipIdx hp
      rw [← hkept, List.mem_filterMap] at hmem
      obtain ⟨p', hp', hitem⟩ := hmem
      obtain ⟨d, hd, hagain⟩ := hfirst p' hp' _ hitem
      have hmem' : p'.1 ∈ entries := List.fst_mem_of_mem_zipIdx hp'
      rw [hd] at hmem'
      exact (hagain _).2 (hsettled d (mem_entriesOf.2 hmem'))
    have hissues' : ∀ e ∈ normalizeEntries L spec nested path' kept, e.issues = [] := by
      intro e he
      obtain ⟨p, hp, rfl⟩ := List.mem_map.1 (normalizeEntries_eq kept ▸ he)
      rw [hrun p hp]
    refine ⟨?_, hissues', ?_⟩
    · rw [normalizeEntries_eq, List.filterMap_map]
      exact filterMap_zipIdx_eq fun p hp ↦ congrArg Entry.item (hrun p hp)
    · rw [countP_unusable hissues', Nat.add_zero]
      exact (countIssues_congr hcount path').1

/-- What is kept of an attribute without an issue is kept again when it was settled. -/
theorem normalizeValue_again (hbelow : Below nested S)
    (h : normalizeValue L spec nested path value = (kept, [])) :
    (kept.length : ℤ) ≤ spec.countMax ∧ ∀ path',
      (normalizeValue L spec nested path' (.list kept) = (kept, []) ↔
        ∀ d ∈ entriesOf value, SettledEntry L spec S d) := by
  have hcount : ∀ entries, normalizeValue L spec nested path (.list entries) = (kept, []) →
      (kept.length : ℤ) ≤ spec.countMax := by
    intro entries hlist
    obtain ⟨-, hissues, hcount⟩ := normalizeValue_list.1 hlist
    rw [countP_unusable hissues, Nat.add_zero] at hcount
    exact (countIssues_congr hcount path).2
  cases value with
  | list entries => exact ⟨hcount entries h, fun path' ↦ normalizeList_again hbelow h path'⟩
  | null => exact ⟨hcount [] h, fun path' ↦ normalizeList_again hbelow h path'⟩
  | _ => cases h

/-- Nothing is to be settled of an attribute that keeps nothing and tells nothing. -/
theorem normalizeValue_quiet (hbelow : Below nested S)
    (h : normalizeValue L spec nested path value = ([], issues)) (hquiet : Quiet issues) :
    ∀ d ∈ entriesOf value, SettledEntry L spec S d := by
  cases value with
  | list entries =>
    intro d hd
    have hkept : (normalizeEntries L spec nested path entries).filterMap (·.item) = [] :=
      congrArg Prod.fst h
    have hissues : (normalizeEntries L spec nested path entries).flatMap (·.issues) ++ _ = issues :=
      congrArg Prod.snd h
    rw [← hissues, quiet_append] at hquiet
    obtain ⟨i, hi⟩ := exists_mem_zipIdx (mem_entriesOf.1 hd)
    have hmem : entryAt L spec nested path (.dict d, i) ∈
        normalizeEntries L spec nested path entries := List.mem_map.2 ⟨_, hi, rfl⟩
    have hitem := List.filterMap_eq_nil_iff.1 hkept _ hmem
    have hentry : Quiet (entryAt L spec nested path (.dict d, i)).issues := fun j hj ↦
      hquiet.1 j (List.mem_flatMap.2 ⟨_, hmem, hj⟩)
    have hrun : entryAt L spec nested path (.dict d, i) =
        ⟨none, (entryAt L spec nested path (.dict d, i)).unusable,
          (entryAt L spec nested path (.dict d, i)).issues⟩ := by rw [← hitem]
    exact normalizeEntry_dropped hbelow hrun hentry
  | _ => exact fun d hd ↦ absurd hd List.not_mem_nil

/-- What is below an entry that is kept. -/
theorem normalizeEntry_sub (h : normalizeEntry L spec nested path entry = ⟨some (.dict d), unusable, []⟩)
    {items : Dict} (hitems : get d "s" = .dict items) :
    items = [] ∨ ∃ n ∈ nested, ∃ raw start, n raw start = (items, []) := by
  cases entry with
  | dict given =>
    rw [normalizeEntry_dict] at h
    rcases hv : entryValue L spec path (get given "v") with ⟨v, bad⟩
    rcases hs : entrySub nested path (get given "s") with ⟨sub, issues⟩
    rw [hv, hs] at h
    cases v with
    | none => cases h
    | some v =>
      dsimp only at h
      split at h
      · split at h <;> cases h
      · injection h with hitem _ hissues
        rw [(List.append_eq_nil_iff.1 hissues).2] at hs
        rw [get_itemOf_s d (Option.some.inj hitem)] at hitems
        cases hnested : nested with
        | none =>
          rw [hnested] at hitems
          cases hitems
        | some n =>
          rw [hnested] at hitems hs
          cases hitems
          cases hgiven : get given "s" with
          | dict raw =>
            rw [hgiven, entrySub] at hs
            split at hs
            · exact .inl (congrArg Prod.fst hs).symm
            · exact .inr ⟨n, rfl, raw, _, hs⟩
          | null =>
            rw [hgiven] at hs
            exact .inl (congrArg Prod.fst hs).symm
          | _ =>
            rw [hgiven] at hs
            cases hs
  | _ => cases h

theorem normalizeValue_sub (h : normalizeValue L spec nested path value = (kept, [])) :
    ∀ d, .dict d ∈ kept → ∀ items, get d "s" = .dict items →
      items = [] ∨ ∃ n ∈ nested, ∃ raw start, n raw start = (items, []) := by
  have hlist : ∀ entries, normalizeValue L spec nested path (.list entries) = (kept, []) →
      ∀ d, .dict d ∈ kept → ∀ items, get d "s" = .dict items →
        items = [] ∨ ∃ n ∈ nested, ∃ raw start, n raw start = (items, []) := by
    intro entries hentries d hd items hitems
    obtain ⟨hkept, hissues, -⟩ := normalizeValue_list.1 hentries
    rw [← hkept, List.mem_filterMap] at hd
    obtain ⟨e, he, hitem⟩ := hd
    obtain ⟨p, -, hp⟩ := List.mem_map.1 (normalizeEntries_eq entries ▸ he)
    exact normalizeEntry_sub (hp.trans (entry_eta hitem (hissues e he))) hitems
  cases value with
  | list entries => exact hlist entries h
  | null => exact hlist [] h
  | _ => cases h

end Entries

end Tiqora.Cmdb.Values
