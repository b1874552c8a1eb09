import Tiqora.Gi.Conditions

namespace Tiqora.Gi.Conditions

open Foundation

structure Block where
  condType : Linking
  fields : List (Text × Spec)

section Reading

variable (rt : Runtime) (data : Dict)

def fieldsOf (items : Dict) : List (Text × Spec) := items.map fun f ↦ (f.1.str, readSpec f.2)

/-- A block of the configuration. -/
def readBlock (actual : Value) : Option Block :=
  match (actual.get "Fields").filled, linkingOf rt (actual.get "Type") with
  | some fields, some condType => some ⟨condType, fieldsOf fields⟩
  | _, _ => none

def blocksOf (conditions : Dict) : List (Option Block) :=
  (conditions.filter fun c ↦ c.1 ≠ linkingKey).map fun c ↦ readBlock rt c.2

/-- The type and the value to match of a field fit together. -/
def specOk (spec : Spec) : Bool :=
  hasFieldType rt spec &&
    match spec.fieldType with
    | some .string => isText rt spec.match'
    | some .array => spec.match'.isContainer && !spec.match'.isDict
    | some .hash => spec.match'.isDict
    | some .regexp => isPattern spec && (rt.compile (perlStr rt spec.match')).toBool
    | some .module => true
    | none => true

/-- A condition without a configuration error. -/
def WellFormed (condition : Value) (linking : Linking) (blocks : List Block) : Prop :=
  ∃ conditions, condition.get "Condition" = .dict conditions ∧ conditions ≠ [] ∧
    linkingOf rt (condition.get "ConditionLinking") = some linking ∧
    blocksOf rt conditions = blocks.map some ∧ ∀ b ∈ blocks, ∀ f ∈ b.fields, specOk rt f.2 = true

/-- What a field comes to. -/
def outcome (field : Text × Spec) : Outcome := (checkField rt data field.1 field.2 []).1

def fieldMatches (field : Text × Spec) : Bool := outcome rt data field = .match'

def fieldFails (field : Text × Spec) : Bool :=
  outcome rt data field = .fail || outcome rt data field = .failSoft

/-- No field fails, at least one matches, exactly one matches. -/
def holds (condType : Linking) (fields : List (Text × Spec)) : Bool :=
  match condType with
  | .and => fields.all fun field ↦ !fieldFails rt data field
  | .or => fields.any (fieldMatches rt data)
  | .xor => fields.countP (fieldMatches rt data) = 1

def Block.holds (b : Block) : Bool := Conditions.holds rt data b.condType b.fields

/-- All blocks hold, at least one holds, exactly one that is no or-block holds. -/
def reading (linking : Linking) (blocks : List Block) : Bool :=
  match linking with
  | .and => blocks.all (·.holds rt data)
  | .or => blocks.any (·.holds rt data)
  | .xor => blocks.countP (fun b ↦ b.condType ≠ .or && b.holds rt data) = 1

end Reading

/-- The same blocks in another order, each with its fields in another order. -/
def Reordered (blocks blocks' : List Block) : Prop :=
  ∃ middle, blocks.Perm middle ∧
    List.Forall₂ (fun b b' ↦ b.condType = b'.condType ∧ b.fields.Perm b'.fields) middle blocks'

section Order

variable {rt : Runtime} {data : Dict}

theorem holds_perm {condType : Linking} {fields fields' : List (Text × Spec)}
    (h : fields.Perm fields') :
    holds rt data condType fields = holds rt data condType fields' := by
  cases condType with
  | and => exact h.all_eq
  | or => exact h.any_eq
  | xor => rw [holds, holds, h.countP_eq]

theorem reading_perm {linking : Linking} {blocks blocks' : List Block} (h : blocks.Perm blocks') :
    reading rt data linking blocks = reading rt data linking blocks' := by
  cases linking with
  | and => exact h.all_eq
  | or => exact h.any_eq
  | xor => rw [reading, reading, h.countP_eq]

theorem reading_congr {linking : Linking} {blocks blocks' : List Block}
    (h : blocks.map (fun b ↦ (b.condType, b.holds rt data)) =
      blocks'.map fun b ↦ (b.condType, b.holds rt data)) :
    reading rt data linking blocks = reading rt data linking blocks' := by
  cases linking with
  | and =>
    have hall := congrArg (List.all · (·.2)) h
    simp only [List.all_map] at hall
    exact hall
  | or =>
    have hany := congrArg (List.any · (·.2)) h
    simp only [List.any_map] at hany
    exact hany
  | xor =>
    have hcount := congrArg (List.countP fun p ↦ p.1 ≠ .or && p.2) h
    simp only [List.countP_map] at hcount
    exact congrArg (fun n : ℕ ↦ decide (n = 1)) hcount

/-- The reading does not depend on the order of blocks or fields. -/
theorem reading_reordered {linking : Linking} {blocks blocks' : List Block}
    (h : Reordered blocks blocks') :
    reading rt data linking blocks = reading rt data linking blocks' := by
  obtain ⟨middle, hperm, hfields⟩ := h
  rw [reading_perm hperm]
  refine reading_congr ?_
  clear hperm
  induction hfields with
  | nil => rfl
  | @cons b b' middle blocks' hb _ ih =>
    rw [List.map_cons, List.map_cons, ih, hb.1, Block.holds, Block.holds, hb.1, holds_perm hb.2]

end Order

section Fields

variable {rt : Runtime} {data : Dict}

theorem anyHit_fst (search : Text → Option Bool) (label label' : Text) (values : List Value) :
    (anyHit rt search label values).1 = (anyHit rt search label' values).1 := by
  induction values with
  | nil => rfl
  | cons value values ih =>
    rw [anyHit, anyHit]
    cases (scalar rt value).elim (some false) search with
    | none => exact ih
    | some hit =>
      cases hit with
      | true => rfl
      | false => exact ih

theorem checkField_fst (field : Text × Spec) (label : Text) :
    (checkField rt data field.1 field.2 label).1 = outcome rt data field := by
  unfold outcome checkField
  dsimp only
  cases field.2.fieldType with
  | none => rfl
  | some type =>
    cases type with
    | string =>
      dsimp only
      split <;> rfl
    | array => cases field.2.match' <;> rfl
    | hash => cases field.2.match' <;> rfl
    | regexp =>
      dsimp only
      split
      · cases rt.compile (perlStr rt field.2.match') with
        | error e => rfl
        | ok search => exact congrArg found (anyHit_fst _ _ _ _)
      · rfl
    | module => rfl

theorem found_ne_error (b : Bool) : found b ≠ .error := by
  cases b <;> exact Outcome.noConfusion

theorem checkString_ne_error {name : Text} {value match' : Value} :
    checkString rt data name value match' ≠ .error := by
  unfold checkString
  dsimp only
  split
  · split
    · exact found_ne_error _
    · exact Outcome.noConfusion
    · exact found_ne_error _
  · exact found_ne_error _

theorem checkHash_ne_error {value : Value} {match' : Dict} :
    checkHash rt value match' ≠ .error := by
  unfold checkHash
  split
  · exact found_ne_error _
  · exact Outcome.noConfusion

/-- A field without a configuration error comes to a result. -/
theorem outcome_ne_error {field : Text × Spec} (h : specOk rt field.2 = true) :
    outcome rt data field ≠ .error := by
  unfold specOk at h
  rw [Bool.and_eq_true] at h
  have hspec := h.2
  unfold outcome checkField
  dsimp only
  cases htype : field.2.fieldType with
  | none => exact Outcome.noConfusion
  | some type =>
    rw [htype] at hspec
    cases type with
    | string =>
      dsimp only at hspec ⊢
      rw [if_pos hspec]
      exact checkString_ne_error
    | array =>
      cases hmatch : field.2.match' with
      | list items => exact found_ne_error _
      | _ => simp [hmatch, Value.isContainer, Value.isDict] at hspec
    | hash =>
      cases hmatch : field.2.match' with
      | dict items => exact checkHash_ne_error
      | _ => simp [hmatch, Value.isDict] at hspec
    | regexp =>
      dsimp only at hspec ⊢
      rw [Bool.and_eq_true] at hspec
      rw [if_pos hspec.1]
      cases hcompile : rt.compile (perlStr rt field.2.match') with
      | error e =>
        rw [hcompile] at hspec
        cases hspec.2
      | ok search => exact found_ne_error _
    | module => exact Outcome.noConfusion

theorem fieldMatches_of {field : Text × Spec} {o : Outcome} (h : outcome rt data field = o) :
    fieldMatches rt data field = decide (o = .match') := by
  rw [fieldMatches, h]

theorem fieldFails_of {field : Text × Spec} {o : Outcome} (h : outcome rt data field = o) :
    fieldFails rt data field = (decide (o = .fail) || decide (o = .failSoft)) := by
  rw [fieldFails, h]

end Fields

section Walks

variable {rt : Runtime} {data : Dict} {linking condType : Linking}

/-- What the loop over some fields says about them, when it began with the given counts. -/
def WalkSpec (rt : Runtime) (data : Dict) (linking condType : Linking)
    (fields : List (Text × Spec)) (success fail : ℕ) : Walk → Prop
  | .returned result => linking = condType ∧ condType ≠ .xor ∧ result = decide (condType = .or) ∧
      holds rt data condType fields = result
  | .skipped => linking ≠ condType ∧ condType ≠ .xor ∧
      holds rt data condType fields = decide (condType = .or)
  | .counted s f => s = success + fields.countP (fieldMatches rt data) ∧
      f = fail + fields.countP (fieldFails rt data) ∧
      (condType = .or → holds rt data .or fields = false)

/-- A block that is decided by its other fields is decided with one more. -/
theorem holds_cons_of_decided {field : Text × Spec} {fields : List (Text × Spec)}
    (hxor : condType ≠ .xor) (h : holds rt data condType fields = decide (condType = .or)) :
    holds rt data condType (field :: fields) = decide (condType = .or) := by
  cases condType with
  | and =>
    rw [holds, List.all_cons]
    exact Bool.and_eq_false_imp.2 fun _ ↦ h
  | or =>
    rw [holds, List.any_cons]
    exact Bool.or_eq_true_iff.2 (.inr h)
  | xor => exact absurd rfl hxor

theorem WalkSpec.cons {field : Text × Spec} {fields : List (Text × Spec)} {success fail s f : ℕ}
    {walk : Walk} (h : WalkSpec rt data linking condType fields s f walk)
    (hs : s = success + if fieldMatches rt data field then 1 else 0)
    (hf : f = fail + if fieldFails rt data field then 1 else 0)
    (hor : condType = .or → fieldMatches rt data field = false) :
    WalkSpec rt data linking condType (field :: fields) success fail walk := by
  cases walk with
  | returned result =>
    obtain ⟨hlinking, hxor, hresult, hholds⟩ := h
    exact ⟨hlinking, hxor, hresult, hresult ▸ holds_cons_of_decided hxor (hholds.trans hresult)⟩
  | skipped =>
    obtain ⟨hlinking, hxor, hholds⟩ := h
    exact ⟨hlinking, hxor, holds_cons_of_decided hxor hholds⟩
  | counted s' f' =>
    obtain ⟨hsuccess, hfail, hnone⟩ := h
    refine ⟨?_, ?_, fun htype ↦ ?_⟩
    · rw [hsuccess, hs, List.countP_cons]
      omega
    · rw [hfail, hf, List.countP_cons]
      omega
    · rw [holds, List.any_cons, hor htype]
      exact hnone htype

theorem checkFields_spec {start : Text} {items : Dict}
    (hok : ∀ f ∈ fieldsOf items, specOk rt f.2 = true) (success fail : ℕ) (warnings : List Text) :
    WalkSpec rt data linking condType (fieldsOf items) success fail
      (checkFields rt data linking condType start items success fail warnings).1 := by
  induction items generalizing success fail warnings with
  | nil => exact ⟨rfl, rfl, fun _ ↦ rfl⟩
  | cons item items ih =>
    obtain ⟨key, v⟩ := item
    have hspec : specOk rt (readSpec v) = true := hok _ List.mem_cons_self
    have htype : hasFieldType rt (readSpec v) = true := by
      rw [specOk, Bool.and_eq_true] at hspec
      exact hspec.1
    have hrest := ih fun f hf ↦ hok f (List.mem_cons_of_mem _ hf)
    have herror : outcome rt data (key.str, readSpec v) ≠ .error := outcome_ne_error hspec
    have hfst : ∀ label : Text, (checkField rt data key.str (readSpec v) label).1 =
        outcome rt data (key.str, readSpec v) :=
      checkField_fst (key.str, readSpec v)
    rw [checkFields, htype]
    dsimp only
    rw [if_neg (by decide)]
    split
    · next heq =>
      rw [hfst] at heq
      exact absurd heq herror
    · next heq =>
      rw [hfst] at heq
      have hmatch : fieldMatches rt data (key.str, readSpec v) = false := fieldMatches_of heq
      have hfail : fieldFails rt data (key.str, readSpec v) = false := fieldFails_of heq
      exact (hrest _ _ _).cons (by rw [hmatch]; rfl) (by rw [hfail]; rfl) fun _ ↦ hmatch
    · next heq =>
      rw [hfst] at heq
      have hmatch : fieldMatches rt data (key.str, readSpec v) = true := fieldMatches_of heq
      have hfail : fieldFails rt data (key.str, readSpec v) = false := fieldFails_of heq
      have hholds : holds rt data .or (fieldsOf ((key, v) :: items)) = true :=
        List.any_eq_true.2 ⟨_, List.mem_cons_self, hmatch⟩
      split
      · next hboth =>
        obtain ⟨rfl, rfl⟩ := hboth
        exact ⟨rfl, by decide, rfl, hholds⟩
      · split
        · next hboth =>
          obtain ⟨hlinking, rfl⟩ := hboth
          exact ⟨hlinking, by decide, hholds⟩
        · next hnot hnot' =>
          refine (hrest _ _ _).cons (by rw [hmatch]; rfl) (by rw [hfail]; rfl) fun htype ↦ ?_
          by_cases hlinking : linking = .or
          · exact absurd ⟨hlinking, htype⟩ hnot
          · exact absurd ⟨hlinking, htype⟩ hnot'
    · next heq =>
      rw [hfst] at heq
      have hmatch : fieldMatches rt data (key.str, readSpec v) = false := fieldMatches_of heq
      have hfail : fieldFails rt data (key.str, readSpec v) = true := fieldFails_of heq
      exact (hrest _ _ _).cons (by rw [hmatch]; rfl) (by rw [hfail]; rfl) fun _ ↦ hmatch
    · next heq =>
      rw [hfst] at heq
      have hmatch : fieldMatches rt data (key.str, readSpec v) = false := fieldMatches_of heq
      have hfail : fieldFails rt data (key.str, readSpec v) = true := fieldFails_of heq
      have hholds : holds rt data .and (fieldsOf ((key, v) :: items)) = false :=
        List.all_eq_false.2 ⟨_, List.mem_cons_self, by rw [hfail]; decide⟩
      split
      · next hboth =>
        obtain ⟨rfl, rfl⟩ := hboth
        exact ⟨rfl, by decide, rfl, hholds⟩
      · next hnot =>
        split
        · next hand =>
          subst hand
          exact ⟨fun hlinking ↦ hnot ⟨hlinking, rfl⟩, by decide, hholds⟩
        · exact (hrest _ _ _).cons (by rw [hmatch]; rfl) (by rw [hfail]; rfl) fun _ ↦ hmatch

/-- The counts of a block say whether it holds. -/
theorem blockOk_eq (fields : List (Text × Spec)) :
    blockOk condType (0 + fields.countP (fieldMatches rt data))
      (0 + fields.countP (fieldFails rt data)) = holds rt data condType fields := by
  rw [Nat.zero_add, Nat.zero_add]
  cases condType with
  | and =>
    rw [blockOk, holds, Bool.eq_iff_iff, decide_eq_true_eq, List.countP_eq_zero, List.all_eq_true]
    simp only [Bool.not_eq_true, Bool.not_eq_true']
  | or =>
    rw [blockOk, holds, Bool.eq_iff_iff, decide_eq_true_eq, List.countP_pos_iff, List.any_eq_true]
  | xor => rfl

/-- What the blocks say, when the loop over them began with the given counts. -/
def readingFrom (rt : Runtime) (data : Dict) (linking : Linking) (blocks : List Block)
    (success fail : ℕ) : Bool :=
  match linking with
  | .and => fail = 0 && blocks.all (·.holds rt data)
  | .or => 0 < success || blocks.any (·.holds rt data)
  | .xor => success + blocks.countP (fun b ↦ b.condType ≠ .or && b.holds rt data) = 1

theorem readingFrom_zero (blocks : List Block) :
    readingFrom rt data linking blocks 0 0 = reading rt data linking blocks := by
  cases linking with
  | and => rfl
  | or => rfl
  | xor => rw [readingFrom, reading, Nat.zero_add]

theorem blocksOf_cons {key : Key} {actual : Value} {conditions : Dict} (h : key ≠ linkingKey) :
    blocksOf rt ((key, actual) :: conditions) = readBlock rt actual :: blocksOf rt conditions := by
  rw [blocksOf, List.filter_cons, if_pos (decide_eq_true h)]
  rfl

theorem blocksOf_linking {actual : Value} {conditions : Dict} :
    blocksOf rt ((linkingKey, actual) :: conditions) = blocksOf rt conditions := by
  have hne : ¬ decide ((linkingKey, actual).1 ≠ linkingKey) = true := fun h ↦
      of_decide_eq_true h rfl
  rw [blocksOf, List.filter_cons, if_neg hne]
  rfl

section Step

variable {b : Block} {blocks : List Block} {success fail : ℕ}

theorem readingFrom_returned {result : Bool} (hlinking : linking = b.condType)
    (hxor : b.condType ≠ .xor) (hresult : result = decide (b.condType = .or))
    (hholds : b.holds rt data = result) :
    result = readingFrom rt data linking (b :: blocks) success fail := by
  subst hlinking
  unfold readingFrom
  cases htype : b.condType with
  | and =>
    rw [htype] at hresult
    simp only [List.all_cons, hholds, hresult]
    exact (Bool.and_false _).symm
  | or =>
    rw [htype] at hresult
    simp only [List.any_cons, hholds, hresult]
    exact (Bool.or_true _).symm
  | xor => exact absurd htype hxor

theorem readingFrom_skipped (hlinking : linking ≠ b.condType) (hxor : b.condType ≠ .xor)
    (hholds : b.holds rt data = decide (b.condType = .or)) :
    readingFrom rt data linking blocks success fail =
      readingFrom rt data linking (b :: blocks) success fail := by
  cases linking with
  | and =>
    have htype : b.condType = .or := by cases h : b.condType <;> simp_all
    rw [readingFrom, readingFrom, List.all_cons, hholds, decide_eq_true htype, Bool.true_and]
  | or =>
    have htype : b.condType ≠ .or := hlinking.symm
    rw [readingFrom, readingFrom, List.any_cons, hholds, decide_eq_false htype, Bool.false_or]
  | xor =>
    rw [readingFrom, readingFrom, List.countP_cons_of_neg]
    rw [hholds]
    by_cases htype : b.condType = .or <;> simp [htype]

theorem readingFrom_held (hlinking : linking ≠ .or) (hholds : b.holds rt data = true)
    (hor : b.condType = .or → b.holds rt data = false) :
    readingFrom rt data linking blocks (success + 1) fail =
      readingFrom rt data linking (b :: blocks) success fail := by
  have htype : b.condType ≠ .or := fun h ↦ by
    rw [hor h] at hholds
    cases hholds
  cases linking with
  | and => rw [readingFrom, readingFrom, List.all_cons, hholds, Bool.true_and]
  | or => exact absurd rfl hlinking
  | xor =>
    rw [readingFrom, readingFrom, List.countP_cons_of_pos (by simp [htype, hholds])]
    rw [Nat.add_right_comm, Nat.add_assoc]

theorem readingFrom_failed (hlinking : ¬ (linking = .and ∧ b.condType ≠ .xor) )
    (hholds : b.holds rt data = false) :
    readingFrom rt data linking blocks success (fail + 1) =
      readingFrom rt data linking (b :: blocks) success fail := by
  cases linking with
  | and => rw [readingFrom, readingFrom, List.all_cons, hholds, Bool.false_and, Bool.and_false]; rfl
  | or => rw [readingFrom, readingFrom, List.any_cons, hholds, Bool.false_or]
  | xor => rw [readingFrom, readingFrom, List.countP_cons_of_neg (by simp [hholds])]

end Step

theorem checkBlocks_spec {conditions : Dict} {blocks : List Block}
    (hread : blocksOf rt conditions = blocks.map some)
    (hok : ∀ b ∈ blocks, ∀ f ∈ b.fields, specOk rt f.2 = true) (success fail : ℕ)
    (warnings : List Text) :
    (checkBlocks rt data linking conditions success fail warnings).1 =
      readingFrom rt data linking blocks success fail := by
  induction conditions generalizing blocks success fail warnings with
  | nil =>
    obtain rfl := List.map_eq_nil_iff.1 hread.symm
    cases linking with
    | and => exact (Bool.and_true _).symm
    | or => exact (Bool.or_false _).symm
    | xor => rfl
  | cons c conditions ih =>
    obtain ⟨key, actual⟩ := c
    rw [checkBlocks]
    by_cases hkey : key = linkingKey
    · rw [if_pos hkey]
      refine ih ?_ hok success fail warnings
      rw [← hread, hkey, blocksOf_linking]
    · rw [if_neg hkey]
      rw [blocksOf_cons hkey] at hread
      obtain ⟨b, blocks, rfl, hb, hrest⟩ := List.map_eq_cons_iff.1 hread.symm
      obtain ⟨hbOk, hrestOk⟩ := List.forall_mem_cons.1 hok
      unfold readBlock at hb
      cases hfields : (actual.get "Fields").filled with
      | none =>
        rw [hfields] at hb
        cases hb
      | some fields =>
        cases htype : linkingOf rt (actual.get "Type") with
        | none =>
          rw [hfields, htype] at hb
          cases hb
        | some condType =>
          rw [hfields, htype] at hb
          obtain rfl := Option.some.inj hb
          have hperm : (fieldsOf (byName fields)).Perm (fieldsOf fields) :=
            (List.mergeSort_perm _ _).map _
          have hholds : holds rt data condType (fieldsOf (byName fields)) =
              Block.holds rt data ⟨condType, fieldsOf fields⟩ := holds_perm hperm
          have hwalk : WalkSpec rt data linking condType (fieldsOf (byName fields)) 0 0
              (checkFields rt data linking condType ("Condition->".toList ++ key.str)
                (byName fields) 0 0 warnings).1 :=
            checkFields_spec (fun f hf ↦ hbOk f (hperm.mem_iff.1 hf)) 0 0 warnings
          dsimp only
          generalize checkFields rt data linking condType ("Condition->".toList ++ key.str)
            (byName fields) 0 0 warnings = walk at hwalk ⊢
          obtain ⟨walk, warnings⟩ := walk
          cases walk with
          | returned result =>
            obtain ⟨hlinking, hxor, hresult, hsays⟩ := hwalk
            exact readingFrom_returned hlinking hxor hresult (hholds.symm.trans hsays)
          | skipped =>
            obtain ⟨hlinking, hxor, hsays⟩ := hwalk
            exact (ih hrest.symm hrestOk success fail warnings).trans
              (readingFrom_skipped hlinking hxor (hholds.symm.trans hsays))
          | counted s f =>
            obtain ⟨rfl, rfl, hor⟩ := hwalk
            dsimp only
            rw [blockOk_eq, hholds]
            split
            · next hheld =>
              split
              · next hlinking =>
                rw [hlinking, readingFrom, List.any_cons, hheld, Bool.true_or, Bool.or_true]
              · next hlinking =>
                refine (ih hrest.symm hrestOk (success + 1) fail warnings).trans
                  (readingFrom_held hlinking hheld fun htype ↦ ?_)
                have htype : condType = .or := htype
                rw [← hholds, htype]
                exact hor htype
            · next hheld =>
              have hfalse := Bool.eq_false_iff.2 hheld
              split
              · next hlinking =>
                rw [hlinking.1, readingFrom, List.all_cons, hfalse, Bool.false_and, Bool.and_false]
              · next hlinking =>
                exact (ih hrest.symm hrestOk success (fail + 1) warnings).trans
                  (readingFrom_failed hlinking hfalse)

theorem exists_sorted_blocks {conditions : Dict} {blocks : List Block}
    (h : blocksOf rt conditions = blocks.map some) :
    ∃ sorted : List Block, blocksOf rt (byName conditions) = sorted.map some ∧
      sorted.Perm blocks := by
  have hperm : (blocksOf rt (byName conditions)).Perm (blocks.map some) :=
    h ▸ ((List.mergeSort_perm _ _).filter _).map _
  have hall : ∀ o ∈ blocksOf rt (byName conditions), o.isSome = true := by
    intro o ho
    obtain ⟨b, -, rfl⟩ := List.mem_map.1 (hperm.mem_iff.1 ho)
    rfl
  refine ⟨(blocksOf rt (byName conditions)).filterMap id, ?_, ?_⟩
  · generalize blocksOf rt (byName conditions) = l at hall
    induction l with
    | nil => rfl
    | cons o l ih =>
      obtain ⟨ho, hl⟩ := List.forall_mem_cons.1 hall
      obtain ⟨b, rfl⟩ := Option.isSome_iff_exists.1 ho
      exact congrArg (some b :: ·) (ih hl)
  · have hid := hperm.filterMap id
    rwa [List.filterMap_map, Function.id_comp, List.filterMap_some] at hid

end Walks

section Main

variable {rt : Runtime} {condition : Value} {linking : Linking} {blocks : List Block}

theorem isDict_of_get {name : String} {items : Dict} (h : condition.get name = .dict items) :
    condition.isDict = true := by
  cases condition with
  | dict _ => rfl
  | _ => cases h

theorem filled_of_ne_nil {items : Dict} (h : items ≠ []) :
    (Value.dict items).filled = some items := by
  obtain ⟨item, items, rfl⟩ := List.exists_cons_of_ne_nil h
  rfl

theorem conditionCheck_eq (h : WellFormed rt condition linking blocks) (data : Value) :
    (conditionCheck rt condition data).1 =
      data.filled.any fun data ↦ reading rt data linking blocks := by
  obtain ⟨conditions, hget, hne, hlinking, hread, hok⟩ := h
  obtain ⟨sorted, hsorted, hperm⟩ := exists_sorted_blocks hread
  unfold conditionCheck
  rw [isDict_of_get hget, hget, filled_of_ne_nil hne, hlinking]
  cases data.filled with
  | none => rfl
  | some data =>
    refine (checkBlocks_spec hsorted (fun b hb ↦ hok b (hperm.mem_iff.1 hb)) 0 0 []).trans ?_
    rw [readingFrom_zero, reading_perm hperm]
    rfl

/-- On event data that is not empty the check is the reading of the blocks, whatever their order and
that of their fields; empty data meets no condition. -/
theorem conditionCheck_means (rt : Runtime) (condition data : Value) (linking : Linking)
    (blocks : List Block) (h : WellFormed rt condition linking blocks) :
    (∀ items, data.filled = some items →
      (conditionCheck rt condition data).1 = reading rt items linking blocks) ∧
    (data.filled = none → (conditionCheck rt condition data).1 = false) ∧
    ∀ condition' blocks', WellFormed rt condition' linking blocks' → Reordered blocks blocks' →
      (conditionCheck rt condition' data).1 = (conditionCheck rt condition data).1 := by
  refine ⟨fun items hitems ↦ ?_, fun hempty ↦ ?_, fun condition' blocks' h' hreordered ↦ ?_⟩
  · rw [conditionCheck_eq h, hitems, Option.any_some]
  · rw [conditionCheck_eq h, hempty, Option.any_none]
  · rw [conditionCheck_eq h, conditionCheck_eq h']
    cases data.filled with
    | none => rfl
    | some items => exact (reading_reordered hreordered).symm

end Main

section Sample

def plainRuntime : Runtime := ⟨fun _ ↦ [], fun _ ↦ .error []⟩

def textKey (s : String) : Key := .text s.toList

/-- One block with one field, the given one. -/
def oneField (field : Value) : Value :=
  .dict [(textKey "Condition", .dict [(textKey "1",
    .dict [(textKey "Fields", .dict [(textKey "Queue", field)])])])]

/-- A field without a type, which counts neither way. -/
def untyped : Value := .dict [(textKey "Match", .str "Raw".toList)]

theorem untyped_wellFormed :
    WellFormed plainRuntime (oneField untyped) .and [⟨.and,
      [("Queue".toList, readSpec untyped)]⟩] :=
  ⟨_, rfl, List.cons_ne_nil _ _, by decide, rfl, by
    simp only [List.mem_singleton, forall_eq]
    decide⟩

theorem conditionCheck_means_sample :
    (conditionCheck plainRuntime (oneField untyped) (.dict [(textKey "Queue", .null)])).1 =
      reading plainRuntime [(textKey "Queue", .null)] .and
        [⟨.and, [("Queue".toList, readSpec untyped)]⟩] :=
  (conditionCheck_means plainRuntime (oneField untyped) (.dict [(textKey "Queue", .null)]) .and _
    untyped_wellFormed).1 _ rfl

/-- No field fails, but there is no data. -/
theorem empty_data_meets_nothing :
    WellFormed plainRuntime (oneField untyped) .and [⟨.and, [("Queue".toList, readSpec untyped)]⟩] ∧
      reading plainRuntime [] .and [⟨.and, [("Queue".toList, readSpec untyped)]⟩] = true ∧
        (conditionCheck plainRuntime (oneField untyped) (.dict [])).1 = false :=
  ⟨untyped_wellFormed, by decide, by decide⟩

end Sample

end Tiqora.Gi.Conditions
