import Tiqora.Domain.TicketAcl
import Tiqora.Foundation.Tables

namespace Tiqora.Domain.Acl

open Foundation

variable {κ : Type} [DecidableEq κ]

/-- The return types whose rules are not below `Ticket`. -/
def specialReturnTypes : List Text := ["Action".toList, "Process".toList, "ActivityDialog".toList]

/-- What the rules are asked for. -/
structure Request where
  returnType : Text
  returnSubType : Text

structure Acl where
  stopAfterMatch : Bool
  configMatch : Entries
  configChange : Entries

/-- An agent or a customer user; a text that is missing is empty. -/
structure Principal where
  userId : Option ℤ
  customerUserId : Text
  customerUserLogin : Text

namespace Principal

def rootUserId : ℤ := 1

def effectiveCustomer (p : Principal) : Text :=
  if p.customerUserLogin = [] then p.customerUserId else p.customerUserLogin

def isMissing (p : Principal) : Bool := p.userId = none && p.effectiveCustomer = []

def isRoot (p : Principal) : Bool := p.userId = some rootUserId

end Principal

namespace Runtime

variable (rt : Runtime) (request : Request)

/-- The rules of a section for the return type. -/
def rulesFor (configChange : Entries) (section' : Text) : Option (List Text) :=
  match configChange.lookup section' with
  | some (.dict root) =>
    if specialReturnTypes.contains request.returnType then
      match root.lookup request.returnType with
      | some (.list items) => if items.isEmpty then none else some (rt.asStrList (.list items))
      | _ => none
    else
      match root.lookup "Ticket".toList with
      | some (.dict ticket) =>
        match ticket.lookup request.returnSubType with
        | some .null => none
        | some raw => some (rt.asStrList raw)
        | none => none
      | _ => none
  | _ => none

def possible (acl : Acl) : Option (List Text) :=
  rt.rulesFor request acl.configChange "Possible".toList

def possibleAdd (acl : Acl) : Option (List Text) :=
  rt.rulesFor request acl.configChange "PossibleAdd".toList

def possibleNot (acl : Acl) : Option (List Text) :=
  rt.rulesFor request acl.configChange "PossibleNot".toList

def matchesAny (rules : List Text) (value : Text) : Bool :=
  rules.any fun rule ↦ (rt.compareMatchWithData rule value true).matched

/-- The entries of the data with a matching value are written to the map. -/
def addMatching (rules : List Text) (data : List (κ × Text)) (into : Table κ Text) : Table κ Text :=
  data.foldl (fun into r ↦ if rt.matchesAny rules r.2 then into.set r.1 (some r.2) else into) into

def applyPossibleFilters (data current : Table κ Text) (acl : Acl) : Table κ Text × Bool :=
  let newTmp := match rt.possible request acl with
    | some rules => rt.addMatching rules data.rows .empty
    | none => current
  let newTmp := match rt.possibleAdd request acl with
    | some rules => rt.addMatching rules data.rows newTmp
    | none => newTmp
  let newTmp := match rt.possibleNot request acl with
    | some rules => newTmp.delete fun r ↦ rt.matchesAny rules r.2
    | none => newTmp
  (newTmp, (rt.possible request acl).isSome || (rt.possibleAdd request acl).isSome ||
    (rt.possibleNot request acl).isSome)

/-- The ACL matches the checks, and it has tried to. -/
def applies (checksLive checksDb : Entries) (acl : Acl) : Bool :=
  let found := rt.aclPropertiesMatch acl.configMatch checksLive checksDb
  found.1 && found.2

/-- The loop over the ACLs, with the map so far and whether any of them was applied. -/
def applyAcls (checksLive checksDb : Entries) (original : Table κ Text) :
    List Acl → Table κ Text → Bool → Table κ Text × Bool
  | [], newTmp, anyApplied => (newTmp, anyApplied)
  | acl :: rest, newTmp, anyApplied =>
    if rt.applies checksLive checksDb acl then
      let found := rt.applyPossibleFilters request original newTmp acl
      if found.2 then
        if acl.stopAfterMatch then (found.1, true)
        else applyAcls checksLive checksDb original rest found.1 true
      else applyAcls checksLive checksDb original rest newTmp anyApplied
    else applyAcls checksLive checksDb original rest newTmp anyApplied

def applyTicketAcl (principal : Principal) (acls : List Acl) (checksLive checksDb : Entries)
    (data : Table κ Text) : Table κ Text :=
  if data.rows.isEmpty then data
  else if principal.isMissing then data
  else if principal.isRoot then data
  else if acls.isEmpty then data
  else
    let found := rt.applyAcls request checksLive checksDb data acls data false
    if found.2 then found.1 else data

/-- What an ACL makes of one value that is kept or dropped so far. -/
def onValue (acl : Acl) (value : Text) (kept : Bool) : Bool :=
  let kept := ((rt.possible request acl).map (rt.matchesAny · value)).getD kept
  let kept := kept || ((rt.possibleAdd request acl).map (rt.matchesAny · value)).getD false
  kept && !((rt.possibleNot request acl).map (rt.matchesAny · value)).getD false

/-- An ACL has rules for the return type. -/
def isUsed (acl : Acl) : Bool :=
  (rt.possible request acl).isSome || (rt.possibleAdd request acl).isSome ||
    (rt.possibleNot request acl).isSome

/-- The ACLs up to the first one that ends the evaluation. -/
def upToStop : List Acl → List Acl
  | [] => []
  | acl :: rest => if acl.stopAfterMatch then [acl] else acl :: upToStop rest

/-- The ACLs that have a say. -/
def active (checksLive checksDb : Entries) (acls : List Acl) : List Acl :=
  upToStop (acls.filter fun acl ↦ rt.applies checksLive checksDb acl && rt.isUsed request acl)

/-- Whether a value is left, of itself. -/
def keeps (checksLive checksDb : Entries) (acls : List Acl) (value : Text) : Bool :=
  (rt.active request checksLive checksDb acls).foldl
    (fun kept acl ↦ rt.onValue request acl value kept) true

end Runtime

section Filters

variable (rt : Runtime) (request : Request) {data current : Table κ Text} {k : κ} {v : Text}

theorem mem_addMatching (rules : List Text) {rows : List (κ × Text)} (hrows : ∀ r ∈ rows, r ∈ data.rows)
    {into : Table κ Text} (hinto : ∀ r ∈ into.rows, r ∈ data.rows) :
    (k, v) ∈ (rt.addMatching rules rows into).rows ↔
      (k, v) ∈ rows ∧ rt.matchesAny rules v = true ∨ (k, v) ∈ into.rows := by
  induction rows generalizing into with
  | nil => simp [Runtime.addMatching]
  | cons r rows ih =>
    obtain ⟨hr, hrows⟩ := List.forall_mem_cons.1 hrows
    change (k, v) ∈ (rt.addMatching rules rows
      (if rt.matchesAny rules r.2 then into.set r.1 (some r.2) else into)).rows ↔ _
    by_cases hmatch : rt.matchesAny rules r.2 = true
    · rw [if_pos hmatch, ih hrows, Table.mem_set, List.mem_cons]
      · constructor
        · rintro (⟨hmem, hv⟩ | ⟨hmem, -⟩ | ⟨rfl, hv⟩)
          · exact .inl ⟨.inr hmem, hv⟩
          · exact .inr hmem
          · cases hv
            exact .inl ⟨.inl rfl, hmatch⟩
        · rintro (⟨rfl | hmem, hv⟩ | hmem)
          · exact .inr (.inr ⟨rfl, rfl⟩)
          · exact .inl ⟨hmem, hv⟩
          · by_cases hk : k = r.1
            · subst hk
              have heq := data.value_unique (hinto _ hmem) hr
              exact .inr (.inr ⟨rfl, congrArg some heq.symm⟩)
            · exact .inr (.inl ⟨hmem, hk⟩)
      · rintro ⟨k', v'⟩ hmem
        rcases Table.mem_set.1 hmem with ⟨hmem, -⟩ | ⟨rfl, hv⟩
        · exact hinto _ hmem
        · cases hv
          exact hr
    · rw [if_neg hmatch, ih hrows hinto, List.mem_cons]
      constructor
      · rintro (⟨hmem, hv⟩ | hmem)
        · exact .inl ⟨.inr hmem, hv⟩
        · exact .inr hmem
      · rintro (⟨rfl | hmem, hv⟩ | hmem)
        · exact absurd hv hmatch
        · exact .inl ⟨hmem, hv⟩
        · exact .inr hmem

/-- A map that holds the entries of the data whose value is kept. -/
def Holds (data : Table κ Text) (keep : Text → Bool) (T : Table κ Text) : Prop :=
  ∀ k v, (k, v) ∈ T.rows ↔ (k, v) ∈ data.rows ∧ keep v = true

omit [DecidableEq κ] in
theorem Holds.start (data : Table κ Text) : Holds data (fun _ ↦ true) data :=
  fun _ _ ↦ ⟨fun h ↦ ⟨h, rfl⟩, fun h ↦ h.1⟩

theorem Holds.add {keep : Text → Bool} (rules : List Text) (h : Holds data keep current) :
    Holds data (fun v ↦ keep v || rt.matchesAny rules v)
      (rt.addMatching rules data.rows current) := by
  intro k v
  rw [mem_addMatching rt rules (fun _ hr ↦ hr) (fun r hr ↦ ((h r.1 r.2).1 hr).1), h k v,
    ← and_or_left, Bool.or_eq_true, or_comm]

theorem Holds.restart (rules : List Text) :
    Holds data (fun v ↦ rt.matchesAny rules v) (rt.addMatching rules data.rows .empty) := by
  intro k v
  rw [mem_addMatching rt rules (fun _ hr ↦ hr) (fun _ hr ↦ absurd hr List.not_mem_nil)]
  exact or_iff_left List.not_mem_nil

theorem Holds.remove {keep : Text → Bool} (rules : List Text) (h : Holds data keep current) :
    Holds data (fun v ↦ keep v && !rt.matchesAny rules v)
      (current.delete fun r ↦ rt.matchesAny rules r.2) := by
  intro k v
  rw [Table.mem_delete, h k v, and_assoc, Bool.and_eq_true, Bool.not_eq_true']

/-- The sections of an ACL work on each entry alone. -/
theorem applyPossibleFilters_holds {keep : Text → Bool} (acl : Acl) (h : Holds data keep current) :
    Holds data (fun v ↦ rt.onValue request acl v (keep v))
      (rt.applyPossibleFilters request data current acl).1 := by
  unfold Runtime.applyPossibleFilters Runtime.onValue
  have hpossible : Holds data
      (fun v ↦ ((rt.possible request acl).map (rt.matchesAny · v)).getD (keep v))
      (match rt.possible request acl with
        | some rules => rt.addMatching rules data.rows .empty
        | none => current) := by
    cases rt.possible request acl with
    | none => exact h
    | some rules => exact Holds.restart rt rules
  revert hpossible
  generalize (match rt.possible request acl with
    | some rules => rt.addMatching rules data.rows .empty
    | none => current) = newTmp
  intro hpossible
  have hadd : Holds data
      (fun v ↦ ((rt.possible request acl).map (rt.matchesAny · v)).getD (keep v) ||
        ((rt.possibleAdd request acl).map (rt.matchesAny · v)).getD false)
      (match rt.possibleAdd request acl with
        | some rules => rt.addMatching rules data.rows newTmp
        | none => newTmp) := by
    cases rt.possibleAdd request acl with
    | none => simpa using hpossible
    | some rules => exact hpossible.add rt rules
  cases rt.possibleNot request acl with
  | none => simpa using hadd
  | some rules => exact hadd.remove rt rules

theorem applyPossibleFilters_used (acl : Acl) :
    (rt.applyPossibleFilters request data current acl).2 = rt.isUsed request acl := rfl

variable (checksLive checksDb : Entries)

/-- The loop runs the ACLs that have a say. -/
theorem applyAcls_holds {keep : Text → Bool} (acls : List Acl) (anyApplied : Bool)
    (h : Holds data keep current) :
    Holds data
      (fun v ↦ (rt.active request checksLive checksDb acls).foldl
        (fun kept acl ↦ rt.onValue request acl v kept) (keep v))
      (rt.applyAcls request checksLive checksDb data acls current anyApplied).1 := by
  induction acls generalizing current keep anyApplied with
  | nil => exact h
  | cons acl acls ih =>
    unfold Runtime.applyAcls Runtime.active
    by_cases happlies : rt.applies checksLive checksDb acl = true
    · rw [if_pos happlies]
      dsimp only
      rw [applyPossibleFilters_used]
      by_cases hused : rt.isUsed request acl = true
      · rw [if_pos hused, List.filter_cons_of_pos (by rw [happlies, hused]; rfl), Runtime.upToStop]
        have hstep := applyPossibleFilters_holds rt request acl h
        by_cases hstop : acl.stopAfterMatch = true
        · rw [if_pos hstop, if_pos hstop]
          exact hstep
        · rw [if_neg hstop, if_neg hstop]
          exact ih true hstep
      · rw [if_neg hused, List.filter_cons_of_neg (by simp [hused])]
        exact ih anyApplied h
    · rw [if_neg happlies, List.filter_cons_of_neg (by simp [happlies])]
      exact ih anyApplied h

theorem applyAcls_applied (acls : List Acl) :
    (rt.applyAcls request checksLive checksDb data acls current true).2 = true := by
  induction acls generalizing current with
  | nil => rfl
  | cons acl acls ih =>
    unfold Runtime.applyAcls
    split
    · dsimp only
      split
      · split
        · rfl
        · exact ih
      · exact ih
    · exact ih

/-- Without an ACL that is used the map is as it was. -/
theorem applyAcls_unapplied (acls : List Acl)
    (h : (rt.applyAcls request checksLive checksDb data acls current false).2 = false) :
    (rt.applyAcls request checksLive checksDb data acls current false).1 = current := by
  induction acls with
  | nil => rfl
  | cons acl acls ih =>
    unfold Runtime.applyAcls at h ⊢
    split at h
    · rename_i happlies
      rw [if_pos happlies]
      dsimp only at h ⊢
      split at h
      · split at h
        · cases h
        · rw [applyAcls_applied] at h
          cases h
      · rename_i hunused
        rw [if_neg hunused]
        exact ih h
    · rename_i hother
      rw [if_neg hother]
      exact ih h

/-- The map that is returned holds the entries that are kept. -/
theorem applyTicketAcl_holds {principal : Principal} (hmissing : principal.isMissing = false)
    (hroot : principal.isRoot = false) (acls : List Acl) (data : Table κ Text) :
    Holds data (rt.keeps request checksLive checksDb acls)
      (rt.applyTicketAcl request principal acls checksLive checksDb data) := by
  unfold Runtime.applyTicketAcl
  rw [hmissing, hroot, if_neg Bool.false_ne_true, if_neg Bool.false_ne_true]
  by_cases hempty : data.rows.isEmpty = true
  · rw [if_pos hempty]
    intro k v
    rw [List.isEmpty_iff.1 hempty]
    simp
  · rw [if_neg hempty]
    by_cases hnone : acls.isEmpty = true
    · rw [if_pos hnone, List.isEmpty_iff.1 hnone]
      exact Holds.start data
    · rw [if_neg hnone]
      have hall := applyAcls_holds rt request checksLive checksDb acls false (Holds.start data)
      dsimp only
      cases happlied : (rt.applyAcls request checksLive checksDb data acls data false).2 with
      | true => exact hall
      | false =>
        rw [applyAcls_unapplied rt request checksLive checksDb acls happlied] at hall
        exact hall

theorem Holds.find {keep : Text → Bool} (h : Holds data keep current) (k : κ) :
    current.find k = (data.find k).filter keep := by
  refine Option.ext fun v ↦ ?_
  rw [Table.find_eq_some, h k v, Option.filter_eq_some_iff, Table.find_eq_some]

/-- Each entry of the data is kept or dropped for itself, by the ACLs that have a say, and nothing
is added; so the parts of a map are filtered on their own. -/
theorem acl_filters_itemwise {principal : Principal} (hmissing : principal.isMissing = false)
    (hroot : principal.isRoot = false) (acls : List Acl) :
    (∀ data : Table κ Text, ∀ k,
      (rt.applyTicketAcl request principal acls checksLive checksDb data).find k =
        (data.find k).filter (rt.keeps request checksLive checksDb acls)) ∧
    (∀ data : Table κ Text, ∀ k v,
      (rt.applyTicketAcl request principal acls checksLive checksDb data).find k = some v →
        data.find k = some v) ∧
    ∀ whole part other : Table κ Text, (∀ k, part.find k = none ∨ other.find k = none) →
      (∀ k, whole.find k = (part.find k).or (other.find k)) → ∀ k,
      (rt.applyTicketAcl request principal acls checksLive checksDb whole).find k =
        ((rt.applyTicketAcl request principal acls checksLive checksDb part).find k).or
          ((rt.applyTicketAcl request principal acls checksLive checksDb other).find k) := by
  have hfind : ∀ data : Table κ Text, ∀ k,
      (rt.applyTicketAcl request principal acls checksLive checksDb data).find k =
        (data.find k).filter (rt.keeps request checksLive checksDb acls) := fun data k ↦
    (applyTicketAcl_holds rt request checksLive checksDb hmissing hroot acls data).find k
  refine ⟨hfind, fun data k v h ↦ ?_, fun whole part other hdisjoint hunion k ↦ ?_⟩
  · rw [hfind, Option.filter_eq_some_iff] at h
    exact h.1
  · rw [hfind, hfind, hfind, hunion]
    rcases hdisjoint k with hnone | hnone
    · rw [hnone, Option.none_or, Option.filter_none, Option.none_or]
    · rw [hnone, Option.or_none, Option.filter_none, Option.or_none]

section Sample

/-- A runtime whose patterns find nothing. -/
def plainRuntime : Runtime := ⟨fun _ _ _ ↦ some false, fun _ ↦ []⟩

def queues : Request := ⟨"Ticket".toList, "Queue".toList⟩

/-- An ACL without properties, which leaves only the raw queue. -/
def onlyRaw : Acl where
  stopAfterMatch := false
  configMatch := []
  configChange := [("Possible".toList,
    .dict [("Ticket".toList, .dict [("Queue".toList, .list [.scalar "Raw".toList])])])]

def agent : Principal := ⟨some 5, [], []⟩

def sampleQueues : Table ℕ Text := ⟨[(1, "Raw".toList), (2, "Junk".toList)], by decide⟩

theorem acl_filters_itemwise_sample :
    (plainRuntime.applyTicketAcl queues agent [onlyRaw] [] [] sampleQueues).find 2 =
        (sampleQueues.find 2).filter (plainRuntime.keeps queues [] [] [onlyRaw]) ∧
      (sampleQueues.find 2).filter (plainRuntime.keeps queues [] [] [onlyRaw]) = none :=
  ⟨(acl_filters_itemwise plainRuntime queues [] [] (by decide) (by decide) [onlyRaw]).1
    sampleQueues 2, by decide⟩

end Sample

end Filters

end Tiqora.Domain.Acl
