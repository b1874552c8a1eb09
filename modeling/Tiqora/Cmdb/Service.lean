import Tiqora.Cmdb.Propagation

namespace Tiqora.Cmdb

open Foundation

/-- The store after a call, and whether the propagation hit a cap and was left to the job. -/
abbrev Saved := Store × Bool

namespace Store

variable (s : Store)

def insertCi (row : CiRow) : Store where
  cis := s.cis.set s.nextCi (some row)
  links := s.links
  nextCi := s.nextCi + 1
  nextLink := s.nextLink
  firstCi := Nat.succ_pos _
  ciIds := by
    rintro ⟨id, row'⟩ hr
    rcases Table.mem_set.1 hr with ⟨hr, -⟩ | ⟨rfl, -⟩
    · exact ⟨(s.ciIds _ hr).1, Nat.lt_succ_of_lt (s.ciIds _ hr).2⟩
    · exact ⟨s.firstCi, Nat.lt_succ_self _⟩
  linkIds := s.linkIds
  ends r hr id hend := by
    obtain ⟨row', hrow⟩ := s.ends r hr id hend
    exact ⟨row', Table.mem_set.2 (.inl ⟨hrow, Nat.ne_of_lt (s.ciIds _ hrow).2⟩)⟩

def updateCi (id : ℕ) (f : CiRow → CiRow) : Store where
  cis := s.cis.update fun id' row ↦ if id' = id then f row else row
  links := s.links
  nextCi := s.nextCi
  firstCi := s.firstCi
  nextLink := s.nextLink
  ciIds := by
    rintro ⟨id', row⟩ hr
    obtain ⟨old, hold, -⟩ := Table.mem_update.1 hr
    exact s.ciIds (id', old) hold
  linkIds := s.linkIds
  ends r hr id' hend := by
    obtain ⟨row, hrow⟩ := s.ends r hr id' hend
    exact ⟨_, Table.mem_update.2 ⟨row, hrow, rfl⟩⟩

/-- A CI with the links that touch it. -/
def deleteCi (id : ℕ) : Store where
  cis := s.cis.delete fun r ↦ r.1 = id
  links := s.links.delete fun r ↦ r.2.source = .ci id || r.2.target = .ci id
  nextCi := s.nextCi
  firstCi := s.firstCi
  nextLink := s.nextLink
  ciIds r hr := s.ciIds r (Table.mem_delete.1 hr).1
  linkIds r hr := s.linkIds r (Table.mem_delete.1 hr).1
  ends r hr id' hend := by
    obtain ⟨hold, hnot⟩ := Table.mem_delete.1 hr
    obtain ⟨row, hrow⟩ := s.ends r hold id' hend
    refine ⟨row, Table.mem_delete.2 ⟨hrow, decide_eq_false ?_⟩⟩
    rintro rfl
    simp only [Bool.or_eq_false_iff, decide_eq_false_iff_not] at hnot
    exact hend.elim hnot.1 hnot.2

def deleteLink (id : ℕ) : Store where
  cis := s.cis
  links := s.links.delete fun r ↦ r.1 = id
  nextCi := s.nextCi
  firstCi := s.firstCi
  nextLink := s.nextLink
  ciIds := s.ciIds
  linkIds r hr := s.linkIds r (Table.mem_delete.1 hr).1
  ends r hr := s.ends r (Table.mem_delete.1 hr).1

def insertLink (row : LinkRow)
    (h : ∀ id, row.source = .ci id ∨ row.target = .ci id → s.cis.Has id) : Store where
  cis := s.cis
  links := s.links.set s.nextLink (some row)
  nextCi := s.nextCi
  firstCi := s.firstCi
  nextLink := s.nextLink + 1
  ciIds := s.ciIds
  linkIds := by
    rintro ⟨id, row'⟩ hr
    rcases Table.mem_set.1 hr with ⟨hr, -⟩ | ⟨rfl, -⟩
    · exact Nat.lt_succ_of_lt (s.linkIds _ hr)
    · exact Nat.lt_succ_self _
  ends := by
    rintro ⟨id, row'⟩ hr
    rcases Table.mem_set.1 hr with ⟨hr, -⟩ | ⟨-, heq⟩
    · exact s.ends _ hr
    · cases heq
      exact h

end Store

/-- `_recompute`: without CIs nothing is asked. -/
def recompute (cfg : Config) (s : Store) (ids : Finset ℕ) : Except CmdbError Saved :=
  (recomputeFrom cfg s ids).map fun r ↦ (r.1, r.2.deferred)

/-- A state is taken if it is a valid incident state, or the one that the CI has already. -/
def Config.checkState (cfg : Config) (id : ℕ) (keep : Option ℕ) : Bool :=
  (cfg.item id).any fun i ↦ i.incidentState && (i.valid || some id = keep)

/-- What a save reads besides the CI: `denied` and `invalid` are the checks before and after that of
the incident state. -/
structure CreateCall where
  incidentStateId : ℕ
  now : ℕ
  denied : Option CmdbError
  invalid : Option CmdbError

def createCi (cfg : Config) (s : Store) (call : CreateCall) (recomputes : Bool) :
    Except CmdbError Saved :=
  match call.denied with
  | some e => .error e
  | none =>
    if cfg.checkState call.incidentStateId none = false then .error .invalidValues
    else
      match call.invalid with
      | some e => .error e
      | none =>
        let row : CiRow :=
          { incidentStateId := call.incidentStateId
            curIncidentStateId := call.incidentStateId
            lockVersion := 1
            changedAt := call.now }
        if recomputes = true ∧ cfg.functionality call.incidentStateId = some "incident" then
          recompute cfg (s.insertCi row) {s.nextCi}
        else .ok (s.insertCi row, false)

/-- `unchanged` if name, deployment state and values stay as they are. -/
structure UpdateCall where
  expectedLockVersion : Option ℕ
  incidentStateId : Option ℕ
  unchanged : Bool
  now : ℕ
  denied : Option CmdbError
  invalid : Option CmdbError

/-- The derived state that an update writes, before anything is recomputed. -/
def patchedState (cfg : Config) (row : CiRow) (newInc : ℕ) : ℕ :=
  if newInc ≠ row.incidentStateId ∧
      (cfg.functionality newInc ≠ cfg.functionality row.incidentStateId ∨
        row.curIncidentStateId = row.incidentStateId) then newInc
  else row.curIncidentStateId

def updateCi (cfg : Config) (s : Store) (id : ℕ) (call : UpdateCall) (recomputes : Bool) :
    Except CmdbError Saved :=
  match s.cis.find id with
  | none => .error .notFound
  | some row =>
    match call.denied with
    | some e => .error e
    | none =>
      if call.expectedLockVersion.any (· ≠ row.lockVersion) then .error .conflict
      else
        let newInc := call.incidentStateId.getD row.incidentStateId
        if cfg.checkState newInc (some row.incidentStateId) = false then .error .invalidValues
        else
          match call.invalid with
          | some e => .error e
          | none =>
            if call.unchanged = true ∧ newInc = row.incidentStateId then .ok (s, false)
            else
              let s' := s.updateCi id fun row ↦
                { incidentStateId := newInc
                  curIncidentStateId := patchedState cfg row newInc
                  lockVersion := row.lockVersion + 1
                  changedAt := call.now }
              if recomputes = true ∧
                  cfg.functionality newInc ≠ cfg.functionality row.incidentStateId then
                recompute cfg s' {id}
              else .ok (s', false)

/-- The other CIs at the links of a CI. -/
def linkedCis (s : Store) (id : ℕ) : Finset ℕ :=
  ((s.linkRows.filter fun l ↦ l.source = .ci id || l.target = .ci id).flatMap fun l ↦
    [l.source, l.target].filterMap fun e ↦ e.ciId.filter (· ≠ id)).toFinset

def deleteCi (cfg : Config) (s : Store) (id : ℕ) (denied : Option CmdbError) :
    Except CmdbError Saved :=
  match s.cis.find id with
  | none => .error .notFound
  | some _ =>
    match denied with
    | some e => .error e
    | none => recompute cfg (s.deleteCi id) (linkedCis s id)

/-- The CIs whose link changed, if both ends are CIs and the type propagates. -/
def LinkRow.changedCis (l : LinkRow) (propagates : Bool) : Finset ℕ :=
  match propagates, l.source, l.target with
  | true, .ci a, .ci b => {a, b}
  | _, _, _ => ∅

/-- `present` tells whether an end that is not a CI is there; `denied` is the permission check. -/
structure LinkCall where
  source : LinkEnd
  target : LinkEnd
  linkType : String
  present : LinkEnd → Bool
  denied : Option CmdbError

def LinkEnd.number (e : LinkEnd) : ℕ :=
  match e with
  | .ci id => id
  | _ => 0

/-- An undirected link starts at its CI, between two CIs at the one with the smaller id. -/
def LinkCall.oriented (call : LinkCall) (pointed : Bool) : LinkRow :=
  let ciFirst := call.source.ciId.isSome &&
    (call.target.ciId.isNone || call.source.number ≤ call.target.number)
  if pointed || ciFirst then ⟨call.source, call.target, call.linkType⟩
  else ⟨call.target, call.source, call.linkType⟩

def LinkEnd.exists (s : Store) (call : LinkCall) (e : LinkEnd) : Bool :=
  match e with
  | .ci id => (s.cis.find id).isSome
  | e => call.present e

theorem LinkEnd.has_of_exists {s : Store} {call : LinkCall} {id : ℕ}
    (h : LinkEnd.exists s call (.ci id) = true) : s.cis.Has id := by
  obtain ⟨row, hrow⟩ := Option.isSome_iff_exists.1 h
  exact ⟨row, Table.find_eq_some.1 hrow⟩

def addLink (cfg : Config) (s : Store) (call : LinkCall) : Except CmdbError Saved :=
  if call.source = call.target then .error .linkInvalid
  else if call.source.ciId = none ∧ call.target.ciId = none then .error .linkInvalid
  else
    match (cfg.linkType call.linkType).filter (·.valid) with
    | none => .error .unknownLinkType
    | some type =>
      let row := call.oriented type.pointed
      if h : LinkEnd.exists s call row.source = true ∧ LinkEnd.exists s call row.target = true then
        match call.denied with
        | some e => .error e
        | none =>
          if row ∈ s.linkRows then .ok (s, false)
          else
            recompute cfg
              (s.insertLink row fun id hend ↦ by
                rcases hend with hend | hend
                · exact LinkEnd.has_of_exists (hend ▸ h.1)
                · exact LinkEnd.has_of_exists (hend ▸ h.2))
              (row.changedCis (type.propagation ≠ .none))
      else .error .notFound

def deleteLink (cfg : Config) (s : Store) (id : ℕ) (denied : Option CmdbError) :
    Except CmdbError Saved :=
  match s.links.find id with
  | none => .error .notFound
  | some row =>
    match denied with
    | some e => .error e
    | none =>
      let propagates := (cfg.linkType row.linkType).any (·.propagation ≠ .none)
      recompute cfg (s.deleteLink id) (row.changedCis propagates)

end Tiqora.Cmdb
