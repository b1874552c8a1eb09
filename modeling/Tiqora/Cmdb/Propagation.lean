import Tiqora.Cmdb.Links

namespace Tiqora.Cmdb

open Foundation Relation

inductive CmdbError
  | notFound | forbidden | conflict | invalidValues | unknownAttributes | linkInvalid
  | unknownLinkType | catalogMisconfigured
  deriving DecidableEq

structure PropagationResult where
  updated : ℕ
  deferred : Bool
  deriving DecidableEq

/-- The incident states and the warning state of the catalog; without the latter an error. -/
def Config.states (cfg : Config) : Except CmdbError States :=
  match cfg.warningId with
  | some warningId => .ok ⟨cfg.incidentIds, warningId⟩
  | none => .error .catalogMisconfigured

def maxDepth : ℕ := 50

def targetState (id own : ℕ) (states : States) (warned : Finset ℕ) : ℕ :=
  if own ∈ states.incidentIds then own else if id ∈ warned then states.warningId else own

namespace Store

variable (s : Store)

/-- The ids among `within` of the CIs that are in incident themselves. -/
def incidentWithin (states : States) (within : Finset ℕ) : Finset ℕ :=
  ((s.cis.rows.filter fun r ↦ r.1 ∈ within && r.2.incidentStateId ∈ states.incidentIds).map
    (·.1)).toFinset

/-- An `UPDATE` of the derived states. -/
def writeStates (want : ℕ → CiRow → ℕ) : Store where
  cis := s.cis.update fun id row ↦ { row with curIncidentStateId := want id row }
  links := s.links
  nextCi := s.nextCi
  firstCi := s.firstCi
  nextLink := s.nextLink
  ciIds := by
    rintro ⟨id, row⟩ hr
    obtain ⟨old, hold, -⟩ := Table.mem_update.1 hr
    exact s.ciIds (id, old) hold
  linkIds := s.linkIds
  ends r hr id hend := by
    obtain ⟨row, hrow⟩ := s.ends r hr id hend
    exact ⟨_, Table.mem_update.2 ⟨row, hrow, rfl⟩⟩

end Store

/-- The derived state of the seeds and of everything that they affect; with a cap hit nothing is
written. -/
def recomputeFrom (cfg : Config) (s : Store) (seeds : Finset ℕ) :
    Except CmdbError (Store × PropagationResult) :=
  if seeds = ∅ then .ok (s, ⟨0, false⟩)
  else
    let caps : SearchCaps := ⟨some cfg.propagationNodeCap, some maxDepth⟩
    cfg.states.bind fun states ↦
      match search caps false (.empty (graph cfg s.linkRows)) seeds with
      | none => .ok (s, ⟨0, true⟩)
      | some (g, scope) =>
        match search caps true g scope with
        | none => .ok (s, ⟨0, true⟩)
        | some (g, within) =>
          let warned := enteredWithin g within (s.incidentWithin states within)
          let want := fun id (row : CiRow) ↦
            if id ∈ scope then targetState id row.incidentStateId states warned
            else row.curIncidentStateId
          let changed := s.cis.rows.filter fun r ↦ want r.1 r.2 ≠ r.2.curIncidentStateId
          .ok (s.writeStates want, ⟨changed.length, false⟩)

section FullRecompute

/-- What a pass reads at its start: the newest save, the mark of the link table and who is warned.
Link types and catalog are fixed here. -/
structure Picture where
  watermark : Option ℕ
  links : ℕ × ℕ
  states : States
  warned : Finset ℕ

def newestSave (s : Store) : Option ℕ := (s.cis.rows.map (·.2.changedAt)).max?

/-- `(count, max id)` of the link table. -/
def linkMark (s : Store) : ℕ × ℕ :=
  (s.links.rows.length, ((s.links.rows.map (·.1)).max?).getD 0)

/-- The search of a full pass has no caps, so that it always ends. -/
def fullReach (cfg : Config) (s : Store) (incident : Finset ℕ) :
    (graph cfg s.linkRows).Loaded × Finset ℕ :=
  (search ⟨none, none⟩ false (.empty (graph cfg s.linkRows)) incident).getD (.empty _, ∅)

def takePicture (cfg : Config) (s : Store) : Except CmdbError Picture :=
  cfg.states.map fun states ↦
    let incident := s.incidentWithin states ((s.cis.rows.map (·.1)).toFinset)
    let (g, reach) := fullReach cfg s incident
    ⟨newestSave s, linkMark s, states, enteredWithin g reach incident⟩

/-- `changed_at > watermark`; without a watermark no CI counts as saved. -/
def savedAfter (picture : Picture) (row : CiRow) : Bool :=
  picture.watermark.any fun w ↦ w < row.changedAt

def batchSize : ℕ := 1000

/-- The ids of the next batch. -/
def batchIds (s : Store) (last : ℕ) : List ℕ :=
  (((s.cis.rows.map (·.1)).filter (last < ·)).insertionSort (· ≤ ·)).take batchSize

/-- One batch; a CI that was saved since the pass began is left alone. -/
def writeBatch (s : Store) (picture : Picture) (ids : List ℕ) : Store :=
  s.writeStates fun id row ↦
    if id ∈ ids ∧ savedAfter picture row = false then
      targetState id row.incidentStateId picture.states picture.warned
    else row.curIncidentStateId

def batchSaw (s : Store) (picture : Picture) (ids : List ℕ) : Bool :=
  s.cis.rows.any fun r ↦ r.1 ∈ ids && savedAfter picture r.2

/-- Whether something was saved since the pass began; without a watermark, whether there is a CI. -/
def savedSince (s : Store) (picture : Picture) : Bool :=
  match picture.watermark with
  | some w => s.cis.rows.any fun r ↦ w < r.2.changedAt
  | none => s.cis.rows ≠ []

theorem writeStates_keys (s : Store) (want : ℕ → CiRow → ℕ) :
    (s.writeStates want).cis.rows.map (·.1) = s.cis.rows.map (·.1) := by
  simp only [Store.writeStates, Table.update, List.map_map]
  rfl

theorem mem_batchIds {s : Store} {last id : ℕ} (h : id ∈ batchIds s last) :
    id ∈ s.cis.rows.map (·.1) ∧ last < id := by
  have h := List.mem_of_mem_take h
  rw [List.mem_insertionSort, List.mem_filter, decide_eq_true_eq] at h
  exact h

/-- A batch leaves fewer CIs to come. -/
theorem rest_lt {s : Store} {picture : Picture} {last next : ℕ}
    (h : (batchIds s last).getLast? = some next) :
    (((writeBatch s picture (batchIds s last)).cis.rows.map (·.1)).filter (next < ·)).length <
      ((s.cis.rows.map (·.1)).filter (last < ·)).length := by
  obtain ⟨hmem, hlt⟩ := mem_batchIds (List.mem_of_getLast? h)
  rw [writeBatch, writeStates_keys]
  have hsplit : (s.cis.rows.map (·.1)).filter (next < ·) =
      ((s.cis.rows.map (·.1)).filter (last < ·)).filter (next < ·) := by
    rw [List.filter_filter]
    refine List.filter_congr fun id _ ↦ ?_
    rw [eq_comm, Bool.and_eq_left_iff_imp]
    intro hid
    exact decide_eq_true (hlt.trans (of_decide_eq_true hid))
  rw [hsplit, List.length_filter_lt_length_iff_exists]
  refine ⟨next, List.mem_filter.2 ⟨hmem, decide_eq_true hlt⟩, ?_⟩
  simp only [decide_eq_true_eq]
  exact Nat.lt_irrefl next

/-- The batches of a pass that nothing interrupts, and whether one of them met a saved CI. -/
def passBatches (picture : Picture) (s : Store) (last : ℕ) : Store × Bool :=
  match _h : (batchIds s last).getLast? with
  | none => (s, false)
  | some next =>
    let rest := passBatches picture (writeBatch s picture (batchIds s last)) next
    (rest.1, batchSaw s picture (batchIds s last) || rest.2)
termination_by ((s.cis.rows.map (·.1)).filter (last < ·)).length
decreasing_by exact rest_lt _h

def maxPasses : ℕ := 3

/-- One full pass, and whether something was saved while it ran. -/
def recomputePass (cfg : Config) (s : Store) : Except CmdbError (Store × Bool) :=
  (takePicture cfg s).map fun picture ↦
    let (t, saw) := passBatches picture s 0
    (t, saw || savedSince t picture || linkMark t ≠ picture.links)

/-- The full recompute on a store that nobody else writes. -/
def recomputeAll (cfg : Config) : ℕ → Store → Except CmdbError Store
  | 0, s => .ok s
  | passes + 1, s =>
    (recomputePass cfg s).bind fun (t, saved) ↦ if saved then recomputeAll cfg passes t else .ok t

end FullRecompute

end Tiqora.Cmdb
