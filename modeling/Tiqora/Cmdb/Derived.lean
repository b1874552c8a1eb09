import Tiqora.Cmdb.Propagation

namespace Tiqora.Cmdb

open Foundation Relation

variable {cfg : Config} {s t : Store}

def Config.IsIncident (cfg : Config) (id : ℕ) : Prop := cfg.functionality id = some "incident"

instance (cfg : Config) (id : ℕ) : Decidable (cfg.IsIncident id) :=
  inferInstanceAs (Decidable (_ = _))

/-- Some CI in incident reaches this one over at least one edge. -/
def Store.Warned (cfg : Config) (s : Store) (id : ℕ) : Prop :=
  ∃ r ∈ s.cis.rows, cfg.IsIncident r.2.incidentStateId ∧ TransGen (s.Edge cfg) r.1 id

/-- The derived state that a CI should have. -/
structure Derived (cfg : Config) (s : Store) (id own cur : ℕ) : Prop where
  incident : cfg.IsIncident own → cur = own
  warned : ¬cfg.IsIncident own → s.Warned cfg id → cfg.warningId = some cur
  unwarned : ¬cfg.IsIncident own → ¬s.Warned cfg id → cur = own

def Store.Right (cfg : Config) (s : Store) : Prop :=
  ∀ r ∈ s.cis.rows, Derived cfg s r.1 r.2.incidentStateId r.2.curIncidentStateId

def Config.Known (cfg : Config) (id : ℕ) : Prop :=
  ∃ i, cfg.item id = some i ∧ i.incidentState = true

/-- Every CI has an incident state of the catalog. -/
def Store.Stated (cfg : Config) (s : Store) : Prop :=
  ∀ r ∈ s.cis.rows, cfg.Known r.2.incidentStateId

theorem item_mem {id : ℕ} {i : CatalogItem} (h : cfg.item id = some i) :
    i ∈ cfg.catalog ∧ i.id = id := by
  have hid := List.find?_some h
  rw [decide_eq_true_eq] at hid
  exact ⟨List.mem_of_find?_eq_some h, hid⟩

theorem mem_incidentIds {id : ℕ} (h : cfg.Known id) :
    id ∈ cfg.incidentIds ↔ cfg.IsIncident id := by
  obtain ⟨i, hi, hstate⟩ := h
  obtain ⟨hmem, hid⟩ := item_mem hi
  have hfunc : cfg.functionality id = i.functionality := by
    rw [Config.functionality, hi]
    rfl
  rw [Config.IsIncident, hfunc, Config.incidentIds]
  simp only [List.mem_map, List.mem_filter, Bool.and_eq_true, decide_eq_true_eq]
  constructor
  · rintro ⟨j, ⟨hj, -, hincident⟩, heq⟩
    have hji : j = i := List.inj_on_of_nodup_map cfg.ids hj hmem (heq.trans hid.symm)
    rw [← hji]
    exact hincident
  · exact fun hincident ↦ ⟨i, ⟨hmem, hstate, hincident⟩, hid⟩

theorem writeStates_self (s : Store) : s.writeStates (fun _ row ↦ row.curIncidentStateId) = s := by
  obtain ⟨⟨rows, hrows⟩, links, nextCi, nextLink, h₁, h₂, h₃, h₄⟩ := s
  simp [Store.writeStates, Table.update]

theorem mem_writeStates {want : ℕ → CiRow → ℕ} {id : ℕ} {row : CiRow} :
    (id, row) ∈ (s.writeStates want).cis.rows ↔
      ∃ old, (id, old) ∈ s.cis.rows ∧ row = { old with curIncidentStateId := want id old } :=
  Table.mem_update

/-- The own states and the stamps of the CIs, which a write of derived states leaves alone. -/
def Store.saves (s : Store) : List (ℕ × ℕ × ℕ) :=
  s.cis.rows.map fun r ↦ (r.1, r.2.incidentStateId, r.2.changedAt)

theorem saves_writeStates (s : Store) (want : ℕ → CiRow → ℕ) :
    (s.writeStates want).saves = s.saves := by
  simp only [Store.saves, Store.writeStates, Table.update, List.map_map]
  rfl

theorem edge_writeStates {want : ℕ → CiRow → ℕ} : (s.writeStates want).Edge cfg = s.Edge cfg := rfl

theorem warned_writeStates {want : ℕ → CiRow → ℕ} {id : ℕ} :
    (s.writeStates want).Warned cfg id ↔ s.Warned cfg id := by
  constructor
  · rintro ⟨⟨i, row⟩, hr, hincident, hpath⟩
    obtain ⟨old, hold, rfl⟩ := mem_writeStates.1 hr
    exact ⟨(i, old), hold, hincident, hpath⟩
  · rintro ⟨⟨i, row⟩, hr, hincident, hpath⟩
    exact ⟨(i, { row with curIncidentStateId := want i row }), mem_writeStates.2 ⟨row, hr, rfl⟩,
      hincident, hpath⟩

theorem Store.Stated.writeStates {want : ℕ → CiRow → ℕ} (h : s.Stated cfg) :
    (s.writeStates want).Stated cfg := by
  rintro ⟨id, row⟩ hr
  obtain ⟨old, hold, rfl⟩ := mem_writeStates.1 hr
  exact h (id, old) hold

theorem Derived.congr {id own cur : ℕ} (h : Derived cfg s id own cur)
    (hwarned : t.Warned cfg id ↔ s.Warned cfg id) : Derived cfg t id own cur :=
  ⟨h.incident, fun hown hw ↦ h.warned hown (hwarned.1 hw),
    fun hown hw ↦ h.unwarned hown fun hw' ↦ hw (hwarned.2 hw')⟩

/-- A write that gives every CI its derived state. -/
theorem right_writeStates {want : ℕ → CiRow → ℕ}
    (h : ∀ r ∈ s.cis.rows, Derived cfg s r.1 r.2.incidentStateId (want r.1 r.2)) :
    (s.writeStates want).Right cfg := by
  rintro ⟨id, row⟩ hr
  obtain ⟨old, hold, rfl⟩ := mem_writeStates.1 hr
  exact (h (id, old) hold).congr warned_writeStates

theorem Derived.unique {id own cur cur' : ℕ} (h : Derived cfg s id own cur)
    (h' : Derived cfg s id own cur') : cur = cur' := by
  by_cases hown : cfg.IsIncident own
  · rw [h.incident hown, h'.incident hown]
  · by_cases hw : s.Warned cfg id
    · exact Option.some.inj ((h.warned hown hw).symm.trans (h'.warned hown hw))
    · rw [h.unwarned hown hw, h'.unwarned hown hw]

theorem targetState_derived {id own : ℕ} {states : States} {warned : Finset ℕ}
    (hstates : cfg.states = .ok states) (hown : cfg.Known own)
    (hwarned : id ∈ warned ↔ s.Warned cfg id) :
    Derived cfg s id own (targetState id own states warned) := by
  rw [Config.states] at hstates
  split at hstates
  · rename_i w hw
    cases hstates
    rw [targetState]
    refine ⟨fun h ↦ if_pos ((mem_incidentIds hown).2 h), fun h hwarn ↦ ?_, fun h hwarn ↦ ?_⟩
    · rw [if_neg fun hin ↦ h ((mem_incidentIds hown).1 hin), if_pos (hwarned.2 hwarn), hw]
    · rw [if_neg fun hin ↦ h ((mem_incidentIds hown).1 hin),
        if_neg fun hin ↦ hwarn (hwarned.1 hin)]
  · cases hstates

theorem mem_incidentWithin {states : States} (hstates : cfg.states = .ok states)
    (hs : s.Stated cfg) {within : Finset ℕ} {id : ℕ} :
    id ∈ s.incidentWithin states within ↔
      id ∈ within ∧ ∃ r ∈ s.cis.rows, r.1 = id ∧ cfg.IsIncident r.2.incidentStateId := by
  have hids : states.incidentIds = cfg.incidentIds := by
    rw [Config.states] at hstates
    split at hstates
    · cases hstates
      rfl
    · cases hstates
  simp only [Store.incidentWithin, List.mem_toFinset, List.mem_map, List.mem_filter,
    Bool.and_eq_true, decide_eq_true_eq, hids]
  constructor
  · rintro ⟨r, ⟨hr, hin, hincident⟩, rfl⟩
    exact ⟨hin, r, hr, rfl, (mem_incidentIds (hs r hr)).1 hincident⟩
  · rintro ⟨hin, r, hr, rfl, hincident⟩
    exact ⟨r, ⟨hr, hin, (mem_incidentIds (hs r hr)).2 hincident⟩, rfl⟩

/-- What the pass of one save writes: the derived states of all that the seeds reach. -/
theorem recomputeFrom_spec {seeds : Finset ℕ} {n : ℕ} (hs : s.Stated cfg)
    (h : recomputeFrom cfg s seeds = .ok (t, ⟨n, false⟩)) :
    ∃ want, t = s.writeStates want ∧ ∀ r ∈ s.cis.rows,
      ((∃ seed ∈ seeds, ReflTransGen (s.Edge cfg) seed r.1) →
        Derived cfg s r.1 r.2.incidentStateId (want r.1 r.2)) ∧
      ((¬∃ seed ∈ seeds, ReflTransGen (s.Edge cfg) seed r.1) →
        want r.1 r.2 = r.2.curIncidentStateId) := by
  rw [recomputeFrom] at h
  split at h
  · rename_i hempty
    cases h
    refine ⟨_, (writeStates_self s).symm, fun r _ ↦ ⟨?_, fun _ ↦ rfl⟩⟩
    rintro ⟨seed, hseed, -⟩
    rw [hempty] at hseed
    exact absurd hseed (Finset.notMem_empty _)
  · cases hstates : cfg.states with
    | error e =>
      rw [hstates] at h
      cases h
    | ok states =>
      simp only [hstates, Except.bind] at h
      split at h
      · cases h
      rename_i g scope hforward
      split at h
      · cases h
      rename_i g' within hback
      obtain ⟨hscope, -⟩ := search_explored hforward
      obtain ⟨hwithin, -⟩ := search_explored hback
      have ht := (Prod.mk.inj (Except.ok.inj h)).1
      refine ⟨_, ht.symm, fun r hr ↦ ?_⟩
      have hmem : r.1 ∈ scope ↔ ∃ seed ∈ seeds, ReflTransGen (s.Edge cfg) seed r.1 :=
        hscope.mem_iff
      rw [← hmem]
      constructor
      · intro hin
        rw [if_pos hin]
        refine targetState_derived hstates (hs r hr) ?_
        rw [mem_enteredWithin_of_predecessors hwithin.expanded
          (fun u v huv hv ↦ hwithin.closed v hv u huv) (hwithin.start_subset hin)]
        constructor
        · rintro ⟨i, hi, hpath⟩
          obtain ⟨-, r', hr', rfl, hincident⟩ := (mem_incidentWithin hstates hs).1 hi
          exact ⟨r', hr', hincident, hpath⟩
        · rintro ⟨r', hr', hincident, hpath⟩
          refine ⟨r'.1, (mem_incidentWithin hstates hs).2 ⟨?_, r', hr', rfl, hincident⟩, hpath⟩
          exact mem_of_predecessors (fun u v huv hv ↦ hwithin.closed v hv u huv) hpath
            (hwithin.start_subset hin)
      · intro hout
        exact if_neg hout

theorem writeStates_of_eq {want : ℕ → CiRow → ℕ}
    (h : ∀ r ∈ s.cis.rows, want r.1 r.2 = r.2.curIncidentStateId) : s.writeStates want = s := by
  have hrows : (s.writeStates want).cis.rows =
      (s.writeStates fun _ row ↦ row.curIncidentStateId).cis.rows := by
    refine List.map_congr_left fun r hr ↦ ?_
    dsimp only
    rw [h r hr]
  calc s.writeStates want = s.writeStates fun _ row ↦ row.curIncidentStateId := by
        simp only [Store.writeStates, Table.update, Store.mk.injEq, Table.mk.injEq, and_true] at *
        exact hrows
    _ = s := writeStates_self s

/-- A picture is right about who is warned. -/
theorem takePicture_spec {picture : Picture} (hs : s.Stated cfg)
    (h : takePicture cfg s = .ok picture) :
    cfg.states = .ok picture.states ∧ picture.watermark = newestSave s ∧
      picture.links = linkMark s ∧ ∀ id, id ∈ picture.warned ↔ s.Warned cfg id := by
  rw [takePicture] at h
  cases hstates : cfg.states with
  | error e =>
    rw [hstates] at h
    cases h
  | ok states =>
    rw [hstates] at h
    have hpicture := (Except.ok.inj h).symm
    dsimp only at hpicture
    obtain ⟨r, hr⟩ : ∃ r, search ⟨none, none⟩ false (.empty (graph cfg s.linkRows))
        (s.incidentWithin states ((s.cis.rows.map (·.1)).toFinset)) = some r :=
      search_uncapped _ _
    obtain ⟨g, reach⟩ := r
    obtain ⟨hreach, -⟩ := search_explored hr
    have hfull : fullReach cfg s (s.incidentWithin states ((s.cis.rows.map (·.1)).toFinset)) =
        (g, reach) := by
      rw [fullReach, hr]
      rfl
    rw [hfull] at hpicture
    subst hpicture
    refine ⟨rfl, rfl, rfl, fun id ↦ ?_⟩
    dsimp only
    rw [mem_enteredWithin_of_successors hreach.expanded hreach.start_subset hreach.closed]
    constructor
    · rintro ⟨i, hi, hpath⟩
      obtain ⟨-, r', hr', rfl, hincident⟩ := (mem_incidentWithin hstates hs).1 hi
      exact ⟨r', hr', hincident, hpath⟩
    · rintro ⟨r', hr', hincident, hpath⟩
      refine ⟨r'.1, (mem_incidentWithin hstates hs).2 ⟨?_, r', hr', rfl, hincident⟩, hpath⟩
      exact List.mem_toFinset.2 (List.mem_map_of_mem hr')

/-- A right store is what every batch would write. -/
theorem writeBatch_of_right {picture : Picture} {ids : List ℕ} (hs : s.Stated cfg)
    (hright : s.Right cfg) (hstates : cfg.states = .ok picture.states)
    (hwarned : ∀ id, id ∈ picture.warned ↔ s.Warned cfg id) : writeBatch s picture ids = s := by
  refine writeStates_of_eq fun r hr ↦ ?_
  split
  · exact (targetState_derived hstates (hs r hr) (hwarned r.1)).unique (hright r hr)
  · rfl

theorem passBatches_of_right {picture : Picture} (last : ℕ) (hs : s.Stated cfg)
    (hright : s.Right cfg) (hstates : cfg.states = .ok picture.states)
    (hwarned : ∀ id, id ∈ picture.warned ↔ s.Warned cfg id) :
    (passBatches picture s last).1 = s := by
  induction s, last using passBatches.induct picture with
  | case1 s last hids =>
    rw [passBatches]
    split
    · rfl
    · rename_i heq
      cases hids.symm.trans heq
  | case2 s last next hids ih =>
    rw [passBatches]
    split
    · rfl
    · rename_i heq
      cases hids.symm.trans heq
      rw [writeBatch_of_right hs hright hstates hwarned] at ih ⊢
      exact ih hs hright hwarned

theorem recomputePass_of_right (hs : s.Stated cfg) (hright : s.Right cfg) :
    ∃ saved, recomputePass cfg s = cfg.states.map fun _ ↦ (s, saved) := by
  cases hpicture : takePicture cfg s with
  | error e =>
    refine ⟨false, ?_⟩
    rw [recomputePass, hpicture]
    cases hstates : cfg.states with
    | error e' =>
      rw [takePicture, hstates] at hpicture
      cases hpicture
      rfl
    | ok states =>
      rw [takePicture, hstates] at hpicture
      cases hpicture
  | ok picture =>
    obtain ⟨hstates, -, -, hwarned⟩ := takePicture_spec hs hpicture
    have hbatches := passBatches_of_right 0 hs hright hstates hwarned
    rw [recomputePass, hpicture, hstates]
    refine ⟨_, congrArg Except.ok (Prod.ext ?_ rfl)⟩
    exact hbatches

/-- On right data the full recompute changes nothing. -/
theorem recomputeAll_of_right (hs : s.Stated cfg) (hright : s.Right cfg) (passes : ℕ) :
    recomputeAll cfg (passes + 1) s = cfg.states.map fun _ ↦ s := by
  obtain ⟨saved, hpass⟩ := recomputePass_of_right hs hright
  induction passes with
  | zero =>
    rw [recomputeAll, hpass]
    cases cfg.states <;> cases saved <;> rfl
  | succ passes ih =>
    rw [recomputeAll, hpass]
    cases hstates : cfg.states with
    | error e => rfl
    | ok states =>
      rw [hstates] at ih
      cases saved with
      | false => rfl
      | true => exact ih

end Tiqora.Cmdb
