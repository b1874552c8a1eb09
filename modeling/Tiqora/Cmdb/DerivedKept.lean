import Tiqora.Foundation.Machine
import Tiqora.Cmdb.Derived
import Tiqora.Cmdb.Service

namespace Tiqora.Cmdb

open Foundation Relation

variable {cfg : Config} {s s' t : Store} {deferred : Bool}

/-- Both ends of an edge are CIs that are there. -/
theorem has_of_edge {u v : ℕ} (h : s.Edge cfg u v) : s.cis.Has u ∧ s.cis.Has v := by
  obtain ⟨r, hr, l, hl, he⟩ := Store.edge_iff.1 h
  rw [LinkRow.ciLink] at hl
  split at hl
  · rename_i a b ha hb
    cases hl
    have hends := s.ends r hr
    rcases (mem_edgesOf he).2 with heq | heq <;> cases heq
    · exact ⟨hends _ (.inl ha), hends _ (.inr hb)⟩
    · exact ⟨hends _ (.inr hb), hends _ (.inl ha)⟩
  · cases hl

/-- A warning is kept where nothing that changed reaches. -/
theorem warned_of_lost {seeds : Set ℕ} {w : ℕ}
    (hlost : ∀ u v, s.Edge cfg u v → ¬s'.Edge cfg u v → v ∈ seeds)
    (hstill : ∀ r ∈ s.cis.rows, cfg.IsIncident r.2.incidentStateId → r.1 ∉ seeds →
      ∃ r' ∈ s'.cis.rows, r'.1 = r.1 ∧ cfg.IsIncident r'.2.incidentStateId)
    (hw : ∀ x ∈ seeds, ¬ReflTransGen (s'.Edge cfg) x w) (h : s.Warned cfg w) :
    s'.Warned cfg w := by
  obtain ⟨r, hr, hincident, hpath⟩ := h
  have hpath' := transGen_of_lost hlost hw hpath
  obtain ⟨r', hr', heq, hincident'⟩ :=
    hstill r hr hincident fun hin ↦ hw _ hin hpath'.to_reflTransGen
  exact ⟨r', hr', hincident', heq ▸ hpath'⟩

/-- A warning was there before where nothing that changed reaches. -/
theorem warned_of_gained {seeds : Set ℕ} {w : ℕ}
    (hgained : ∀ u v, s'.Edge cfg u v → ¬s.Edge cfg u v → v ∈ seeds)
    (hbefore : ∀ r' ∈ s'.cis.rows, cfg.IsIncident r'.2.incidentStateId → r'.1 ∉ seeds →
      ∃ r ∈ s.cis.rows, r.1 = r'.1 ∧ cfg.IsIncident r.2.incidentStateId)
    (hw : ∀ x ∈ seeds, ¬ReflTransGen (s'.Edge cfg) x w) (h : s'.Warned cfg w) :
    s.Warned cfg w := by
  obtain ⟨r', hr', hincident, hpath⟩ := h
  obtain ⟨r, hr, heq, hincident'⟩ :=
    hbefore r' hr' hincident fun hin ↦ hw _ hin hpath.to_reflTransGen
  exact ⟨r, hr, hincident', heq ▸ transGen_of_gained hgained hw hpath⟩

/-- Every CI has the derived state of the new store, or the seeds do not reach it. -/
theorem recompute_rows {seeds : Finset ℕ} (hs : s.Stated cfg)
    (h : recompute cfg s seeds = .ok (t, false)) :
    ∃ want, t = s.writeStates want ∧ ∀ r ∈ s.cis.rows,
      Derived cfg s r.1 r.2.incidentStateId (want r.1 r.2) ∨
        want r.1 r.2 = r.2.curIncidentStateId ∧
          ∀ x ∈ seeds, ¬ReflTransGen (s.Edge cfg) x r.1 := by
  rw [recompute] at h
  cases hfrom : recomputeFrom cfg s seeds with
  | error e =>
    rw [hfrom] at h
    cases h
  | ok r =>
    obtain ⟨u, n, d⟩ := r
    rw [hfrom] at h
    cases h
    obtain ⟨want, ht, hwant⟩ := recomputeFrom_spec hs hfrom
    refine ⟨want, ht, fun r hr ↦ ?_⟩
    by_cases hreach : ∃ x ∈ seeds, ReflTransGen (s.Edge cfg) x r.1
    · exact .inl ((hwant r hr).1 hreach)
    · exact .inr ⟨(hwant r hr).2 hreach, fun x hx hpath ↦ hreach ⟨x, hx, hpath⟩⟩

theorem recompute_right {seeds : Finset ℕ} (hs : s.Stated cfg)
    (hout : ∀ r ∈ s.cis.rows, (∀ x ∈ seeds, ¬ReflTransGen (s.Edge cfg) x r.1) →
      Derived cfg s r.1 r.2.incidentStateId r.2.curIncidentStateId)
    (h : recompute cfg s seeds = .ok (t, false)) : t.Right cfg ∧ t.Stated cfg := by
  obtain ⟨want, rfl, hwant⟩ := recompute_rows hs h
  refine ⟨right_writeStates fun r hr ↦ ?_, hs.writeStates⟩
  rcases hwant r hr with hright | ⟨heq, hunreached⟩
  · exact hright
  · rw [heq]
    exact hout r hr hunreached

section Create

variable {row : CiRow}

theorem mem_insertCi {id : ℕ} {row' : CiRow} :
    (id, row') ∈ (s.insertCi row).cis.rows ↔
      ((id, row') ∈ s.cis.rows ∧ id ≠ s.nextCi) ∨ (id = s.nextCi ∧ some row = some row') :=
  Table.mem_set

theorem edge_insertCi : (s.insertCi row).Edge cfg = s.Edge cfg := rfl

/-- A new CI has no links. -/
theorem insertCi_isolated {u v : ℕ} (h : s.Edge cfg u v) : u ≠ s.nextCi ∧ v ≠ s.nextCi := by
  obtain ⟨⟨row, hu⟩, row', hv⟩ := has_of_edge h
  exact ⟨Nat.ne_of_lt (s.ciIds _ hu).2, Nat.ne_of_lt (s.ciIds _ hv).2⟩

theorem warned_insertCi {id : ℕ} : (s.insertCi row).Warned cfg id ↔ s.Warned cfg id := by
  constructor
  · rintro ⟨⟨i, row'⟩, hr, hincident, hpath⟩
    rcases mem_insertCi.1 hr with ⟨hr, -⟩ | ⟨rfl, -⟩
    · exact ⟨(i, row'), hr, hincident, hpath⟩
    · obtain ⟨v, hstep, -⟩ := TransGen.head'_iff.1 hpath
      have hedge : s.Edge cfg s.nextCi v := hstep
      exact absurd rfl (insertCi_isolated hedge).1
  · rintro ⟨⟨i, row'⟩, hr, hincident, hpath⟩
    exact ⟨(i, row'), mem_insertCi.2 (.inl ⟨hr, Nat.ne_of_lt (s.ciIds _ hr).2⟩), hincident, hpath⟩

theorem insertCi_right (hright : s.Right cfg)
    (hrow : row.curIncidentStateId = row.incidentStateId) : (s.insertCi row).Right cfg := by
  rintro ⟨id, row'⟩ hr
  rcases mem_insertCi.1 hr with ⟨hr, -⟩ | ⟨rfl, heq⟩
  · exact (hright _ hr).congr warned_insertCi
  · cases heq
    refine ⟨fun _ ↦ hrow, fun _ hwarned ↦ ?_, fun _ _ ↦ hrow⟩
    obtain ⟨r, -, -, hpath⟩ := warned_insertCi.1 hwarned
    obtain ⟨u, -, hstep⟩ := TransGen.tail'_iff.1 hpath
    exact absurd rfl (insertCi_isolated hstep).2

theorem insertCi_stated (hs : s.Stated cfg) (hknown : cfg.Known row.incidentStateId) :
    (s.insertCi row).Stated cfg := by
  rintro ⟨id, row'⟩ hr
  rcases mem_insertCi.1 hr with ⟨hr, -⟩ | ⟨rfl, heq⟩
  · exact hs _ hr
  · cases heq
    exact hknown

end Create

theorem known_of_checkState {id : ℕ} {keep : Option ℕ} (h : ¬cfg.checkState id keep = false) :
    cfg.Known id := by
  rw [Bool.not_eq_false, Config.checkState, Option.any_eq_true] at h
  obtain ⟨i, hi, hstate⟩ := h
  exact ⟨i, hi, (Bool.and_eq_true_iff.1 hstate).1⟩

theorem createCi_spec {call : CreateCall} (h : createCi cfg s call true = .ok (t, false)) :
    ∃ row : CiRow, cfg.Known row.incidentStateId ∧ row.curIncidentStateId = row.incidentStateId ∧
      row.changedAt = call.now ∧
      (t = s.insertCi row ∨ recompute cfg (s.insertCi row) {s.nextCi} = .ok (t, false)) := by
  rw [createCi] at h
  split at h
  · cases h
  split at h
  · cases h
  rename_i hcheck
  split at h
  · cases h
  refine ⟨⟨call.incidentStateId, call.incidentStateId, 1, call.now⟩, known_of_checkState hcheck,
    rfl, rfl, ?_⟩
  dsimp only at h
  split at h
  · exact .inr h
  · cases h
    exact .inl rfl

theorem createCi_right {call : CreateCall} (hs : s.Stated cfg) (hright : s.Right cfg)
    (h : createCi cfg s call true = .ok (t, false)) : t.Right cfg ∧ t.Stated cfg := by
  obtain ⟨row, hknown, hcur, -, hstep⟩ := createCi_spec h
  have hnew := insertCi_right hright hcur
  have hs' := insertCi_stated hs hknown
  rcases hstep with rfl | hstep
  · exact ⟨hnew, hs'⟩
  · exact recompute_right hs' (fun r hr _ ↦ hnew r hr) hstep

section Update

variable {id : ℕ} {f : CiRow → CiRow}

theorem mem_updateCi {id' : ℕ} {row : CiRow} :
    (id', row) ∈ (s.updateCi id f).cis.rows ↔
      ∃ old, (id', old) ∈ s.cis.rows ∧ row = if id' = id then f old else old := Table.mem_update

theorem edge_updateCi : (s.updateCi id f).Edge cfg = s.Edge cfg := rfl

theorem updateCi_stated (hs : s.Stated cfg) (hf : ∀ row, cfg.Known (f row).incidentStateId) :
    (s.updateCi id f).Stated cfg := by
  rintro ⟨id', row⟩ hr
  obtain ⟨old, hold, rfl⟩ := mem_updateCi.1 hr
  dsimp only
  split
  · exact hf old
  · exact hs _ hold

/-- A CI whose own state changes leaves alone what it does not reach. -/
theorem warned_updateCi_of_unreached {w : ℕ} (hw : ¬ReflTransGen (s.Edge cfg) id w) :
    (s.updateCi id f).Warned cfg w ↔ s.Warned cfg w := by
  constructor
  · rintro ⟨⟨i, row⟩, hr, hincident, hpath⟩
    obtain ⟨old, hold, rfl⟩ := mem_updateCi.1 hr
    have hne : i ≠ id := by
      rintro rfl
      exact hw hpath.to_reflTransGen
    rw [if_neg hne] at hincident
    exact ⟨(i, old), hold, hincident, hpath⟩
  · rintro ⟨⟨i, row⟩, hr, hincident, hpath⟩
    have hne : i ≠ id := by
      rintro rfl
      exact hw hpath.to_reflTransGen
    exact ⟨(i, row), mem_updateCi.2 ⟨row, hr, (if_neg hne).symm⟩, hincident, hpath⟩

/-- If its functionality stays, nobody's warning changes. -/
theorem warned_updateCi_of_same {w : ℕ}
    (hsame : ∀ row, (id, row) ∈ s.cis.rows →
      (cfg.IsIncident (f row).incidentStateId ↔ cfg.IsIncident row.incidentStateId)) :
    (s.updateCi id f).Warned cfg w ↔ s.Warned cfg w := by
  constructor
  · rintro ⟨⟨i, row⟩, hr, hincident, hpath⟩
    obtain ⟨old, hold, rfl⟩ := mem_updateCi.1 hr
    refine ⟨(i, old), hold, ?_, hpath⟩
    dsimp only at hincident
    split at hincident
    · rename_i heq
      exact (hsame old (heq ▸ hold)).1 hincident
    · exact hincident
  · rintro ⟨⟨i, row⟩, hr, hincident, hpath⟩
    refine ⟨(i, if i = id then f row else row), mem_updateCi.2 ⟨row, hr, rfl⟩, ?_, hpath⟩
    dsimp only
    split
    · rename_i heq
      exact (hsame row (heq ▸ hr)).2 hincident
    · exact hincident

/-- The update is carried out. -/
def UpdateCall.accepted (cfg : Config) (call : UpdateCall) (row : CiRow) : Bool :=
  call.denied.isNone && !call.expectedLockVersion.any (· ≠ row.lockVersion) &&
    cfg.checkState (call.incidentStateId.getD row.incidentStateId) (some row.incidentStateId) &&
    call.invalid.isNone

/-- A warned CI is moved from the state that stands for the warning to another of the same
functionality. -/
def CoversWarning (cfg : Config) (s : Store) (id : ℕ) (call : UpdateCall) : Prop :=
  ∃ row, s.cis.find id = some row ∧ call.accepted cfg row = true ∧
    cfg.warningId = some row.incidentStateId ∧ s.Warned cfg id ∧
    ∃ newInc, call.incidentStateId = some newInc ∧ newInc ≠ row.incidentStateId ∧
      cfg.functionality newInc = cfg.functionality row.incidentStateId

theorem updateCi_spec {call : UpdateCall} (h : updateCi cfg s id call true = .ok (t, false)) :
    ∃ row newInc, s.cis.find id = some row ∧ call.accepted cfg row = true ∧
      newInc = call.incidentStateId.getD row.incidentStateId ∧ cfg.Known newInc ∧
      (t = s ∧ newInc = row.incidentStateId ∨ ∃ f : CiRow → CiRow, (∀ r, (f r).incidentStateId = newInc ∧
          (f r).curIncidentStateId = patchedState cfg r newInc ∧ (f r).changedAt = call.now) ∧
        (cfg.functionality newInc ≠ cfg.functionality row.incidentStateId ∧
            recompute cfg (s.updateCi id f) {id} = .ok (t, false) ∨
          cfg.functionality newInc = cfg.functionality row.incidentStateId ∧
            t = s.updateCi id f)) := by
  rw [updateCi] at h
  split at h
  · cases h
  rename_i row hrow
  split at h
  · cases h
  rename_i hdenied
  split at h
  · cases h
  rename_i hlock
  dsimp only at h
  split at h
  · cases h
  rename_i hcheck
  split at h
  · cases h
  rename_i hinvalid
  refine ⟨row, _, hrow, ?_, rfl, known_of_checkState hcheck, ?_⟩
  · rw [UpdateCall.accepted, hdenied, hinvalid, Bool.eq_false_iff.2 hlock,
      Bool.of_not_eq_false hcheck]
    rfl
  split at h
  · rename_i hsame
    cases h
    exact .inl ⟨rfl, hsame.2⟩
  right
  split at h
  · rename_i hfunc
    exact ⟨_, fun _ ↦ ⟨rfl, rfl, rfl⟩, .inl ⟨hfunc.2, h⟩⟩
  · rename_i hfunc
    cases h
    exact ⟨_, fun _ ↦ ⟨rfl, rfl, rfl⟩, .inr ⟨not_not.1 fun hne ↦ hfunc ⟨rfl, hne⟩, rfl⟩⟩

/-- What an update writes beside the recompute is right unless it covers a warning. -/
theorem patchedState_derived {row : CiRow} {newInc : ℕ}
    (hfunc : cfg.functionality newInc = cfg.functionality row.incidentStateId)
    (hrow : Derived cfg s id row.incidentStateId row.curIncidentStateId)
    (hcovers : s.Warned cfg id → cfg.warningId = some row.incidentStateId →
      newInc = row.incidentStateId) : Derived cfg s id newInc (patchedState cfg row newInc) := by
  have hincident : cfg.IsIncident newInc ↔ cfg.IsIncident row.incidentStateId := by
    rw [Config.IsIncident, hfunc, Config.IsIncident]
  have hpatched : row.curIncidentStateId = row.incidentStateId →
      patchedState cfg row newInc = newInc := by
    intro hcur
    rw [patchedState]
    split
    · rfl
    · rename_i hnot
      by_contra hne
      exact hnot ⟨fun heq ↦ hne (hcur.trans heq.symm), .inr hcur⟩
  refine ⟨fun h ↦ hpatched (hrow.incident (hincident.1 h)), fun h hwarned ↦ ?_,
    fun h hwarned ↦ hpatched (hrow.unwarned (fun h' ↦ h (hincident.2 h')) hwarned)⟩
  have hcur := hrow.warned (fun h' ↦ h (hincident.2 h')) hwarned
  rw [patchedState]
  split
  · rename_i hchange
    have heq := hchange.2.resolve_left fun hne ↦ hne hfunc
    exact absurd (hcovers hwarned (heq ▸ hcur)) hchange.1
  · exact hcur

theorem updateCi_right {call : UpdateCall} (hs : s.Stated cfg) (hright : s.Right cfg)
    (hcovers : ¬CoversWarning cfg s id call)
    (h : updateCi cfg s id call true = .ok (t, false)) : t.Right cfg ∧ t.Stated cfg := by
  obtain ⟨row, newInc, hrow, haccepted, hnew, hknown, ⟨rfl, -⟩ | ⟨f, hf, hstep⟩⟩ :=
    updateCi_spec h
  · exact ⟨hright, hs⟩
  have hs' : (s.updateCi id f).Stated cfg :=
    updateCi_stated hs fun r ↦ (hf r).1.symm ▸ hknown
  have hmem := Table.find_eq_some.1 hrow
  rcases hstep with ⟨-, hstep⟩ | ⟨hfunc, rfl⟩
  · refine recompute_right hs' ?_ hstep
    rintro ⟨id', row'⟩ hr hunreached
    have hunreached := hunreached id (Finset.mem_singleton_self id)
    obtain ⟨old, hold, rfl⟩ := mem_updateCi.1 hr
    have hne : id' ≠ id := by
      rintro rfl
      exact hunreached .refl
    dsimp only
    rw [if_neg hne]
    exact (hright _ hold).congr (warned_updateCi_of_unreached hunreached)
  · refine ⟨?_, hs'⟩
    rintro ⟨id', row'⟩ hr
    obtain ⟨old, hold, rfl⟩ := mem_updateCi.1 hr
    have hwarned : ∀ w, (s.updateCi id f).Warned cfg w ↔ s.Warned cfg w := by
      intro w
      refine warned_updateCi_of_same fun r hr' ↦ ?_
      rw [s.cis.value_unique hr' hmem, (hf row).1, Config.IsIncident, hfunc, Config.IsIncident]
    dsimp only
    split
    · rename_i heq
      subst heq
      cases s.cis.value_unique hold hmem
      rw [(hf row).1, (hf row).2.1]
      refine (patchedState_derived hfunc (hright _ hmem) fun hw hwarning ↦ ?_).congr (hwarned _)
      by_contra hne
      cases hinc : call.incidentStateId with
      | none =>
        rw [hinc] at hnew
        exact hne hnew
      | some inc =>
        rw [hinc, Option.getD_some] at hnew
        subst hnew
        exact hcovers ⟨row, hrow, haccepted, hwarning, hw, newInc, hinc, hne, hfunc⟩
    · exact (hright _ hold).congr (hwarned _)

end Update

theorem ciLink_ends {l : LinkRow} {c : ℕ × ℕ × String} (h : l.ciLink = some c) :
    l.source = .ci c.1 ∧ l.target = .ci c.2.1 ∧ l.linkType = c.2.2 := by
  rw [LinkRow.ciLink] at h
  split at h
  · rename_i a b ha hb
    cases h
    exact ⟨ha, hb, rfl⟩
  · cases h

section Delete

variable {id : ℕ}

theorem edge_deleteCi {u v : ℕ} :
    (s.deleteCi id).Edge cfg u v ↔ s.Edge cfg u v ∧ u ≠ id ∧ v ≠ id := by
  rw [Store.edge_iff, Store.edge_iff]
  constructor
  · rintro ⟨r, hr, c, hc, he⟩
    obtain ⟨hold, hnot⟩ := Table.mem_delete.1 hr
    obtain ⟨hsource, htarget, -⟩ := ciLink_ends hc
    rw [hsource, htarget, Bool.or_eq_false_iff, decide_eq_false_iff_not,
      decide_eq_false_iff_not, LinkEnd.ci.injEq, LinkEnd.ci.injEq] at hnot
    refine ⟨⟨r, hold, c, hc, he⟩, ?_⟩
    rcases (mem_edgesOf he).2 with heq | heq <;> cases heq
    · exact hnot
    · exact hnot.symm
  · rintro ⟨⟨r, hr, c, hc, he⟩, hu, hv⟩
    obtain ⟨hsource, htarget, -⟩ := ciLink_ends hc
    refine ⟨r, Table.mem_delete.2 ⟨hr, ?_⟩, c, hc, he⟩
    rw [hsource, htarget, Bool.or_eq_false_iff, decide_eq_false_iff_not,
      decide_eq_false_iff_not, LinkEnd.ci.injEq, LinkEnd.ci.injEq]
    rcases (mem_edgesOf he).2 with heq | heq <;> cases heq
    · exact ⟨hu, hv⟩
    · exact ⟨hv, hu⟩

theorem mem_linkedCis {v : ℕ} (h : s.Edge cfg id v) (hne : v ≠ id) : v ∈ linkedCis s id := by
  obtain ⟨r, hr, c, hc, he⟩ := Store.edge_iff.1 h
  obtain ⟨hsource, htarget, -⟩ := ciLink_ends hc
  have hrow : r.2 ∈ s.linkRows := List.mem_map_of_mem hr
  simp only [linkedCis, List.mem_toFinset, List.mem_flatMap, List.mem_filter, Bool.or_eq_true,
    decide_eq_true_eq]
  have hself : ∀ e, e = LinkEnd.ci v → e.ciId.filter (· ≠ id) = some v := by
    rintro e rfl
    exact Option.filter_eq_some_iff.2 ⟨rfl, decide_eq_true hne⟩
  rcases (mem_edgesOf he).2 with heq | heq <;> cases heq
  · exact ⟨r.2, ⟨hrow, .inl hsource⟩, List.mem_filterMap.2
      ⟨r.2.target, List.mem_cons_of_mem _ List.mem_cons_self, hself _ htarget⟩⟩
  · exact ⟨r.2, ⟨hrow, .inr htarget⟩, List.mem_filterMap.2
      ⟨r.2.source, List.mem_cons_self, hself _ hsource⟩⟩

theorem mem_deleteCi {id' : ℕ} {row : CiRow} :
    (id', row) ∈ (s.deleteCi id).cis.rows ↔ (id', row) ∈ s.cis.rows ∧ id' ≠ id := by
  refine Table.mem_delete.trans (and_congr_right fun _ ↦ ?_)
  rw [decide_eq_false_iff_not]

theorem deleteCi_right {denied : Option CmdbError} (hs : s.Stated cfg) (hright : s.Right cfg)
    (h : deleteCi cfg s id denied = .ok (t, false)) : t.Right cfg ∧ t.Stated cfg := by
  unfold deleteCi at h
  split at h
  · cases h
  split at h
  · cases h
  have hs' : (s.deleteCi id).Stated cfg := fun r hr ↦ hs r (mem_deleteCi.1 hr).1
  refine recompute_right hs' ?_ h
  rintro ⟨w, row⟩ hr hunreached
  obtain ⟨hold, hne⟩ := mem_deleteCi.1 hr
  -- the deleted CI itself has no way on in the new graph
  have hw : ∀ x ∈ {x | x ∈ linkedCis s id ∨ x = id},
      ¬ReflTransGen ((s.deleteCi id).Edge cfg) x w := by
    rintro x (hx | rfl) hpath
    · exact hunreached x hx hpath
    · rcases ReflTransGen.cases_head hpath with heq | ⟨v, hstep, -⟩
      · exact hne heq.symm
      · exact (edge_deleteCi.1 hstep).2.1 rfl
  refine (hright _ hold).congr ⟨warned_of_gained ?_ ?_ hw, warned_of_lost ?_ ?_ hw⟩
  · exact fun u v hedge hnot ↦ absurd (edge_deleteCi.1 hedge).1 hnot
  · exact fun r' hr' hincident _ ↦ ⟨r', (mem_deleteCi.1 hr').1, rfl, hincident⟩
  · intro u v hedge hnot
    by_cases hv : v = id
    · exact .inr hv
    by_cases hu : u = id
    · exact .inl (mem_linkedCis (hu ▸ hedge) hv)
    · exact absurd (edge_deleteCi.2 ⟨hedge, hu, hv⟩) hnot
  · intro r hr hincident hnot
    exact ⟨r, mem_deleteCi.2 ⟨hr, fun heq ↦ hnot (.inr heq)⟩, rfl, hincident⟩

end Delete

section Links

/-- The edges of one link. -/
def LinkRow.Edge (cfg : Config) (l : LinkRow) (u v : ℕ) : Prop :=
  ∃ c, l.ciLink = some c ∧ (u, v) ∈ cfg.edgesOf c

theorem LinkRow.mem_changedCis {l : LinkRow} {u v : ℕ} {propagates : Bool} (h : l.Edge cfg u v)
    (hp : (cfg.propagating l.linkType).isSome = true → propagates = true) :
    v ∈ l.changedCis propagates := by
  obtain ⟨c, hc, he⟩ := h
  obtain ⟨hsource, htarget, htype⟩ := ciLink_ends hc
  obtain ⟨hsome, hends⟩ := mem_edgesOf he
  have hcis : l.changedCis propagates = {c.1, c.2.1} := by
    unfold LinkRow.changedCis
    rw [hp (htype ▸ hsome), hsource, htarget]
  rw [hcis]
  rcases hends with heq | heq <;> cases heq
  · exact Finset.mem_insert_of_mem (Finset.mem_singleton_self _)
  · exact Finset.mem_insert_self _ _

/-- What a link that comes or goes leaves: every CI has the derived state of the new store, or its
old one and the same reason for it. -/
structure LinkKept (cfg : Config) (s t : Store) : Prop where
  stated : t.Stated cfg
  saves : t.saves = s.saves
  nextLink : s.nextLink ≤ t.nextLink
  links : ∀ r ∈ t.links.rows, r ∈ s.links.rows ∨ s.nextLink ≤ r.1
  rows : ∀ r ∈ t.cis.rows, Derived cfg t r.1 r.2.incidentStateId r.2.curIncidentStateId ∨
    (∃ r₀ ∈ s.cis.rows, r₀.1 = r.1 ∧ r₀.2.incidentStateId = r.2.incidentStateId ∧
      r₀.2.curIncidentStateId = r.2.curIncidentStateId) ∧ (t.Warned cfg r.1 ↔ s.Warned cfg r.1)

theorem LinkKept.right (h : LinkKept cfg s t) (hright : s.Right cfg) : t.Right cfg := by
  intro r hr
  rcases h.rows r hr with hderived | ⟨⟨r₀, hr₀, hid, hown, hcur⟩, hwarned⟩
  · exact hderived
  · have hold := hright r₀ hr₀
    rw [hid, hown, hcur] at hold
    exact hold.congr hwarned

theorem recompute_link {l : LinkRow} {propagates : Bool}
    (h : recompute cfg s' (l.changedCis propagates) = .ok (t, false))
    (hs : s.Stated cfg) (hcis : s'.cis = s.cis) (hnext : s.nextLink ≤ s'.nextLink)
    (hlinks : ∀ r ∈ s'.links.rows, r ∈ s.links.rows ∨ s.nextLink ≤ r.1)
    (hlost : ∀ u v, s.Edge cfg u v → ¬s'.Edge cfg u v → l.Edge cfg u v)
    (hgained : ∀ u v, s'.Edge cfg u v → ¬s.Edge cfg u v → l.Edge cfg u v)
    (hp : (cfg.propagating l.linkType).isSome = true → propagates = true) : LinkKept cfg s t := by
  have hs' : s'.Stated cfg := fun r hr ↦ hs r (hcis ▸ hr)
  obtain ⟨want, rfl, hwant⟩ := recompute_rows hs' h
  refine ⟨hs'.writeStates, ?_, hnext, hlinks, ?_⟩
  · rw [saves_writeStates, Store.saves, hcis, Store.saves]
  rintro ⟨id, row⟩ hr
  obtain ⟨old, hold, rfl⟩ := mem_writeStates.1 hr
  rcases hwant (id, old) hold with hright | ⟨heq, hunreached⟩
  · exact .inl (hright.congr warned_writeStates)
  refine .inr ⟨⟨(id, old), hcis ▸ hold, rfl, rfl, heq.symm⟩, warned_writeStates.trans ?_⟩
  refine ⟨warned_of_gained ?_ ?_ hunreached, warned_of_lost ?_ ?_ hunreached⟩
  · exact fun u v hedge hnot ↦ LinkRow.mem_changedCis (hgained u v hedge hnot) hp
  · exact fun r' hr' hincident _ ↦ ⟨r', hcis ▸ hr', rfl, hincident⟩
  · exact fun u v hedge hnot ↦ LinkRow.mem_changedCis (hlost u v hedge hnot) hp
  · exact fun r' hr' hincident _ ↦ ⟨r', hcis.symm ▸ hr', rfl, hincident⟩

theorem edge_insertLink {l : LinkRow} {hends : ∀ id, l.source = .ci id ∨ l.target = .ci id →
    s.cis.Has id} {u v : ℕ} :
    (s.insertLink l hends).Edge cfg u v ↔ s.Edge cfg u v ∨ l.Edge cfg u v := by
  rw [Store.edge_iff, Store.edge_iff]
  constructor
  · rintro ⟨⟨id, row⟩, hr, c, hc, he⟩
    rcases Table.mem_set.1 hr with ⟨hr, -⟩ | ⟨-, heq⟩
    · exact .inl ⟨_, hr, c, hc, he⟩
    · cases heq
      exact .inr ⟨c, hc, he⟩
  · rintro (⟨⟨id, row⟩, hr, c, hc, he⟩ | ⟨c, hc, he⟩)
    · exact ⟨(id, row), Table.mem_set.2 (.inl ⟨hr, Nat.ne_of_lt (s.linkIds _ hr)⟩), c, hc, he⟩
    · exact ⟨(s.nextLink, l), Table.mem_set.2 (.inr ⟨rfl, rfl⟩), c, hc, he⟩

theorem LinkCall.oriented_type (call : LinkCall) (pointed : Bool) :
    (call.oriented pointed).linkType = call.linkType := by
  rw [LinkCall.oriented]
  split <;> rfl

theorem addLink_kept {call : LinkCall} (hs : s.Stated cfg)
    (h : addLink cfg s call = .ok (t, false)) : t = s ∨ LinkKept cfg s t := by
  rw [addLink] at h
  split at h
  · cases h
  split at h
  · cases h
  split at h
  · cases h
  rename_i type htype
  dsimp only at h
  split at h
  · split at h
    · cases h
    split at h
    · cases h
      exact .inl rfl
    refine .inr (recompute_link h hs rfl (Nat.le_succ _) ?_ ?_ ?_ ?_)
    · rintro ⟨id, row⟩ hr
      rcases Table.mem_set.1 hr with ⟨hr, -⟩ | ⟨rfl, -⟩
      · exact .inl hr
      · exact .inr (Nat.le_refl _)
    · exact fun u v hedge hnot ↦ absurd (edge_insertLink.2 (.inl hedge)) hnot
    · exact fun u v hedge hnot ↦ (edge_insertLink.1 hedge).resolve_left hnot
    · intro hsome
      obtain ⟨hlookup, -⟩ := Option.filter_eq_some_iff.1 htype
      rw [LinkCall.oriented_type, Config.propagating, hlookup] at hsome
      dsimp only at hsome
      split at hsome
      · rename_i hp
        exact decide_eq_true hp.2
      · cases hsome
  · cases h

theorem edge_deleteLink {id u v : ℕ} :
    (s.deleteLink id).Edge cfg u v ↔
      ∃ r ∈ s.links.rows, r.1 ≠ id ∧ r.2.Edge cfg u v := by
  rw [Store.edge_iff]
  constructor
  · rintro ⟨r, hr, c, hc, he⟩
    obtain ⟨hr, hne⟩ := Table.mem_delete.1 hr
    exact ⟨r, hr, decide_eq_false_iff_not.1 hne, c, hc, he⟩
  · rintro ⟨r, hr, hne, c, hc, he⟩
    exact ⟨r, Table.mem_delete.2 ⟨hr, decide_eq_false hne⟩, c, hc, he⟩

theorem deleteLink_kept {id : ℕ} {denied : Option CmdbError} (hs : s.Stated cfg)
    (h : deleteLink cfg s id denied = .ok (t, false)) : LinkKept cfg s t := by
  rw [deleteLink] at h
  split at h
  · cases h
  rename_i row hrow
  split at h
  · cases h
  have hmem := Table.find_eq_some.1 hrow
  refine recompute_link h hs rfl (Nat.le_refl _)
    (fun r hr ↦ .inl (Table.mem_delete.1 hr).1) ?_ ?_ ?_
  · intro u v hedge hnot
    obtain ⟨⟨id', row'⟩, hr, hl⟩ := Store.edge_iff.1 hedge
    by_cases heq : id' = id
    · subst heq
      exact s.links.value_unique hr hmem ▸ hl
    · exact absurd (edge_deleteLink.2 ⟨_, hr, heq, hl⟩) hnot
  · intro u v hedge hnot
    obtain ⟨r, hr, -, hl⟩ := edge_deleteLink.1 hedge
    exact absurd (Store.edge_iff.2 ⟨r, hr, hl⟩) hnot
  · intro hsome
    rw [Config.propagating] at hsome
    split at hsome
    · rename_i type htype
      rw [htype]
      split at hsome
      · rename_i hp
        exact decide_eq_true hp.2
      · cases hsome
    · cases hsome

end Links

inductive CmdbAction
  | create (call : CreateCall)
  | update (id : ℕ) (call : UpdateCall)
  | delete (id : ℕ) (denied : Option CmdbError)
  | addLink (call : LinkCall)
  | deleteLink (id : ℕ) (denied : Option CmdbError)

def Store.apply (cfg : Config) (s : Store) : CmdbAction → Except CmdbError Saved
  | .create call => createCi cfg s call true
  | .update id call => Cmdb.updateCi cfg s id call true
  | .delete id denied => Cmdb.deleteCi cfg s id denied
  | .addLink call => Cmdb.addLink cfg s call
  | .deleteLink id denied => Cmdb.deleteLink cfg s id denied

/-- A call that hits no cap. One that fails leaves nothing behind. -/
def Store.next (cfg : Config) (s : Store) (a : CmdbAction) : Option Store :=
  match s.apply cfg a with
  | .ok (t, false) => some t
  | .ok (_, true) => none
  | .error _ => some s

def cmdbMachine (cfg : Config) : Machine Store CmdbAction :=
  .ofNext (fun s ↦ s.Right cfg ∧ s.Stated cfg) fun s a ↦ s.next cfg a

/-- The call moves a warned CI off the state that stands for the warning. -/
def Covers (cfg : Config) (s : Store) : CmdbAction → Prop
  | .update id call => CoversWarning cfg s id call
  | _ => False

theorem next_right {a : CmdbAction} (hs : s.Stated cfg) (hright : s.Right cfg)
    (hcovers : ¬Covers cfg s a) (h : s.next cfg a = some t) : t.Right cfg ∧ t.Stated cfg := by
  rw [Store.next] at h
  split at h
  · rename_i happly
    cases h
    cases a with
    | create call => exact createCi_right hs hright happly
    | update id call => exact updateCi_right hs hright hcovers happly
    | delete id denied => exact deleteCi_right hs hright happly
    | addLink call =>
      rcases addLink_kept hs happly with rfl | hkept
      · exact ⟨hright, hs⟩
      · exact ⟨hkept.right hright, hkept.stated⟩
    | deleteLink id denied =>
      have hkept := deleteLink_kept hs happly
      exact ⟨hkept.right hright, hkept.stated⟩
  · cases h
  · cases h
    exact ⟨hright, hs⟩

theorem warningId_functionality {id : ℕ} (h : cfg.warningId = some id) :
    cfg.functionality id = some "warning" := by
  obtain ⟨i, hi, rfl⟩ := Option.map_eq_some_iff.1 h
  have hwarning := List.find?_some hi
  simp only [Bool.and_eq_true, decide_eq_true_eq] at hwarning
  have hmem := List.mem_of_find?_eq_some hi
  have hitem : cfg.item i.id = some i := by
    cases hfind : cfg.item i.id with
    | none => exact absurd (decide_eq_true rfl) (List.find?_eq_none.1 hfind i hmem)
    | some j =>
      obtain ⟨hj, hid⟩ := item_mem hfind
      rw [List.inj_on_of_nodup_map cfg.ids hj hmem hid]
  rw [Config.functionality, hitem]
  exact hwarning.1.2

/-- A warning that is covered is lost. -/
theorem not_right_of_covers {a : CmdbAction} (hcovers : Covers cfg s a)
    (h : s.apply cfg a = .ok (t, false)) : ¬t.Right cfg := by
  cases a with
  | update id call =>
    obtain ⟨row, hrow, -, hwarning, hwarned, inc, hinc, hne, hfunc⟩ := hcovers
    obtain ⟨row', newInc, hrow', -, hnew, -, hcase⟩ := updateCi_spec h
    cases hrow.symm.trans hrow'
    rw [hinc, Option.getD_some] at hnew
    subst hnew
    obtain ⟨f, hf, hstep⟩ := hcase.resolve_left fun h ↦ hne h.2
    obtain ⟨-, rfl⟩ := hstep.resolve_left fun h ↦ h.1 hfunc
    intro hright
    have hmem := Table.find_eq_some.1 hrow
    have hafter := hright (id, f row) (mem_updateCi.2 ⟨row, hmem, (if_pos rfl).symm⟩)
    rw [(hf row).1, (hf row).2.1] at hafter
    have hkept : (s.updateCi id f).Warned cfg id := by
      refine (warned_updateCi_of_same fun r hr ↦ ?_).2 hwarned
      rw [s.cis.value_unique hr hmem, (hf row).1, Config.IsIncident, hfunc, Config.IsIncident]
    have hnot : ¬cfg.IsIncident newInc := by
      rw [Config.IsIncident, hfunc, warningId_functionality hwarning]
      decide
    have hcur := Option.some.inj (hwarning.symm.trans (hafter.warned hnot hkept))
    rw [patchedState] at hcur
    split at hcur
    · exact hne hcur.symm
    · rename_i hpatch
      exact hpatch ⟨hne, .inr hcur.symm⟩
  | _ => exact hcovers.elim

theorem derived_right {as : List CmdbAction} (hs : (cmdbMachine cfg).init s)
    (h : ((cmdbMachine cfg).restrict fun s a ↦ ¬Covers cfg s a).Run s as t) :
    t.Right cfg ∧ recomputeAll cfg maxPasses t = cfg.states.map fun _ ↦ t := by
  have hkept : t.Right cfg ∧ t.Stated cfg := by
    refine h.invariant (I := fun s : Store ↦ s.Right cfg ∧ s.Stated cfg) ?_ hs
    intro u a v hu hst
    exact next_right hu.2 hu.1 hst.1 hst.2
  exact ⟨hkept.1, recomputeAll_of_right hkept.2 hkept.1 2⟩

def warningCatalog : Config where
  linkType name := if name = "DependsOn" then some ⟨true, .source, true⟩ else none
  catalog :=
    [⟨1, true, some "operational", true⟩, ⟨2, true, some "incident", true⟩,
      ⟨3, true, some "warning", true⟩, ⟨4, true, some "warning", true⟩]
  propagationNodeCap := 5000
  ids := by decide

def emptyCmdb : Store where
  cis := .empty
  links := .empty
  nextCi := 1
  nextLink := 1
  firstCi := Nat.one_pos
  ciIds := nofun
  linkIds := nofun
  ends := nofun

def dependent : List CmdbAction :=
  [.create ⟨2, 10, none, none⟩, .create ⟨3, 11, none, none⟩,
    .addLink ⟨.ci 2, .ci 1, "DependsOn", fun _ ↦ true, none⟩]

theorem emptyCmdb_init : (cmdbMachine warningCatalog).init emptyCmdb := ⟨nofun, nofun⟩

theorem derived_right_sample : ∃ t : Store, t.cis.rows = [(1, ⟨2, 2, 1, 10⟩), (2, ⟨3, 3, 1, 11⟩)] ∧
    t.Right warningCatalog ∧
      recomputeAll warningCatalog maxPasses t = warningCatalog.states.map fun _ ↦ t := by
  have hrun : (dependent.foldlM (Store.next warningCatalog) emptyCmdb).map (·.cis.rows) =
      some [(1, ⟨2, 2, 1, 10⟩), (2, ⟨3, 3, 1, 11⟩)] := by decide +kernel
  obtain ⟨t, ht, hrows⟩ := Option.map_eq_some_iff.1 hrun
  refine ⟨t, hrows, derived_right emptyCmdb_init
    (Machine.run_of_foldlM_forall dependent (fun a ha u ↦ ?_) ht)⟩
  rcases List.mem_cons.1 ha with rfl | ha
  · exact not_false
  rcases List.mem_cons.1 ha with rfl | ha
  · exact not_false
  rw [List.mem_singleton.1 ha]
  exact not_false

/-- The second CI moves from one warning state to the other. -/
def coverWarning : List CmdbAction :=
  dependent ++ [.update 2 ⟨none, some 4, false, 12, none, none⟩]

theorem covered_warning_lost :
    ¬ ∀ cfg s as t, (cmdbMachine cfg).init s → (cmdbMachine cfg).Run s as t → t.Right cfg := by
  intro h
  have hfold : (coverWarning.foldlM (Store.next warningCatalog) emptyCmdb).map
      (fun t ↦ (t.cis.rows, decide (t.Edge warningCatalog 1 2))) =
        some ([(1, ⟨2, 2, 1, 10⟩), (2, ⟨4, 4, 2, 12⟩)], true) := by decide +kernel
  obtain ⟨t, ht, hlook⟩ := Option.map_eq_some_iff.1 hfold
  obtain ⟨hrows, hedge⟩ := Prod.mk.inj hlook
  have hrun : (cmdbMachine warningCatalog).Run emptyCmdb coverWarning t :=
    (Machine.run_of_foldlM_forall (C := fun _ _ ↦ True) _ (fun _ _ _ ↦ trivial) ht).of_restrict
  have hright := h _ _ _ t emptyCmdb_init hrun
  have hfirst : (1, ⟨2, 2, 1, 10⟩) ∈ t.cis.rows := hrows ▸ List.mem_cons_self
  have hsecond : (2, ⟨4, 4, 2, 12⟩) ∈ t.cis.rows :=
    hrows ▸ List.mem_cons_of_mem _ List.mem_cons_self
  have hwarned : t.Warned warningCatalog 2 :=
    ⟨_, hfirst, by decide +kernel, .single (of_decide_eq_true hedge)⟩
  have hcur := (hright _ hsecond).warned (by decide +kernel) hwarned
  revert hcur
  decide +kernel

end Tiqora.Cmdb
