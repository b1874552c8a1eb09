import Tiqora.Cmdb.DerivedKept

namespace Tiqora.Cmdb

open Foundation Relation

/-- A pass of the full recompute; `scanned` after the batch that came back empty. `missed` is kept
for the statements only: a save was committed with a stamp that is not after the watermark. -/
structure Pass where
  attempt : ℕ
  picture : Picture
  last : ℕ
  saw : Bool
  scanned : Bool
  missed : Bool

inductive Job
  | ready (attempt : ℕ)
  | running (p : Pass)
  | returned (clean : Bool)
  | failed

/-- The committed store, the clock, the stamps of the saves under way and the full recompute. -/
structure World where
  store : Store
  clock : ℕ
  stamps : Table ℕ ℕ
  job : Job

inductive WorldAction
  | tick
  | stamp (tx : ℕ)
  | commit (tx : ℕ) (a : CmdbAction)
  | begin
  | batch
  | check

/-- The `changed_at` that a save writes. -/
def CmdbAction.stamp : CmdbAction → Option ℕ
  | .create call => some call.now
  | .update _ call => some call.now
  | _ => none

def CmdbAction.isDelete : CmdbAction → Bool
  | .delete _ _ => true
  | _ => false

def Pass.misses (p : Pass) (a : CmdbAction) : Bool :=
  a.stamp.any fun now ↦ p.picture.watermark.any fun w ↦ now ≤ w

def Job.note (job : Job) (a : CmdbAction) (wrote : Bool) : Job :=
  match job with
  | .running p => .running { p with missed := p.missed || wrote && p.misses a }
  | job => job

/-- Whether another pass is due. -/
def Pass.saved (p : Pass) (s : Store) : Bool :=
  p.saw || savedSince s p.picture || linkMark s ≠ p.picture.links

def Job.afterPass (p : Pass) (saved : Bool) : Job :=
  if saved = false then .returned true
  else if p.attempt + 1 < maxPasses then .ready (p.attempt + 1)
  else .returned false

/-- A save and a batch are one transaction each; a save reads the clock some time before. -/
def World.next (cfg : Config) (s : World) : WorldAction → Option World
  | .tick => some { s with clock := s.clock + 1 }
  | .stamp tx => some { s with stamps := s.stamps.set tx (some s.clock) }
  | .commit tx a =>
    (s.stamps.find tx).bind fun now ↦
      if a.isDelete = true ∨ (a.stamp.any (· ≠ now)) = true then none
      else
        match s.store.apply cfg a with
        | .ok (t, false) =>
          some
            { s with
              store := t
              stamps := s.stamps.set tx none
              job := s.job.note a (t ≠ s.store) }
        | _ => none
  | .begin =>
    match s.job with
    | .ready attempt =>
      match takePicture cfg s.store with
      | .ok picture => some { s with job := .running ⟨attempt, picture, 0, false, false, false⟩ }
      | .error _ => some { s with job := .failed }
    | _ => none
  | .batch =>
    match s.job with
    | .running p =>
      if p.scanned = true then none
      else
        let ids := batchIds s.store p.last
        match ids.getLast? with
        | none => some { s with job := .running { p with scanned := true } }
        | some last =>
          some
            { s with
              store := writeBatch s.store p.picture ids
              job := .running { p with last, saw := p.saw || batchSaw s.store p.picture ids } }
    | _ => none
  | .check =>
    match s.job with
    | .running p =>
      if p.scanned = true then some { s with job := .afterPass p (p.saved s.store) } else none
    | _ => none

/-- The full recompute may find any derived states. -/
def worldMachine (cfg : Config) : Machine World WorldAction :=
  .ofNext (fun s ↦ s.store.Stated cfg ∧ s.job = .ready 0 ∧ s.stamps = .empty) fun s a ↦ s.next cfg a

variable {cfg : Config} {s t : Store} {a : CmdbAction}

/-- What a save of a CI leaves, whatever it makes of the derived states. -/
structure SaveKept (cfg : Config) (now : ℕ) (s t : Store) : Prop where
  stated : t.Stated cfg
  links : t.links = s.links
  nextLink : t.nextLink = s.nextLink
  stamped : ∃ r ∈ t.cis.rows, r.2.changedAt = now
  others : ∀ r ∈ s.cis.rows, ∃ r' ∈ t.cis.rows,
    r'.2.changedAt = r.2.changedAt ∨ r'.2.changedAt = now

theorem SaveKept.writeStates {now : ℕ} (h : SaveKept cfg now s t) (want : ℕ → CiRow → ℕ) :
    SaveKept cfg now s (t.writeStates want) := by
  have hkeep : ∀ r ∈ t.cis.rows, ∃ r' ∈ (t.writeStates want).cis.rows,
      r'.2.changedAt = r.2.changedAt := by
    rintro ⟨id, row⟩ hr
    exact ⟨_, mem_writeStates.2 ⟨row, hr, rfl⟩, rfl⟩
  refine ⟨h.stated.writeStates, h.links, h.nextLink, ?_, fun r hr ↦ ?_⟩
  · obtain ⟨r, hr, hnow⟩ := h.stamped
    obtain ⟨r', hr', heq⟩ := hkeep r hr
    exact ⟨r', hr', heq.trans hnow⟩
  · obtain ⟨r', hr', hcase⟩ := h.others r hr
    obtain ⟨r'', hr'', heq⟩ := hkeep r' hr'
    exact ⟨r'', hr'', heq ▸ hcase⟩

theorem createCi_kept {call : CreateCall} (hs : s.Stated cfg)
    (h : createCi cfg s call true = .ok (t, false)) : SaveKept cfg call.now s t := by
  obtain ⟨row, hknown, -, hnow, hstep⟩ := createCi_spec h
  have hs' := insertCi_stated hs hknown
  have hkept : SaveKept cfg call.now s (s.insertCi row) := by
    refine ⟨hs', rfl, rfl, ⟨(s.nextCi, row), mem_insertCi.2 (.inr ⟨rfl, rfl⟩), hnow⟩, ?_⟩
    exact fun r hr ↦ ⟨r, mem_insertCi.2 (.inl ⟨hr, Nat.ne_of_lt (s.ciIds r hr).2⟩), .inl rfl⟩
  rcases hstep with rfl | hstep
  · exact hkept
  · obtain ⟨want, rfl, -⟩ := recompute_rows hs' hstep
    exact hkept.writeStates want

theorem updateCi_kept {id : ℕ} {call : UpdateCall} (hs : s.Stated cfg)
    (h : updateCi cfg s id call true = .ok (t, false)) : t = s ∨ SaveKept cfg call.now s t := by
  obtain ⟨row, newInc, hrow, -, -, hknown, ⟨rfl, -⟩ | ⟨f, hf, hstep⟩⟩ := updateCi_spec h
  · exact .inl rfl
  have hs' : (s.updateCi id f).Stated cfg :=
    updateCi_stated hs fun r ↦ (hf r).1.symm ▸ hknown
  have hkept : SaveKept cfg call.now s (s.updateCi id f) := by
    refine ⟨hs', rfl, rfl, ?_, ?_⟩
    · exact ⟨(id, f row), mem_updateCi.2 ⟨row, Table.find_eq_some.1 hrow, (if_pos rfl).symm⟩,
        (hf row).2.2⟩
    · rintro ⟨id', old⟩ hr
      refine ⟨_, mem_updateCi.2 ⟨old, hr, rfl⟩, ?_⟩
      dsimp only
      split
      · exact .inr (hf old).2.2
      · exact .inl rfl
  right
  rcases hstep with ⟨-, hstep⟩ | ⟨-, rfl⟩
  · obtain ⟨want, rfl, -⟩ := recompute_rows hs' hstep
    exact hkept.writeStates want
  · exact hkept

/-- The three effects of a transaction that hits no cap. -/
theorem apply_kept (hs : s.Stated cfg) (hdelete : a.isDelete = false)
    (h : s.apply cfg a = .ok (t, false)) :
    t = s ∨ (∃ now, a.stamp = some now ∧ SaveKept cfg now s t) ∨
      a.stamp = none ∧ LinkKept cfg s t := by
  cases a with
  | create call => exact .inr (.inl ⟨_, rfl, createCi_kept hs h⟩)
  | update id call =>
    rcases updateCi_kept hs h with rfl | hkept
    · exact .inl rfl
    · exact .inr (.inl ⟨_, rfl, hkept⟩)
  | delete id denied => cases hdelete
  | addLink call =>
    rcases addLink_kept hs h with rfl | hkept
    · exact .inl rfl
    · exact .inr (.inr ⟨rfl, hkept⟩)
  | deleteLink id denied => exact .inr (.inr ⟨rfl, deleteLink_kept hs h⟩)

theorem mem_of_saves (h : s.saves = t.saves) {r : ℕ × CiRow} (hr : r ∈ s.cis.rows) :
    ∃ r' ∈ t.cis.rows, r'.1 = r.1 ∧ r'.2.incidentStateId = r.2.incidentStateId ∧
      r'.2.changedAt = r.2.changedAt := by
  have hmem : (r.1, r.2.incidentStateId, r.2.changedAt) ∈ t.saves := h ▸ List.mem_map_of_mem hr
  obtain ⟨r', hr', heq⟩ := List.mem_map.1 hmem
  obtain ⟨hid, heq⟩ := Prod.mk.inj heq
  obtain ⟨hown, hchanged⟩ := Prod.mk.inj heq
  exact ⟨r', hr', hid, hown, hchanged⟩

theorem savedSince_congr (h : s.saves = t.saves) (picture : Picture) :
    savedSince s picture = savedSince t picture := by
  rw [savedSince, savedSince]
  cases picture.watermark with
  | none =>
    have hlen := congrArg List.length h
    rw [Store.saves, Store.saves, List.length_map, List.length_map] at hlen
    simp only [ne_eq, ← List.length_eq_zero_iff, hlen]
  | some w =>
    have hany : ∀ u : Store, (u.cis.rows.any fun r ↦ w < r.2.changedAt) =
        u.saves.any fun c ↦ w < c.2.2 := by
      intro u
      rw [Store.saves, List.any_map]
      rfl
    exact (hany s).trans (h ▸ (hany t).symm)

theorem le_newestSave {r : ℕ × CiRow} (hr : r ∈ s.cis.rows) {w : ℕ} (h : newestSave s = some w) :
    r.2.changedAt ≤ w :=
  (List.max?_le_iff h).1 (Nat.le_refl w) _ (List.mem_map_of_mem hr)

/-- Nothing was saved since the picture: no CI of the store is left alone. -/
theorem savedAfter_eq_false {picture : Picture} {start : Store}
    (hwatermark : picture.watermark = newestSave start) (h : s.saves = start.saves)
    {r : ℕ × CiRow} (hr : r ∈ s.cis.rows) : savedAfter picture r.2 = false := by
  obtain ⟨r', hr', -, -, hchanged⟩ := mem_of_saves h hr
  rw [savedAfter, hwatermark, ← hchanged]
  cases hnewest : newestSave start with
  | none => rfl
  | some w => exact decide_eq_false (Nat.not_lt.2 (le_newestSave hr' hnewest))

/-- Ids are not given twice, so that count and greatest id tell whether links came or went. -/
theorem links_of_linkMark {start : Store}
    (hlinks : ∀ r ∈ s.links.rows, r ∈ start.links.rows ∨ start.nextLink ≤ r.1)
    (hmark : linkMark s = linkMark start) (r : ℕ × LinkRow) :
    r ∈ s.links.rows ↔ r ∈ start.links.rows := by
  obtain ⟨hcount, htop⟩ := Prod.mk.inj hmark
  have hold : ∀ r ∈ s.links.rows, r ∈ start.links.rows := by
    intro r hr
    refine (hlinks r hr).resolve_right fun hnew ↦ ?_
    cases hmax : (s.links.rows.map (·.1)).max? with
    | none =>
      rw [List.max?_eq_none_iff, List.map_eq_nil_iff] at hmax
      rw [hmax] at hr
      cases hr
    | some top =>
      cases hmax' : (start.links.rows.map (·.1)).max? with
      | none =>
        rw [List.max?_eq_none_iff, List.map_eq_nil_iff] at hmax'
        rw [hmax', List.length_nil, List.length_eq_zero_iff] at hcount
        rw [hcount] at hr
        cases hr
      | some top' =>
        rw [hmax, hmax', Option.getD_some, Option.getD_some] at htop
        have hle := (List.max?_le_iff hmax).1 (Nat.le_refl _) _ (List.mem_map_of_mem hr)
        obtain ⟨r', hr', heq⟩ := List.mem_map.1 (List.max?_mem hmax')
        have hlt := start.linkIds r' hr'
        omega
  have hnodup : s.links.rows.Nodup := s.links.keyed.imp fun h heq ↦ h (congrArg Prod.fst heq)
  have hperm := (List.subperm_of_subset hnodup hold).perm_of_length_le hcount.ge
  exact hperm.mem_iff

theorem warned_of_same {start : Store} (hsaves : s.saves = start.saves)
    (hlinks : ∀ r, r ∈ s.links.rows ↔ r ∈ start.links.rows) {id : ℕ} :
    s.Warned cfg id ↔ start.Warned cfg id := by
  have hedge : s.Edge cfg = start.Edge cfg := by
    funext u v
    rw [eq_iff_iff, Store.edge_iff, Store.edge_iff]
    simp only [hlinks]
  rw [Store.Warned, Store.Warned, hedge]
  constructor
  · rintro ⟨r, hr, hincident, hpath⟩
    obtain ⟨r', hr', hid, hown, -⟩ := mem_of_saves hsaves hr
    exact ⟨r', hr', hown ▸ hincident, hid ▸ hpath⟩
  · rintro ⟨r, hr, hincident, hpath⟩
    obtain ⟨r', hr', hid, hown, -⟩ := mem_of_saves hsaves.symm hr
    exact ⟨r', hr', hown ▸ hincident, hid ▸ hpath⟩

/-- The ids up to the last one of a batch are in the batch. -/
theorem mem_batchIds_of_le {last next id : ℕ} (h : (batchIds s last).getLast? = some next)
    (hid : id ∈ s.cis.rows.map (·.1)) (hlast : last < id) (hnext : id ≤ next) :
    id ∈ batchIds s last := by
  rw [batchIds] at h ⊢
  have hmem : id ∈ ((s.cis.rows.map (·.1)).filter (last < ·)).insertionSort (· ≤ ·) := by
    rw [List.mem_insertionSort]
    exact List.mem_filter.2 ⟨hid, decide_eq_true hlast⟩
  have hsorted := List.pairwise_insertionSort (· ≤ ·) ((s.cis.rows.map (·.1)).filter (last < ·))
  have hnodup : (((s.cis.rows.map (·.1)).filter (last < ·)).insertionSort (· ≤ ·)).Nodup := by
    refine (List.perm_insertionSort _ _).nodup_iff.2 (List.Nodup.filter _ ?_)
    exact List.pairwise_map.2 s.cis.keyed
  rw [← List.take_append_drop batchSize (List.insertionSort _ _)] at hmem hsorted hnodup
  refine (List.mem_append.1 hmem).resolve_right fun hdrop ↦ ?_
  have hle := (List.pairwise_append.1 hsorted).2.2 next (List.mem_of_getLast? h) id hdrop
  have hne := (List.nodup_append.1 hnodup).2.2 next (List.mem_of_getLast? h) id hdrop
  omega

/-- A pass and the store that its picture shows. Either a save is known to have come in between or
was missed, or every CI that has had its batch is right about one of the two stores. -/
structure PassKept (cfg : Config) (p : Pass) (start s : Store) : Prop where
  stated : start.Stated cfg
  picture : takePicture cfg start = .ok p.picture
  nextLink : start.nextLink ≤ s.nextLink
  links : ∀ r ∈ s.links.rows, r ∈ start.links.rows ∨ start.nextLink ≤ r.1
  rows : p.missed = true ∨ savedSince s p.picture = true ∨ s.saves = start.saves ∧
    ∀ r ∈ s.cis.rows, r.1 ≤ p.last ∨ p.scanned = true →
      Derived cfg s r.1 r.2.incidentStateId r.2.curIncidentStateId ∨
        Derived cfg start r.1 r.2.incidentStateId r.2.curIncidentStateId

theorem PassKept.begin {picture : Picture} {attempt : ℕ} (hs : s.Stated cfg)
    (h : takePicture cfg s = .ok picture) :
    PassKept cfg ⟨attempt, picture, 0, false, false, false⟩ s s := by
  refine ⟨hs, h, Nat.le_refl _, fun r hr ↦ .inl hr, .inr (.inr ⟨rfl, fun r hr hid ↦ ?_⟩)⟩
  rcases hid with hid | hid
  · exact absurd (s.ciIds r hr).1 (Nat.not_lt.2 hid)
  · cases hid

theorem PassKept.scan {p : Pass} {start : Store} (h : PassKept cfg p start s)
    (hids : (batchIds s p.last).getLast? = none) :
    PassKept cfg { p with scanned := true } start s := by
  refine ⟨h.stated, h.picture, h.nextLink, h.links, ?_⟩
  rcases h.rows with hmissed | hsaved | ⟨hsaves, hrows⟩
  · exact .inl hmissed
  · exact .inr (.inl hsaved)
  refine .inr (.inr ⟨hsaves, fun r hr _ ↦ hrows r hr (.inl (Nat.not_lt.1 fun hlt ↦ ?_))⟩)
  have hmem : r.1 ∈ batchIds s p.last := by
    rw [List.getLast?_eq_none_iff, batchIds, List.take_eq_nil_iff] at hids
    have hnil := hids.resolve_left (by decide)
    have hin : r.1 ∈ ((s.cis.rows.map (·.1)).filter (p.last < ·)).insertionSort (· ≤ ·) := by
      rw [List.mem_insertionSort]
      exact List.mem_filter.2 ⟨List.mem_map_of_mem hr, decide_eq_true hlt⟩
    rw [hnil] at hin
    cases hin
  rw [List.getLast?_eq_none_iff] at hids
  rw [hids] at hmem
  cases hmem

theorem PassKept.batch {p : Pass} {start : Store} {last : ℕ} {saw : Bool}
    (h : PassKept cfg p start s) (hscanned : ¬p.scanned = true)
    (hids : (batchIds s p.last).getLast? = some last) :
    PassKept cfg { p with last, saw } start (writeBatch s p.picture (batchIds s p.last)) := by
  obtain ⟨hstates, hwatermark, -, hwarned⟩ := takePicture_spec h.stated h.picture
  refine ⟨h.stated, h.picture, h.nextLink, h.links, ?_⟩
  rcases h.rows with hmissed | hsaved | ⟨hsaves, hrows⟩
  · exact .inl hmissed
  · right
    left
    rw [writeBatch, savedSince_congr (saves_writeStates _ _)]
    exact hsaved
  refine .inr (.inr ⟨(saves_writeStates _ _).trans hsaves, ?_⟩)
  rintro ⟨id, row⟩ hr hid
  have hle : id ≤ last := hid.resolve_right hscanned
  obtain ⟨old, hold, rfl⟩ := mem_writeStates.1 hr
  have hnew := savedAfter_eq_false hwatermark hsaves hold
  dsimp only
  by_cases hin : id ∈ batchIds s p.last
  · right
    rw [if_pos ⟨hin, hnew⟩]
    obtain ⟨r', hr', -, hown, -⟩ := mem_of_saves hsaves hold
    have hown : r'.2.incidentStateId = old.incidentStateId := hown
    exact targetState_derived hstates (hown ▸ h.stated r' hr') (hwarned id)
  · rw [if_neg fun hin' ↦ hin hin'.1]
    have hdone : id ≤ p.last := by
      by_contra hlt
      exact hin (mem_batchIds_of_le hids (List.mem_map_of_mem hold) (Nat.not_le.1 hlt) hle)
    rcases hrows (id, old) hold (.inl hdone) with hright | hright
    · exact .inl (hright.congr warned_writeStates)
    · exact .inr hright

theorem PassKept.commit {p : Pass} {start : Store} (h : PassKept cfg p start s)
    (hs : s.Stated cfg) (hdelete : a.isDelete = false) (happly : s.apply cfg a = .ok (t, false)) :
    PassKept cfg { p with missed := p.missed || decide (t ≠ s) && p.misses a } start t := by
  by_cases hsame : t = s
  · subst hsame
    refine ⟨h.stated, h.picture, h.nextLink, h.links, ?_⟩
    rw [decide_eq_false (not_not.2 rfl), Bool.false_and, Bool.or_false]
    exact h.rows
  rw [decide_eq_true hsame, Bool.true_and]
  rcases apply_kept hs hdelete happly with heq | ⟨now, hstamp, hkept⟩ | ⟨hstamp, hkept⟩
  · exact absurd heq hsame
  · refine ⟨h.stated, h.picture, hkept.nextLink ▸ h.nextLink, hkept.links ▸ h.links, ?_⟩
    cases hmisses : p.misses a with
    | true => exact .inl (Bool.or_true _)
    | false =>
      obtain ⟨r, hr, hnow⟩ := hkept.stamped
      right
      left
      rw [savedSince]
      rw [Pass.misses, hstamp, Option.any_some] at hmisses
      cases hwatermark : p.picture.watermark with
      | none => exact decide_eq_true (List.ne_nil_of_mem hr)
      | some w =>
        rw [hwatermark, Option.any_some, decide_eq_false_iff_not, Nat.not_le] at hmisses
        exact List.any_eq_true.2 ⟨r, hr, decide_eq_true (hnow ▸ hmisses)⟩
  · refine ⟨h.stated, h.picture, h.nextLink.trans hkept.nextLink, fun r hr ↦ ?_, ?_⟩
    · rcases hkept.links r hr with hold | hnew
      · exact h.links r hold
      · exact .inr (h.nextLink.trans hnew)
    rcases h.rows with hmissed | hsaved | ⟨hsaves, hrows⟩
    · exact .inl (by rw [hmissed, Bool.true_or])
    · exact .inr (.inl ((savedSince_congr hkept.saves _).trans hsaved))
    refine .inr (.inr ⟨hkept.saves.trans hsaves, fun r hr hid ↦ ?_⟩)
    rcases hkept.rows r hr with hderived | ⟨⟨r₀, hr₀, hid₀, hown, hcur⟩, hwarned⟩
    · exact .inl hderived
    have hold := hrows r₀ hr₀ (hid₀ ▸ hid)
    rw [hid₀, hown, hcur] at hold
    exact hold.imp_left fun hderived ↦ hderived.congr hwarned

/-- A pass that ends without a sign of a save has made the store right. -/
theorem PassKept.right {p : Pass} {start : Store} (h : PassKept cfg p start s)
    (hscanned : p.scanned = true) (hmissed : p.missed = false) (hsaved : p.saved s = false) :
    s.Right cfg := by
  simp only [Pass.saved, Bool.or_eq_false_iff, decide_eq_false_iff_not, not_not] at hsaved
  obtain ⟨⟨-, hsince⟩, hmark⟩ := hsaved
  obtain ⟨-, -, hpicture, -⟩ := takePicture_spec h.stated h.picture
  rcases h.rows with hno | hno | ⟨hsaves, hrows⟩
  · rw [hmissed] at hno
    cases hno
  · rw [hsince] at hno
    cases hno
  intro r hr
  rcases hrows r hr (.inr hscanned) with hderived | hderived
  · exact hderived
  · exact hderived.congr
      (warned_of_same hsaves (links_of_linkMark h.links (hmark.trans hpicture)))

structure WorldKept (cfg : Config) (w : World) : Prop where
  stated : w.store.Stated cfg
  running : ∀ p, w.job = .running p → ∃ start, PassKept cfg p start w.store
  returned : w.job = .returned true → w.store.Right cfg

/-- No pass is taken as clean that missed a save, and after it no save covers a warning. -/
def Noticed (cfg : Config) (w : World) : WorldAction → Prop
  | .check => ∀ p, w.job = .running p → p.saved w.store = false → p.missed = false
  | .commit _ a => w.job = .returned true → ¬Covers cfg w.store a
  | _ => True

theorem next_kept {w w' : World} {a : WorldAction} (h : WorldKept cfg w)
    (hnoticed : Noticed cfg w a) (hstep : w.next cfg a = some w') : WorldKept cfg w' := by
  cases a with
  | tick =>
    cases hstep
    exact ⟨h.stated, h.running, h.returned⟩
  | stamp tx =>
    cases hstep
    exact ⟨h.stated, h.running, h.returned⟩
  | commit tx a =>
    rw [World.next, Option.bind_eq_some_iff] at hstep
    obtain ⟨now, -, hstep⟩ := hstep
    split at hstep
    · cases hstep
    rename_i hguard
    split at hstep
    · rename_i t happly
      cases hstep
      have hdelete := Bool.eq_false_iff.2 fun h ↦ hguard (.inl h)
      refine ⟨?_, fun p hp ↦ ?_, fun hjob ↦ ?_⟩
      · rcases apply_kept h.stated hdelete happly with rfl | ⟨now, -, hkept⟩ | ⟨-, hkept⟩
        · exact h.stated
        · exact hkept.stated
        · exact hkept.stated
      · cases hjob : w.job with
        | running q =>
          rw [hjob] at hp
          cases hp
          obtain ⟨start, hpass⟩ := h.running q hjob
          exact ⟨start, hpass.commit h.stated hdelete happly⟩
        | _ =>
          rw [hjob] at hp
          cases hp
      · cases hold : w.job with
        | returned clean =>
          rw [hold] at hjob
          cases hjob
          refine (next_right h.stated (h.returned hold) (hnoticed hold) ?_).1
          rw [Store.next, happly]
        | _ =>
          rw [hold] at hjob
          cases hjob
    · cases hstep
  | begin =>
    rw [World.next] at hstep
    split at hstep
    · split at hstep
      · rename_i hpicture
        cases hstep
        refine ⟨h.stated, fun p hp ↦ ?_, fun hjob ↦ ?_⟩
        · cases hp
          exact ⟨w.store, .begin h.stated hpicture⟩
        · cases hjob
      · cases hstep
        refine ⟨h.stated, fun p hp ↦ ?_, fun hjob ↦ ?_⟩
        · cases hp
        · cases hjob
    · cases hstep
  | batch =>
    rw [World.next] at hstep
    split at hstep
    · rename_i p hjob
      obtain ⟨start, hpass⟩ := h.running p hjob
      split at hstep
      · cases hstep
      rename_i hscanned
      dsimp only at hstep
      split at hstep
      · rename_i hids
        cases hstep
        refine ⟨h.stated, fun q hq ↦ ?_, fun hjob ↦ ?_⟩
        · cases hq
          exact ⟨start, hpass.scan hids⟩
        · cases hjob
      · rename_i last hids
        cases hstep
        refine ⟨h.stated.writeStates, fun q hq ↦ ?_, fun hjob ↦ ?_⟩
        · cases hq
          exact ⟨start, hpass.batch hscanned hids⟩
        · cases hjob
    · cases hstep
  | check =>
    rw [World.next] at hstep
    split at hstep
    · rename_i p hjob
      obtain ⟨start, hpass⟩ := h.running p hjob
      split at hstep
      · rename_i hscanned
        cases hstep
        refine ⟨h.stated, fun q hq ↦ ?_, fun hret ↦ ?_⟩
        · rw [Job.afterPass] at hq
          split at hq
          · cases hq
          · split at hq <;> cases hq
        · cases hsaved : p.saved w.store with
          | false => exact hpass.right hscanned (hnoticed p hjob hsaved) hsaved
          | true =>
            rw [hsaved, Job.afterPass, if_neg (by decide)] at hret
            split at hret <;> cases hret
      · cases hstep
    · cases hstep

/-- `Noticed` without the question who is warned: nothing is saved after the return. -/
def noticedBefore (w : World) (a : WorldAction) : Bool :=
  match a, w.job with
  | .check, .running p => !p.missed
  | .commit _ _, .returned _ => false
  | _, _ => true

theorem noticed_of_before {w : World} {a : WorldAction} (h : noticedBefore w a = true) :
    Noticed cfg w a := by
  cases a with
  | check =>
    intro p hjob _
    unfold noticedBefore at h
    rw [hjob] at h
    exact (Bool.not_eq_true' _).mp h
  | commit tx a =>
    intro hjob
    unfold noticedBefore at h
    rw [hjob] at h
    cases h
  | _ => exact trivial

theorem returned_of_clean {job : Job}
    (h : (match job with | .returned clean => clean | _ => false) = true) :
    job = .returned true := by
  cases job with
  | returned clean => exact congrArg Job.returned h
  | _ => cases h

def linkedPair : Store where
  cis := ⟨[(1, ⟨1, 1, 1, 10⟩), (2, ⟨1, 1, 1, 10⟩)], by decide⟩
  links := ⟨[(1, ⟨.ci 2, .ci 1, "DependsOn"⟩)], by decide⟩
  nextCi := 3
  nextLink := 2
  firstCi := by decide
  ciIds := by decide
  linkIds := by decide
  ends := by
    intro r hr id hend
    rw [List.mem_singleton.1 hr] at hend
    rcases hend with heq | heq <;> cases heq
    · exact ⟨⟨1, 1, 1, 10⟩, List.mem_cons_of_mem _ List.mem_cons_self⟩
    · exact ⟨⟨1, 1, 1, 10⟩, List.mem_cons_self⟩

def pairWorld : World := ⟨linkedPair, 10, .empty, .ready 0⟩

theorem pairWorld_init : (worldMachine warningCatalog).init pairWorld := by
  refine ⟨fun r hr ↦ ?_, rfl, rfl⟩
  rcases List.mem_cons.1 hr with rfl | hr
  · exact ⟨_, rfl, rfl⟩
  · rw [List.mem_singleton.1 hr]
    exact ⟨_, rfl, rfl⟩

/-- The first CI gets into incident while a pass runs, which therefore runs again. -/
def saveDuringPass : List WorldAction :=
  [.begin, .tick, .stamp 1, .commit 1 (.update 1 ⟨none, some 2, false, 11, none, none⟩), .batch,
    .batch, .check, .begin, .batch, .batch, .check]

/-- The save is stamped in the second of the newest one before the pass. -/
def saveInSameSecond : List WorldAction :=
  [.begin, .stamp 1, .commit 1 (.update 1 ⟨none, some 2, false, 10, none, none⟩), .batch, .batch,
    .check]

end Tiqora.Cmdb
