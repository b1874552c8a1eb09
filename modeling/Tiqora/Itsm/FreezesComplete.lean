import Mathlib.Algebra.GroupWithZero.Nat
import Tiqora.Itsm.Freezes

namespace Tiqora.Itsm.Freezes

open Calendar

namespace Freeze

variable (row : Freeze) (w : Window)

/-- The walk over a window stays within the spans and the years that there are. -/
structure Inside : Prop where
  delta : ∀ unit ∈ row.unitDays, unit * row.interval ≤ maxDeltaDays
  goesOn : ∀ type ∈ row.recurType, ∀ k t, k < maxOccurrences →
    row.whole.Reaches type w (row.skip w.rangeStart + k) t → row.whole.GoesOn type t

/-- The `k`-th occurrence of a window when it overlaps the range. -/
def shownAt (k : ℕ) : Option Occurrence :=
  match row.recurType with
  | none => if k = 0 ∧ row.startsAt < w.rangeEnd ∧ w.rangeStart < row.endsAt then
      some ⟨row.startsAt, row.endsAt, false⟩ else none
  | some type =>
    (row.whole.occurrence type k).bind fun start ↦
      if row.whole.pastUntil start || row.whole.pastCount k || w.rangeEnd ≤ start then none
      else (Datetime.of? (start.1 + row.whole.duration)).bind fun stop ↦
        if w.rangeStart < stop then some ⟨start, stop, true⟩ else none

/-- The occurrences in the range among the first 2000 that are not skipped. -/
def shown : List Occurrence :=
  (List.range maxOccurrences).filterMap fun k ↦ row.shownAt w (row.skip w.rangeStart + k)

end Freeze

/-- The items are the occurrences of all windows in the range, in order. -/
structure Exact (table : Freezes) (w : Window) (items : List FreezeOccurrence) : Prop where
  sorted : items.Pairwise fun o o' ↦
    o.start < o'.start ∨ o.start = o'.start ∧ o.freezeId < o'.freezeId
  mem : ∀ i, i ∈ items ↔ ∃ row ∈ table.rows, row.valid = true ∧
    ∃ k o, row.OccursAt w k o ∧ i = row.item o

/-- What is expected of a list of freeze windows. -/
structure Complete (table : Freezes) (w : Window) : Prop where
  exact : ∀ r, occurrences table w = some r → r.truncated = false → Exact table w r.items
  skips : ∀ row ∈ table.rows, ∀ k o, row.OccursAt w k o → row.skip w.rangeStart ≤ k
  forwards : ∀ row ∈ table.rows, ∀ forwarded, row.fastForward w.rangeStart = some forwarded →
    Forwards row w forwarded

/-- Nothing is cut off, or something that tells it is. -/
def Covered (table : Freezes) (w : Window) : Prop :=
  (∀ row ∈ table.rows, row.valid = true → ∀ k o, row.skip w.rangeStart + maxOccurrences ≤ k →
    ¬ row.OccursAt w k o) ∨
  (∃ row ∈ table.rows, row.valid = true ∧ (row.shown w).length = maxOccurrences) ∨
  maxOccurrences < ((table.rows.filter (·.valid)).map fun row ↦ (row.shown w).length).sum ∨
  ∃ row ∈ table.rows, row.valid = true ∧ ¬ row.Inside w

variable {row : Freeze} {w : Window} {type : RecurType} {k : ℕ} {o : Occurrence}
  {table : Freezes}

theorem shownAt_iff : row.shownAt w k = some o ↔ row.OccursAt w k o := by
  rw [Freeze.shownAt, Freeze.OccursAt]
  cases htype : row.recurType with
  | none =>
    dsimp only
    constructor
    · intro h
      split at h
      · next hc =>
        cases h
        exact ⟨hc.1, rfl, hc.2⟩
      · cases h
    · rintro ⟨hk, rfl, hc⟩
      rw [if_pos ⟨hk, hc⟩]
  | some type =>
    dsimp only
    rw [Option.bind_eq_some_iff]
    constructor
    · rintro ⟨start, hstart, h⟩
      split at h
      · cases h
      · next hreach =>
        obtain ⟨stop, hstop, h⟩ := Option.bind_eq_some_iff.1 h
        split at h
        · next hafter =>
          cases h
          have hreaches := not_not.1 fun hnot ↦ hreach ((stops_iff hstart).2 hnot)
          exact ⟨hreaches, of?_eq_some.1 hstop, rfl, hafter, List.not_mem_nil⟩
        · cases h
    · intro ho
      obtain ⟨start, stop, recurring⟩ := o
      obtain rfl : recurring = true := ho.isRecurring
      refine ⟨start, ho.reaches.occurrence, ?_⟩
      rw [if_neg fun hstop ↦ (stops_iff ho.reaches.occurrence).1 hstop ho.reaches]
      refine Option.bind_eq_some_iff.2 ⟨stop, of?_eq_some.2 ho.stop, ?_⟩
      rw [if_pos ho.after]

/-- Later occurrences of a window start later. -/
theorem occursAt_lt {k' : ℕ} {o' : Occurrence} (hlt : k < k') (ho : row.OccursAt w k o)
    (ho' : row.OccursAt w k' o') : o.start < o'.start := by
  rw [Freeze.OccursAt] at ho ho'
  cases htype : row.recurType with
  | none =>
    rw [htype] at ho ho'
    exact absurd (ho.1.trans ho'.1.symm) hlt.ne
  | some type =>
    rw [htype] at ho ho'
    exact occurrence_lt hlt ho.reaches.occurrence ho'.reaches.occurrence

theorem occursAt_inj {k' : ℕ} {o' : Occurrence} (ho : row.OccursAt w k o)
    (ho' : row.OccursAt w k' o') (hstart : o.start = o'.start) : k = k' := by
  rcases lt_trichotomy k k' with hlt | rfl | hgt
  · exact absurd hstart (occursAt_lt hlt ho ho').ne
  · rfl
  · exact absurd hstart.symm (occursAt_lt hgt ho' ho).ne

theorem occursAt_eq {o' : Occurrence} (ho : row.OccursAt w k o) (ho' : row.OccursAt w k o') :
    o = o' := Option.some.inj ((shownAt_iff.2 ho).symm.trans (shownAt_iff.2 ho'))

theorem mem_shown : o ∈ row.shown w ↔
    ∃ k < maxOccurrences, row.OccursAt w (row.skip w.rangeStart + k) o := by
  simp only [Freeze.shown, List.mem_filterMap, List.mem_range, shownAt_iff]

theorem shown_ordered : (row.shown w).Pairwise fun o o' ↦ o.start < o'.start := by
  rw [Freeze.shown, List.pairwise_filterMap]
  refine List.pairwise_lt_range.imp fun hlt o ho o' ho' ↦ ?_
  exact occursAt_lt (Nat.add_lt_add_left hlt _) (shownAt_iff.1 ho) (shownAt_iff.1 ho')

/-- Lists in order with the same occurrences are the same. -/
theorem eq_of_ordered {os os' : List Occurrence} (h : os.Pairwise fun o o' ↦ o.start < o'.start)
    (h' : os'.Pairwise fun o o' ↦ o.start < o'.start) (hmem : ∀ o, o ∈ os ↔ o ∈ os') : os = os' := by
  have hne : ∀ {o o' : Occurrence}, o.start < o'.start → o ≠ o' := fun hlt heq ↦
    absurd (heq ▸ hlt) (lt_irrefl _)
  exact ((List.perm_ext_iff_of_nodup (h.imp hne) (h'.imp hne)).2 hmem).eq_of_pairwise
    (fun o o' _ _ hlt hlt' ↦ absurd (hlt.trans hlt') (lt_irrefl _)) h h'

/-- One-off windows are not walked. -/
theorem found_oneOff (htype : row.recurType = none) : row.found w = some (row.shown w) := by
  have hunit : row.unitDays = none := by rw [Freeze.unitDays, htype]
  have hskip : row.skip w.rangeStart = 0 := by rw [Freeze.skip, hunit]
  have hfound : row.found w = some (if row.startsAt < w.rangeEnd ∧ w.rangeStart < row.endsAt then
      [⟨row.startsAt, row.endsAt, false⟩] else []) := by
    simp only [Freeze.found, Freeze.fastForward, hunit, Option.bind_some,
      Appointment.expandOccurrences, Freeze.series, htype]
  rw [hfound]
  refine congrArg some (eq_of_ordered ?_ shown_ordered fun o ↦ ?_)
  · split
    · exact List.pairwise_singleton _ _
    · exact .nil
  · rw [mem_shown, hskip]
    simp only [Freeze.OccursAt, htype]
    constructor
    · intro ho
      split at ho
      · next hc => exact ⟨0, by decide, rfl, List.mem_singleton.1 ho, hc⟩
      · exact absurd ho List.not_mem_nil
    · rintro ⟨k, -, -, rfl, hc⟩
      rw [if_pos hc]
      exact List.mem_singleton_self _

theorem inside_oneOff (htype : row.recurType = none) : row.Inside w := by
  have hunit : row.unitDays = none := by rw [Freeze.unitDays, htype]
  refine ⟨fun unit h ↦ ?_, fun type h ↦ ?_⟩
  · rw [hunit] at h
    cases h
  · rw [htype] at h
    cases h

/-- A walk over a series goes on when the series can be skipped and stays inside. -/
theorem fastForward_isSome (hinside : row.Inside w) :
    ∃ forwarded, row.fastForward w.rangeStart = some forwarded := by
  rw [Freeze.fastForward]
  split
  · exact ⟨_, rfl⟩
  · next unit hunit =>
    rw [if_pos (hinside.delta unit hunit)]
    have hskip : (w.rangeStart.1 - row.endsAt.1) / (unit * row.interval * dayMicros) =
        row.skip w.rangeStart := by rw [Freeze.skip, hunit]
    simp only [hskip]
    split
    · exact ⟨_, rfl⟩
    · have hlt : row.endsAt.1 + row.skip w.rangeStart * (unit * row.interval * dayMicros) <
          maxDays * dayMicros := by
        rcases Nat.eq_zero_or_pos (row.skip w.rangeStart) with hzero | hpos
        · rw [hzero, Nat.zero_mul, Nat.add_zero]
          exact row.endsAt.2
        · exact (skipped_le hunit le_rfl hpos).trans_lt w.rangeStart.2
      obtain ⟨f, hf⟩ := forwardBy_isSome (row.recurCount.map
        (· - (row.skip w.rangeStart : ℤ))) hlt
      rw [hf]
      exact ⟨_, rfl⟩

theorem delta_of_fastForward {forwarded : Option Forwarded}
    (h : row.fastForward w.rangeStart = some forwarded) :
    ∀ unit ∈ row.unitDays, unit * row.interval ≤ maxDeltaDays := by
  intro unit hunit
  rw [Freeze.fastForward, Option.mem_def.1 hunit] at h
  dsimp only at h
  split at h
  · next hle => exact hle
  · cases h

/-- Series windows are expanded to what is shown, when the walk stays inside. -/
theorem found_series (htype : row.recurType = some type) :
    (∀ os, row.found w = some os → os = row.shown w) ∧
    ((∃ os, row.found w = some os) ↔ row.Inside w) := by
  have hshown : ∀ o, o ∈ row.shown w ↔
      ∃ k < maxOccurrences, row.whole.OccursAt type w (row.skip w.rangeStart + k) o := by
    intro o
    rw [mem_shown]
    simp only [Freeze.OccursAt, htype]
  have hseries : ∀ f, (row.series f).recurType = some type := fun f ↦ htype
  constructor
  · intro os h
    obtain ⟨forwarded, hforwarded, h⟩ := Option.bind_eq_some_iff.1 h
    cases fastForward_spec hforwarded with
    | exhausted hnone _ =>
      cases h
      refine eq_of_ordered .nil shown_ordered fun o ↦ iff_of_false List.not_mem_nil fun ho ↦ ?_
      obtain ⟨k, -, hk⟩ := mem_shown.1 ho
      exact hnone _ _ hk
    | continues hcontinues _ =>
      have hlists := expand_spec (hseries _) h
      refine eq_of_ordered hlists.ordered shown_ordered fun o ↦ ?_
      rw [hlists.mem, hshown]
      constructor
      · rintro ⟨k, -, hlt, ho⟩
        exact ⟨k, by omega, (hcontinues.occursAt htype).1 ho⟩
      · rintro ⟨k, hlt, ho⟩
        exact ⟨k, Nat.zero_le k, by omega, (hcontinues.occursAt htype).2 ho⟩
  · constructor
    · rintro ⟨os, h⟩
      obtain ⟨forwarded, hforwarded, h⟩ := Option.bind_eq_some_iff.1 h
      refine ⟨delta_of_fastForward hforwarded, fun type' htype' k t hk hreach ↦ ?_⟩
      rw [htype] at htype'
      cases htype'
      cases fastForward_spec hforwarded with
      | exhausted _ hnone => exact absurd hreach (hnone type htype k t)
      | continues hcontinues _ =>
        have hstays := (expands_iff (hseries _)).1 ⟨os, h⟩
        exact hcontinues.goesOn.1 (hstays k t hk ((hcontinues.reaches htype).2 hreach))
    · intro hinside
      obtain ⟨forwarded, hforwarded⟩ := fastForward_isSome hinside
      cases fastForward_spec hforwarded with
      | exhausted _ _ => exact ⟨[], Option.bind_eq_some_iff.2 ⟨_, hforwarded, rfl⟩⟩
      | @continues f hcontinues _ =>
        obtain ⟨os, hos⟩ := (expands_iff (w := w) (hseries f)).2 fun k t hk hreach ↦
          hcontinues.goesOn.2 (hinside.goesOn type htype k t hk ((hcontinues.reaches htype).1 hreach))
        exact ⟨os, Option.bind_eq_some_iff.2 ⟨_, hforwarded, hos⟩⟩

theorem found_spec : (∀ os, row.found w = some os → os = row.shown w) ∧
    ((∃ os, row.found w = some os) ↔ row.Inside w) := by
  cases htype : row.recurType with
  | none =>
    refine ⟨fun os h ↦ ?_, fun _ ↦ inside_oneOff htype, fun _ ↦ ⟨_, found_oneOff htype⟩⟩
    rw [found_oneOff htype] at h
    exact (Option.some.inj h).symm
  | some type => exact found_series htype

theorem found_iff : row.found w = some (row.shown w) ↔ row.Inside w := by
  constructor
  · intro h
    exact found_spec.2.1 ⟨_, h⟩
  · intro h
    obtain ⟨os, hos⟩ := found_spec.2.2 h
    rw [hos, found_spec.1 os hos]

section Table

variable {items : List FreezeOccurrence}

theorem mem_valid : row ∈ table.rows.filter (·.valid) ↔ row ∈ table.rows ∧ row.valid = true :=
  List.mem_filter

theorem expandAll_spec {rows : List Freeze} :
    (∀ expanded, expandAll rows w = some expanded →
      expanded = rows.map fun row ↦ (row, row.shown w)) ∧
    ((∃ expanded, expandAll rows w = some expanded) ↔ ∀ row ∈ rows, row.Inside w) := by
  induction rows with
  | nil =>
    refine ⟨fun expanded h ↦ ?_, fun _ _ h ↦ absurd h List.not_mem_nil, fun _ ↦ ⟨[], rfl⟩⟩
    exact (Option.some.inj h).symm
  | cons row rows ih =>
    have hcons : ∀ expanded, expandAll (row :: rows) w = some expanded ↔
        ∃ found, row.found w = some found ∧ ∃ rest, expandAll rows w = some rest ∧
          (row, found) :: rest = expanded := by
      intro expanded
      rw [expandAll, List.mapM_cons]
      simp only [Option.bind_eq_bind, Option.bind_eq_some_iff, Option.map_eq_some_iff,
        Option.pure_def, Option.some.injEq]
      constructor
      · rintro ⟨_, ⟨found, hfound, rfl⟩, rest, hrest, h⟩
        exact ⟨found, hfound, rest, hrest, h⟩
      · rintro ⟨found, hfound, rest, hrest, h⟩
        exact ⟨_, ⟨found, hfound, rfl⟩, rest, hrest, h⟩
    constructor
    · intro expanded h
      obtain ⟨found, hfound, rest, hrest, rfl⟩ := (hcons expanded).1 h
      rw [List.map_cons, found_spec.1 found hfound, ih.1 rest hrest]
    · rw [List.forall_mem_cons]
      constructor
      · rintro ⟨expanded, h⟩
        obtain ⟨found, hfound, rest, hrest, -⟩ := (hcons expanded).1 h
        exact ⟨found_spec.2.1 ⟨found, hfound⟩, ih.2.1 ⟨rest, hrest⟩⟩
      · rintro ⟨hrow, hrows⟩
        obtain ⟨found, hfound⟩ := found_spec.2.2 hrow
        obtain ⟨rest, hrest⟩ := ih.2.2 hrows
        exact ⟨_, (hcons _).2 ⟨found, hfound, rest, hrest, rfl⟩⟩

/-- What is listed before it is cut off. -/
def listed (table : Freezes) (w : Window) : List FreezeOccurrence :=
  (table.rows.filter (·.valid)).flatMap fun row ↦ (row.shown w).map row.item

theorem length_listed : (listed table w).length =
    ((table.rows.filter (·.valid)).map fun row ↦ (row.shown w).length).sum := by
  simp only [listed, List.length_flatMap, List.length_map]

theorem occurrences_spec {r : FreezeOccurrences} (h : occurrences table w = some r) :
    r.items = ((listed table w).mergeSort FreezeOccurrence.le).take maxOccurrences ∧
    (r.truncated = false ↔ (∀ row ∈ table.rows, row.valid = true →
      (row.shown w).length < maxOccurrences) ∧ (listed table w).length ≤ maxOccurrences) := by
  obtain ⟨expanded, hexpanded, rfl⟩ := Option.map_eq_some_iff.1 h
  obtain rfl := expandAll_spec.1 expanded hexpanded
  have hlisted : ((table.rows.filter (·.valid)).map fun row ↦ (row, row.shown w)).flatMap
      (fun r ↦ r.2.map r.1.item) = listed table w := by
    simp only [listed, List.flatMap_map]
  simp only [hlisted]
  refine ⟨trivial, ?_⟩
  rw [Bool.or_eq_false_iff, decide_eq_false_iff_not, List.length_mergeSort, not_lt,
    List.any_eq_false]
  refine and_congr_left fun _ ↦ ?_
  simp only [List.forall_mem_map, decide_eq_true_eq, not_le, List.mem_filter, and_imp]

theorem occurrences_isSome : (∃ r, occurrences table w = some r) ↔
    ∀ row ∈ table.rows, row.valid = true → row.Inside w := by
  have hall : (∀ row ∈ table.rows, row.valid = true → row.Inside w) ↔
      ∀ row ∈ table.rows.filter (·.valid), row.Inside w := by
    simp only [List.mem_filter, and_imp]
  rw [hall, ← expandAll_spec.2]
  constructor
  · rintro ⟨r, h⟩
    obtain ⟨expanded, hexpanded, -⟩ := Option.map_eq_some_iff.1 h
    exact ⟨expanded, hexpanded⟩
  · rintro ⟨expanded, hexpanded⟩
    exact ⟨_, Option.map_eq_some_iff.2 ⟨expanded, hexpanded, rfl⟩⟩

theorem mem_listed {i : FreezeOccurrence} : i ∈ listed table w ↔
    ∃ row ∈ table.rows, row.valid = true ∧ ∃ k < maxOccurrences, ∃ o,
      row.OccursAt w (row.skip w.rangeStart + k) o ∧ i = row.item o := by
  simp only [listed, List.mem_flatMap, List.mem_filter, List.mem_map, mem_shown]
  constructor
  · rintro ⟨row, ⟨hrow, hvalid⟩, o, ⟨k, hk, ho⟩, rfl⟩
    exact ⟨row, hrow, hvalid, k, hk, o, ho, rfl⟩
  · rintro ⟨row, hrow, hvalid, k, hk, o, ho, rfl⟩
    exact ⟨row, ⟨hrow, hvalid⟩, o, ⟨k, hk, ho⟩, rfl⟩

theorem eq_of_id {row' : Freeze} (h : row ∈ table.rows) (h' : row' ∈ table.rows)
    (hid : row.id = row'.id) : row = row' := by
  have hids : (table.rows.map (·.id)).Nodup := List.pairwise_map.2 (table.ordered.imp fun hlt ↦ hlt.ne)
  exact List.inj_on_of_nodup_map hids h h' hid

theorem le_trans' (i j l : FreezeOccurrence) (hij : i.le j = true) (hjl : j.le l = true) :
    i.le l = true := by
  simp only [FreezeOccurrence.le, Bool.or_eq_true, Bool.and_eq_true, decide_eq_true_eq,
    Fin.lt_def, Fin.ext_iff] at *
  omega

theorem le_total' (i j : FreezeOccurrence) : (i.le j || j.le i) = true := by
  simp only [FreezeOccurrence.le, Bool.or_eq_true, Bool.and_eq_true, decide_eq_true_eq,
    Fin.lt_def, Fin.ext_iff]
  omega

/-- No two of the listed occurrences have the same start and window. -/
theorem listed_distinct : (listed table w).Pairwise fun i j ↦
    ¬ (i.start = j.start ∧ i.freezeId = j.freezeId) := by
  rw [listed, List.pairwise_flatMap]
  constructor
  · intro row _
    rw [List.pairwise_map]
    exact shown_ordered.imp fun hlt heq ↦ absurd heq.1 hlt.ne
  · refine (table.ordered.filter _).imp fun {row row'} hlt i hi j hj heq ↦ ?_
    obtain ⟨o, -, rfl⟩ := List.mem_map.1 hi
    obtain ⟨o', -, rfl⟩ := List.mem_map.1 hj
    exact absurd heq.2 hlt.ne

theorem sorted_listed : ((listed table w).mergeSort FreezeOccurrence.le).Pairwise fun o o' ↦
    o.start < o'.start ∨ o.start = o'.start ∧ o.freezeId < o'.freezeId := by
  have hsorted := List.pairwise_mergeSort le_trans' le_total' (listed table w)
  have hdistinct := (List.mergeSort_perm (listed table w) FreezeOccurrence.le).symm.pairwise
    listed_distinct fun {i j} hne heq ↦ hne ⟨heq.1.symm, heq.2.symm⟩
  refine (hsorted.and hdistinct).imp fun {i j} h ↦ ?_
  simp only [FreezeOccurrence.le, Bool.or_eq_true, Bool.and_eq_true, decide_eq_true_eq,
    Fin.lt_def, Fin.ext_iff] at h ⊢
  omega

/-- The listing is exact when nothing is left after the first 2000 occurrences of a window. -/
theorem exact_iff : Exact table w ((listed table w).mergeSort FreezeOccurrence.le) ↔
    ∀ row ∈ table.rows, row.valid = true → ∀ k o, row.skip w.rangeStart + maxOccurrences ≤ k →
      ¬ row.OccursAt w k o := by
  constructor
  · intro h row hrow hvalid k o hk ho
    have hmem := (h.mem (row.item o)).2 ⟨row, hrow, hvalid, k, o, ho, rfl⟩
    obtain ⟨row', hrow', -, k', hk', o', ho', heq⟩ := mem_listed.1 (List.mem_mergeSort.1 hmem)
    obtain rfl := eq_of_id hrow hrow' (congrArg FreezeOccurrence.freezeId heq)
    have hindex := occursAt_inj ho ho' (congrArg FreezeOccurrence.start heq)
    omega
  · intro h
    refine ⟨sorted_listed, fun i ↦ ?_⟩
    rw [List.mem_mergeSort, mem_listed]
    constructor
    · rintro ⟨row, hrow, hvalid, k, -, o, ho, rfl⟩
      exact ⟨row, hrow, hvalid, _, o, ho, rfl⟩
    · rintro ⟨row, hrow, hvalid, k, o, ho, rfl⟩
      have hskip : row.skip w.rangeStart ≤ k := not_lt.1 fun hlt ↦ not_occursAt_skipped hlt ho
      have hlast : k < row.skip w.rangeStart + maxOccurrences :=
        not_le.1 fun hle ↦ h row hrow hvalid k o hle ho
      refine ⟨row, hrow, hvalid, k - row.skip w.rangeStart, by omega, o, ?_, rfl⟩
      rwa [Nat.add_sub_cancel' hskip]

theorem length_shown_le : (row.shown w).length ≤ maxOccurrences := by
  have hle := List.length_filterMap_le
    (fun k ↦ row.shownAt w (row.skip w.rangeStart + k)) (List.range maxOccurrences)
  rwa [List.length_range] at hle

/-- A listing that is not cut off is the whole sorted one. -/
theorem items_eq {r : FreezeOccurrences} (h : occurrences table w = some r)
    (htruncated : r.truncated = false) :
    r.items = (listed table w).mergeSort FreezeOccurrence.le := by
  obtain ⟨hitems, htells⟩ := occurrences_spec h
  rw [hitems, List.take_of_length_le]
  rw [List.length_mergeSort]
  exact (htells.1 htruncated).2

/-- A list of freeze windows is complete or marked as truncated, if and only if no window has an
occurrence in the range after its first 2000 ones that are not skipped, or the first 2000 of a
window are all in the range, or more than 2000 of them in all, or a walk leaves the years of a
`datetime`. -/
theorem freezes_complete_iff (table : Freezes) (w : Window) :
    Complete table w ↔ Covered table w := by
  constructor
  · intro h
    by_cases hinside : ∀ row ∈ table.rows, row.valid = true → row.Inside w
    · obtain ⟨r, hr⟩ := occurrences_isSome.2 hinside
      cases htruncated : r.truncated with
      | false =>
        have hexact := h.exact r hr htruncated
        rw [items_eq hr htruncated] at hexact
        exact .inl (exact_iff.1 hexact)
      | true =>
        by_cases hfull : ∃ row ∈ table.rows, row.valid = true ∧ (row.shown w).length = maxOccurrences
        · exact .inr (.inl hfull)
        · refine .inr (.inr (.inl (not_le.1 fun hle ↦ ?_)))
          rw [← length_listed] at hle
          have hfalse : r.truncated = false := (occurrences_spec hr).2.2
            ⟨fun row hrow hvalid ↦ length_shown_le.lt_of_ne fun heq ↦
              hfull ⟨row, hrow, hvalid, heq⟩, hle⟩
          exact Bool.false_ne_true (hfalse.symm.trans htruncated)
    · refine .inr (.inr (.inr ?_))
      by_contra hnone
      refine hinside fun row hrow hvalid ↦ ?_
      by_contra hout
      exact hnone ⟨row, hrow, hvalid, hout⟩
  · intro h
    refine ⟨fun r hr htruncated ↦ ?_, fun row _ k o ho ↦ ?_, fun row _ forwarded hforwarded ↦ ?_⟩
    · obtain ⟨hbelow, hlength⟩ := (occurrences_spec hr).2.1 htruncated
      rw [items_eq hr htruncated]
      rcases h with hnone | ⟨row, hrow, hvalid, hfull⟩ | htotal | ⟨row, hrow, hvalid, hout⟩
      · exact exact_iff.2 hnone
      · exact absurd hfull (hbelow row hrow hvalid).ne
      · rw [← length_listed] at htotal
        exact absurd hlength (not_le.2 htotal)
      · exact absurd (occurrences_isSome.1 ⟨r, hr⟩ row hrow hvalid) hout
    · exact not_lt.1 fun hlt ↦ not_occursAt_skipped hlt ho
    · exact fastForward_spec hforwarded

end Table

section Sample

/-- Daily from 9 to 10 from January 1, 2020 on. -/
def nightly : Freeze where
  id := 1
  name := "nightly"
  enforcement := .block
  allowEmergency := true
  scope := .all
  serviceIds := []
  startsAt := standup.startTime
  endsAt := standup.endTime
  recurType := some .daily
  recurInterval := some 1
  recurCount := none
  recurUntil := none
  valid := true
  ends := by decide

def onlyNightly : Freezes := ⟨[nightly], List.pairwise_singleton _ _⟩

/-- From the end of its first day on. -/
def fiveYears : Window := ⟨standup.endTime, clock 739430 0 (by decide)⟩

theorem nightly_skip : nightly.skip fiveYears.rangeStart = 0 := by decide

theorem nightly_occurrence {k : ℕ} {t : Datetime} : nightly.whole.occurrence .daily k = some t ↔
    t.1 = nightly.startsAt.1 + k * dayMicros := by
  have hstep : 1 * nightly.interval * dayMicros = dayMicros := by decide
  have hunit : nightly.unitDays = some 1 := rfl
  rw [occurrence_unit hunit rfl _ rfl, hstep, of?_eq_some]
  exact Iff.rfl

theorem nightly_inside : nightly.Inside fiveYears := by
  have hdelta : 1 * nightly.interval ≤ maxDeltaDays := by decide
  refine ⟨fun unit hunit ↦ ?_, fun type htype k t hk hreach ↦ ?_⟩
  · cases hunit
    exact hdelta
  · cases htype
    have hoccurrence := hreach.occurrence
    rw [nightly_skip, Nat.zero_add, nightly_occurrence] at hoccurrence
    have hbound : k * dayMicros ≤ maxOccurrences * dayMicros := Nat.mul_le_mul_right _ hk.le
    have hlast : t.1 ≤ nightly.startsAt.1 + maxOccurrences * dayMicros := by omega
    have hday : nightly.whole.interval * dayMicros = dayMicros := by decide
    refine ⟨⟨_, of?_of_lt ?_⟩, _, of?_of_lt ?_⟩
    · exact (Nat.add_le_add_right hlast _).trans_lt (by decide)
    · rw [hday]
      exact (Nat.add_le_add_right hlast _).trans_lt (by decide)

/-- The first occurrence ends where the range starts. -/
theorem nightly_shown : (nightly.shown fiveYears).length < maxOccurrences := by
  have hnone : ∃ k, ∃ _ : k ∈ List.range maxOccurrences,
      nightly.shownAt fiveYears (nightly.skip fiveYears.rangeStart + k) = none :=
    ⟨0, List.mem_range.2 (by decide), by decide⟩
  have hlt := List.length_filterMap_lt_length_iff_exists.2 hnone
  rwa [List.length_range] at hlt

theorem nightly_last : ∃ o, nightly.OccursAt fiveYears maxOccurrences o := by
  refine ⟨⟨clock 739424 9 (by decide), clock 739424 10 (by decide), true⟩, ?_⟩
  have hoccurrence : nightly.whole.occurrence .daily maxOccurrences =
      some (clock 739424 9 (by decide)) := nightly_occurrence.2 rfl
  exact ⟨⟨hoccurrence, rfl, rfl, by decide⟩, by decide, rfl, by decide, List.not_mem_nil⟩

/-- The 2001st day is in the range and not listed, and the list is not marked. -/
theorem last_day_lost : ¬ Complete onlyNightly fiveYears := by
  intro h
  have honly : ∀ row ∈ onlyNightly.rows, row = nightly := fun row hrow ↦ List.mem_singleton.1 hrow
  obtain ⟨r, hr⟩ := occurrences_isSome.2 fun row hrow _ ↦ honly row hrow ▸ nightly_inside
  have hlength : (listed onlyNightly fiveYears).length = (nightly.shown fiveYears).length := by
    rw [length_listed]
    have hvalid : onlyNightly.rows.filter (·.valid) = [nightly] := rfl
    rw [hvalid, List.map_singleton, List.sum_singleton]
  have htruncated : r.truncated = false := by
    refine (occurrences_spec hr).2.2 ⟨fun row hrow _ ↦ ?_, ?_⟩
    · rw [honly row hrow]
      exact nightly_shown
    · rw [hlength]
      exact nightly_shown.le
  have hexact := h.exact r hr htruncated
  rw [items_eq hr htruncated] at hexact
  obtain ⟨o, ho⟩ := nightly_last
  refine exact_iff.1 hexact nightly (List.mem_singleton_self _) rfl maxOccurrences o ?_ ho
  rw [nightly_skip, Nat.zero_add]

end Sample

end Tiqora.Itsm.Freezes
