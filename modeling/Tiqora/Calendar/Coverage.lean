import Tiqora.Calendar.Recurrence

namespace Tiqora.Calendar

namespace Appointment

variable (a : Appointment) (type : RecurType) (w : Window)

/-- The series goes on to its `k`-th occurrence, which starts before the window ends. -/
structure Reaches (k : ℕ) (t : Datetime) : Prop where
  occurrence : a.occurrence type k = some t
  until_ : a.pastUntil t = false
  count : a.pastCount k = false
  before : t < w.rangeEnd

/-- The `k`-th occurrence of the series overlaps the window and is not excluded. -/
structure OccursAt (k : ℕ) (o : Occurrence) : Prop where
  reaches : a.Reaches type w k o.start
  stop : o.stop.1 = o.start.1 + a.duration
  isRecurring : o.isRecurring = true
  after : w.rangeStart < o.stop
  included : o.start ∉ a.exclude

def Occurs (o : Occurrence) : Prop := ∃ k, a.OccursAt type w k o

/-- The occurrence ends and is followed within the years that a `datetime` has. -/
def GoesOn (t : Datetime) : Prop :=
  (∃ e, Datetime.of? (t.1 + a.duration) = some e) ∧ ∃ t', step type a.interval t = some t'

/-- The walk over the series stays within the years that a `datetime` has. -/
def StaysInside : Prop := ∀ k t, k < maxOccurrences → a.Reaches type w k t → a.GoesOn type t

/-- The listed occurrences are those of the series that overlap the window, in order. -/
def Complete : Prop :=
  ∃ os, a.expandOccurrences w = some os ∧ (os.Pairwise fun o o' ↦ o.start < o'.start) ∧
    ∀ o, o ∈ os ↔ a.Occurs type w o

/-- Two adjacent windows list together what the whole one lists. -/
def Splits : Prop :=
  ∀ mid, w.rangeStart ≤ mid → mid ≤ w.rangeEnd → ∃ os first second,
    a.expandOccurrences w = some os ∧ a.expandOccurrences ⟨w.rangeStart, mid⟩ = some first ∧
      a.expandOccurrences ⟨mid, w.rangeEnd⟩ = some second ∧
        ∀ o, o ∈ os ↔ o ∈ first ∨ o ∈ second

end Appointment

variable {a : Appointment} {type : RecurType} {w : Window} {k n fuel : ℕ} {t t' : Datetime}

theorem interval_pos : 0 < a.interval := lt_of_lt_of_le Nat.one_pos (le_max_right _ _)

theorem occurrence_succ : a.occurrence type (k + 1) = some t' ↔
    ∃ t, a.occurrence type k = some t ∧ step type a.interval t = some t' :=
  Option.bind_eq_some_iff

/-- The days of a daily series. -/
theorem occurrence_daily (h : a.occurrence .daily k = some t) :
    t.1 = a.startTime.1 + k * (a.interval * dayMicros) := by
  induction k generalizing t with
  | zero =>
    cases h
    rw [Nat.zero_mul, Nat.add_zero]
  | succ k ih =>
    obtain ⟨s, hs, hstep⟩ := occurrence_succ.1 h
    rw [of?_eq_some.1 hstep, ih hs, Nat.succ_mul, Nat.add_assoc]

/-- Later occurrences start later. -/
theorem occurrence_lt {j : ℕ} (hjk : j < k) (hj : a.occurrence type j = some t)
    (hk : a.occurrence type k = some t') : t < t' := by
  induction hjk generalizing t' with
  | refl =>
    obtain ⟨s, hs, hstep⟩ := occurrence_succ.1 hk
    rw [hj] at hs
    cases hs
    exact lt_of_step interval_pos hstep
  | step _ ih =>
    obtain ⟨s, hs, hstep⟩ := occurrence_succ.1 hk
    exact (ih hs).trans (lt_of_step interval_pos hstep)

theorem occurrence_le {j : ℕ} (hjk : j ≤ k) (hj : a.occurrence type j = some t)
    (hk : a.occurrence type k = some t') : t ≤ t' := by
  rcases hjk.lt_or_eq with hlt | rfl
  · exact (occurrence_lt hlt hj hk).le
  · rw [hj] at hk
    cases hk
    exact le_rfl

/-- A series that reaches an occurrence reaches the ones before it. -/
theorem reaches_of_le {j : ℕ} (hjk : j ≤ k) (hj : a.occurrence type j = some t)
    (hk : a.Reaches type w k t') : a.Reaches type w j t := by
  have hle := occurrence_le hjk hj hk.occurrence
  refine ⟨hj, ?_, ?_, hle.trans_lt hk.before⟩
  · have huntil := hk.until_
    rw [Appointment.pastUntil] at huntil ⊢
    cases hr : a.recurUntil with
    | none => rfl
    | some u =>
      rw [hr] at huntil
      exact decide_eq_false (not_lt.2 (hle.trans (not_lt.1 (of_decide_eq_false huntil))))
  · have hcount := hk.count
    rw [Appointment.pastCount] at hcount ⊢
    cases hr : a.recurCount with
    | none => rfl
    | some count =>
      rw [hr] at hcount
      have hlt : ¬ count ≤ (k : ℤ) := of_decide_eq_false hcount
      exact decide_eq_false (by omega)

/-- What the loop lists from the `n`-th occurrence on, when no `datetime` overflows. -/
structure Lists (a : Appointment) (type : RecurType) (w : Window) (n fuel : ℕ) (t : Datetime)
    (os : List Occurrence) : Prop where
  ordered : os.Pairwise fun o o' ↦ o.start < o'.start
  from_ : ∀ o ∈ os, t ≤ o.start
  mem : ∀ o, o ∈ os ↔ ∃ k, n ≤ k ∧ k < n + fuel ∧ a.OccursAt type w k o

theorem lists_nil (hocc : a.occurrence type n = some t) (hstop : ¬ a.Reaches type w n t) :
    Lists a type w n fuel t [] := by
  refine ⟨.nil, fun _ ho ↦ absurd ho List.not_mem_nil, fun o ↦ ?_⟩
  refine iff_of_false List.not_mem_nil ?_
  rintro ⟨k, hnk, -, hoccurs⟩
  exact hstop (reaches_of_le hnk hocc hoccurs.reaches)

/-- One turn of the loop at an occurrence that the series reaches. -/
theorem lists_cons {e : Datetime} {os : List Occurrence} (hreach : a.Reaches type w n t)
    (hend : e.1 = t.1 + a.duration) (hnext : step type a.interval t = some t')
    (h : Lists a type w (n + 1) fuel t' os) :
    Lists a type w n (fuel + 1) t
      (if w.rangeStart < e ∧ t ∉ a.exclude then ⟨t, e, true⟩ :: os else os) := by
  have hlt := lt_of_step interval_pos hnext
  have hat : ∀ o, a.OccursAt type w n o ↔
      (w.rangeStart < e ∧ t ∉ a.exclude) ∧ o = ⟨t, e, true⟩ := by
    intro o
    constructor
    · intro ho
      have hstart := ho.reaches.occurrence
      rw [hreach.occurrence] at hstart
      obtain ⟨start, stop, recurring⟩ := o
      cases hstart
      have hstop : stop = e := Fin.ext (ho.stop.trans hend.symm)
      obtain rfl : recurring = true := ho.isRecurring
      subst hstop
      exact ⟨⟨ho.after, ho.included⟩, rfl⟩
    · rintro ⟨⟨hafter, hincluded⟩, rfl⟩
      exact ⟨hreach, hend, rfl, hafter, hincluded⟩
  have hsplit : ∀ o, (∃ k, n ≤ k ∧ k < n + (fuel + 1) ∧ a.OccursAt type w k o) ↔
      a.OccursAt type w n o ∨ o ∈ os := by
    intro o
    rw [h.mem]
    constructor
    · rintro ⟨k, hle, hk, ho⟩
      rcases hle.eq_or_lt with rfl | hlt
      · exact .inl ho
      · exact .inr ⟨k, hlt, by omega, ho⟩
    · rintro (ho | ⟨k, hle, hk, ho⟩)
      · exact ⟨n, le_rfl, by omega, ho⟩
      · exact ⟨k, by omega, by omega, ho⟩
  split
  · next hlisted =>
    refine ⟨List.pairwise_cons.2 ⟨fun o ho ↦ hlt.trans_le (h.from_ o ho), h.ordered⟩, ?_, ?_⟩
    · exact List.forall_mem_cons.2 ⟨le_rfl, fun o ho ↦ hlt.le.trans (h.from_ o ho)⟩
    · intro o
      rw [hsplit, hat, List.mem_cons]
      exact or_congr (iff_and_self.2 fun _ ↦ hlisted) Iff.rfl
  · next hskipped =>
    refine ⟨h.ordered, fun o ho ↦ hlt.le.trans (h.from_ o ho), fun o ↦ ?_⟩
    rw [hsplit, hat]
    exact ⟨.inr, fun ho ↦ ho.resolve_left fun hc ↦ hskipped hc.1⟩

theorem stops_iff (hocc : a.occurrence type n = some t) :
    (a.pastUntil t || a.pastCount n || decide (w.rangeEnd ≤ t)) = true ↔
      ¬ a.Reaches type w n t := by
  rw [Bool.or_eq_true, Bool.or_eq_true, decide_eq_true_eq]
  constructor
  · rintro ((huntil | hcount) | hend) hreach
    · exact absurd (huntil.symm.trans hreach.until_) (by decide)
    · exact absurd (hcount.symm.trans hreach.count) (by decide)
    · exact absurd hreach.before (not_lt.2 hend)
  · intro hstop
    by_contra hgoes
    rw [not_or, not_or, Bool.not_eq_true, Bool.not_eq_true, not_le] at hgoes
    exact hstop ⟨hocc, hgoes.1.1, hgoes.1.2, hgoes.2⟩

/-- The loop lists what it should, and comes to its end when the walk stays inside. -/
theorem expandFrom_spec (hocc : a.occurrence type n = some t) :
    (∀ os, a.expandFrom w type fuel n t = some os → Lists a type w n fuel t os) ∧
    ((∃ os, a.expandFrom w type fuel n t = some os) ↔
      ∀ k s, n ≤ k → k < n + fuel → a.Reaches type w k s → a.GoesOn type s) := by
  induction fuel generalizing n t with
  | zero =>
    refine ⟨fun os h ↦ ?_, fun _ k s hle hlt ↦ ?_, fun _ ↦ ⟨[], rfl⟩⟩
    · cases h
      refine ⟨.nil, fun _ ho ↦ absurd ho List.not_mem_nil, fun o ↦ ?_⟩
      refine iff_of_false List.not_mem_nil ?_
      rintro ⟨k, hle, hlt, -⟩
      omega
    · omega
  | succ fuel ih =>
    rw [Appointment.expandFrom]
    by_cases hreach : a.Reaches type w n t
    · rw [if_neg fun hstop ↦ (stops_iff hocc).1 hstop hreach]
      have hsome : ∀ os, (do
          let occEnd ← Datetime.of? (t.1 + a.duration)
          let next ← step type a.interval t
          let rest ← a.expandFrom w type fuel (n + 1) next
          pure (if w.rangeStart < occEnd ∧ t ∉ a.exclude then ⟨t, occEnd, true⟩ :: rest
            else rest)) = some os ↔
          ∃ e, Datetime.of? (t.1 + a.duration) = some e ∧ ∃ next, step type a.interval t = some next ∧
            ∃ rest, a.expandFrom w type fuel (n + 1) next = some rest ∧
              (if w.rangeStart < e ∧ t ∉ a.exclude then ⟨t, e, true⟩ :: rest else rest) = os := by
        intro os
        simp only [Option.bind_eq_bind, Option.bind_eq_some_iff, Option.pure_def, Option.some.injEq]
      constructor
      · intro os h
        obtain ⟨e, he, next, hnext, rest, hrest, rfl⟩ := (hsome os).1 h
        have hocc' := occurrence_succ.2 ⟨t, hocc, hnext⟩
        exact lists_cons hreach (of?_eq_some.1 he) hnext ((ih hocc').1 rest hrest)
      · constructor
        · rintro ⟨os, h⟩ k s hle hlt hk
          obtain ⟨e, he, next, hnext, rest, hrest, -⟩ := (hsome os).1 h
          rcases hle.eq_or_lt with rfl | hn
          · have hs := hk.occurrence
            rw [hocc] at hs
            cases hs
            exact ⟨⟨e, he⟩, next, hnext⟩
          · have hocc' := occurrence_succ.2 ⟨t, hocc, hnext⟩
            exact (ih hocc').2.1 ⟨rest, hrest⟩ k s hn (by omega) hk
        · intro hgoes
          obtain ⟨⟨e, he⟩, next, hnext⟩ := hgoes n t le_rfl (by omega) hreach
          have hocc' := occurrence_succ.2 ⟨t, hocc, hnext⟩
          obtain ⟨rest, hrest⟩ := (ih hocc').2.2 fun k s hle hlt ↦
            hgoes k s (by omega) (by omega)
          exact ⟨_, (hsome _).2 ⟨e, he, next, hnext, rest, hrest, rfl⟩⟩
    · rw [if_pos ((stops_iff hocc).2 hreach)]
      refine ⟨fun os h ↦ ?_, fun _ k s hle _ hk ↦ ?_, fun _ ↦ ⟨[], rfl⟩⟩
      · cases h
        exact lists_nil hocc hreach
      · exact absurd (reaches_of_le hle hocc hk) hreach

section Windows

variable (htype : a.recurType = some type)
include htype

theorem expandOccurrences_eq :
    a.expandOccurrences w = a.expandFrom w type maxOccurrences 0 a.startTime := by
  rw [Appointment.expandOccurrences, htype]

theorem expand_spec {os : List Occurrence} (h : a.expandOccurrences w = some os) :
    Lists a type w 0 maxOccurrences a.startTime os := by
  rw [expandOccurrences_eq htype] at h
  exact (expandFrom_spec rfl).1 os h

theorem expands_iff : (∃ os, a.expandOccurrences w = some os) ↔ a.StaysInside type w := by
  rw [expandOccurrences_eq htype, (expandFrom_spec rfl).2]
  exact ⟨fun h k t hk ↦ h k t (Nat.zero_le k) (by omega), fun h k t _ hk ↦ h k t (by omega)⟩

/-- The listing is complete when the walk comes to its end and no later occurrence is left. -/
theorem complete_iff : a.Complete type w ↔
    a.StaysInside type w ∧ ∀ k o, maxOccurrences ≤ k → ¬ a.OccursAt type w k o := by
  constructor
  · rintro ⟨os, hos, -, hmem⟩
    refine ⟨(expands_iff htype).1 ⟨os, hos⟩, fun k o hk ho ↦ ?_⟩
    obtain ⟨j, -, hj, ho'⟩ := ((expand_spec htype hos).mem o).1 ((hmem o).2 ⟨k, ho⟩)
    have hlt : j < k := by omega
    exact absurd (occurrence_lt hlt ho'.reaches.occurrence ho.reaches.occurrence) (lt_irrefl _)
  · rintro ⟨hinside, hlate⟩
    obtain ⟨os, hos⟩ := (expands_iff htype).2 hinside
    have hlists := expand_spec htype hos
    refine ⟨os, hos, hlists.ordered, fun o ↦ (hlists.mem o).trans ?_⟩
    constructor
    · rintro ⟨k, -, -, ho⟩
      exact ⟨k, ho⟩
    · rintro ⟨k, ho⟩
      exact ⟨k, Nat.zero_le k, by by_contra hge; exact hlate k o (by omega) ho, ho⟩

end Windows

/-- A window inside another one has fewer occurrences. -/
theorem Appointment.OccursAt.widen {w' : Window} {o : Occurrence} (h : a.OccursAt type w k o)
    (hstart : w'.rangeStart ≤ w.rangeStart) (hend : w.rangeEnd ≤ w'.rangeEnd) :
    a.OccursAt type w' k o :=
  ⟨⟨h.reaches.occurrence, h.reaches.until_, h.reaches.count, h.reaches.before.trans_le hend⟩,
    h.stop, h.isRecurring, hstart.trans_lt h.after, h.included⟩

theorem complete_of_inner (htype : a.recurType = some type) {w' : Window}
    (h : a.Complete type w') (hstart : w'.rangeStart ≤ w.rangeStart)
    (hend : w.rangeEnd ≤ w'.rangeEnd) : a.Complete type w := by
  obtain ⟨hinside, hlate⟩ := (complete_iff htype).1 h
  refine (complete_iff htype).2 ⟨fun k t hk hr ↦ hinside k t hk ?_, fun k o hk ho ↦ ?_⟩
  · exact ⟨hr.occurrence, hr.until_, hr.count, hr.before.trans_le hend⟩
  · exact hlate k o hk (ho.widen hstart hend)

/-- Two adjacent windows list together what the whole one does, unless the series consists of
instants: one at the border is in neither. -/
theorem splits_iff (htype : a.recurType = some type) (h : a.Complete type w) :
    a.Splits w ↔ (a.duration = 0 → ∀ o, ¬ a.Occurs type w o) := by
  obtain ⟨os, hos, hordered, hmem⟩ := h
  constructor
  · rintro hsplits hzero o ⟨k, ho⟩
    have hstop : o.stop = o.start := Fin.ext (by rw [ho.stop, hzero, Nat.add_zero])
    have hafter : w.rangeStart < o.start := hstop ▸ ho.after
    obtain ⟨os', first, second, hos', hfirst, hsecond, hunion⟩ :=
      hsplits o.start hafter.le ho.reaches.before.le
    rw [hos] at hos'
    cases hos'
    rcases (hunion o).1 ((hmem o).2 ⟨k, ho⟩) with hin | hin
    · obtain ⟨j, -, -, hj⟩ := ((expand_spec htype hfirst).mem o).1 hin
      exact lt_irrefl _ hj.reaches.before
    · obtain ⟨j, -, -, hj⟩ := ((expand_spec htype hsecond).mem o).1 hin
      exact lt_irrefl _ (hstop ▸ hj.after)
  · intro hlong mid hstart hend
    have hcomplete : a.Complete type w := ⟨os, hos, hordered, hmem⟩
    obtain ⟨first, hfirst, -, hmem₁⟩ := complete_of_inner (w := ⟨w.rangeStart, mid⟩) htype
      hcomplete le_rfl hend
    obtain ⟨second, hsecond, -, hmem₂⟩ := complete_of_inner (w := ⟨mid, w.rangeEnd⟩) htype
      hcomplete hstart le_rfl
    refine ⟨os, first, second, hos, hfirst, hsecond, fun o ↦ ?_⟩
    rw [hmem, hmem₁, hmem₂]
    constructor
    · rintro ⟨k, ho⟩
      have hpos : a.duration ≠ 0 := fun hzero ↦ hlong hzero o ⟨k, ho⟩
      rcases lt_or_ge o.start mid with hlt | hge
      · exact .inl ⟨k, ⟨ho.reaches.occurrence, ho.reaches.until_, ho.reaches.count, hlt⟩, ho.stop,
          ho.isRecurring, ho.after, ho.included⟩
      · have hstop : o.start < o.stop := Fin.lt_def.2 (by rw [ho.stop]; omega)
        exact .inr ⟨k, ⟨ho.reaches.occurrence, ho.reaches.until_, ho.reaches.count,
          ho.reaches.before⟩, ho.stop, ho.isRecurring, hge.trans_lt hstop, ho.included⟩
    · rintro (⟨k, ho⟩ | ⟨k, ho⟩)
      · exact ⟨k, ho.widen le_rfl hend⟩
      · exact ⟨k, ho.widen hstart le_rfl⟩

/-- A window lists exactly the occurrences that overlap it, and splits without loss, if and only if
the walk over the series stays within the years of a `datetime`, no occurrence after the first
2000 overlaps it, and a series of instants has none there. -/
theorem occurrences_complete (htype : a.recurType = some type) :
    a.Complete type w ∧ a.Splits w ↔
      a.StaysInside type w ∧ (∀ k o, maxOccurrences ≤ k → ¬ a.OccursAt type w k o) ∧
        (a.duration = 0 → ∀ o, ¬ a.Occurs type w o) := by
  rw [← and_assoc, ← complete_iff htype]
  exact and_congr_right fun h ↦ splits_iff htype h

section Sample

/-- An hour of a day. -/
def clock (day hour : ℕ) (h : day * dayMicros + hour * 3600000000 < maxDays * dayMicros) :
    Datetime := ⟨day * dayMicros + hour * 3600000000, h⟩

/-- Daily from 9 to 10 from January 1, 2020 on. -/
def standup : Appointment where
  startTime := clock 737424 9 (by decide)
  endTime := clock 737424 10 (by decide)
  recurType := some .daily
  recurInterval := some 1
  recurCount := none
  recurUntil := none
  exclude := []
  ends := by decide

/-- The same on two days only. -/
def standupTwice : Appointment := { standup with recurCount := some 2 }

def wholeDay (day : ℕ) (h : (day + 1) * dayMicros < maxDays * dayMicros) : Window :=
  ⟨⟨day * dayMicros, (Nat.mul_le_mul_right _ (Nat.le_succ day)).trans_lt h⟩,
    ⟨(day + 1) * dayMicros, h⟩⟩

theorem occurrences_complete_sample :
    standupTwice.Complete .daily (wholeDay 737425 (by decide)) ∧
      standupTwice.Splits (wholeDay 737425 (by decide)) := by
  have hcount : ∀ {k w t}, standupTwice.Reaches .daily w k t → k = 0 ∨ k = 1 := by
    intro k w t h
    have hlt : ¬ (2 : ℤ) ≤ k := of_decide_eq_false h.count
    omega
  have hduration : standupTwice.duration ≠ 0 := by decide
  refine (occurrences_complete rfl).2 ⟨fun k t _ h ↦ ?_, fun k o hk ho ↦ ?_, fun hzero ↦
    absurd hzero hduration⟩
  · have hday : standupTwice.interval * dayMicros = dayMicros := by decide
    have hlast : t.1 ≤ standupTwice.startTime.1 + dayMicros := by
      have ht := occurrence_daily h.occurrence
      rw [hday] at ht
      rcases hcount h with rfl | rfl <;> omega
    refine ⟨⟨_, of?_of_lt ?_⟩, _, of?_of_lt ?_⟩
    · exact (Nat.add_le_add_right hlast _).trans_lt (by decide)
    · exact (Nat.add_le_add_right hlast _).trans_lt (by decide)
  · rcases hcount ho.reaches with rfl | rfl <;> exact absurd hk (by decide)

/-- The 2501st day of a daily appointment is lost. -/
theorem day_lost :
    standup.expandOccurrences (wholeDay 739924 (by decide)) = some [] ∧
      standup.Occurs .daily (wholeDay 739924 (by decide))
        ⟨clock 739924 9 (by decide), clock 739924 10 (by decide), true⟩ := by
  refine ⟨by decide +kernel, 2500, ⟨by decide +kernel, rfl, rfl, by decide⟩, by decide, rfl,
    by decide, by decide⟩

end Sample

end Tiqora.Calendar
