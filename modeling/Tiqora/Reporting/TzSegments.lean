import Tiqora.Foundation.Bisect
import Tiqora.Reporting.Recurrence
import Tiqora.Reporting.RecurrenceExact

namespace Tiqora.Reporting.Sql

open Foundation Calendar
open Schedule (Zone hourMicros)

inductive Failure
  | overflow
  | endless
  | noSegment
  | openInside
  deriving DecidableEq

/-- The offset from UTC up to an instant, in seconds. The last one is open. -/
structure TzSegment where
  untilUtc : Option ℤ
  offsetSeconds : ℤ
  deriving DecidableEq

def secondMicros : ℕ := 1000000

theorem secondMicros_pos : 0 < secondMicros := by decide

/-- The instants that a `datetime` has. -/
def representable (micros : ℤ) : Bool := 0 ≤ micros && micros < (maxDays * dayMicros : ℕ)

/-- `_offset_at`: the local time has to be a `datetime` too. -/
def offsetAt (zone : Zone) (naiveUtc : ℤ) : Except Failure ℤ :=
  if representable (naiveUtc + zone.offset naiveUtc) then
    .ok ((zone.offset naiveUtc).tdiv secondMicros)
  else .error .overflow

/-- The daily probes after an instant, and the segments that they find. -/
def probe (zone : Zone) (last prevT prevOff : ℤ) : Except Failure (List TzSegment) :=
  if _ : prevT < last then do
    let t := min (prevT + dayMicros) last
    let off ← offsetAt zone t
    if off ≠ prevOff then
      let hi ← bisect secondMicros secondMicros_pos .endless
        (fun mid ↦ (offsetAt zone mid).map fun o ↦ decide (o = prevOff)) prevT t
      let rest ← probe zone last t off
      .ok (⟨some hi, prevOff⟩ :: rest)
    else probe zone last t prevOff
  else .ok [⟨none, prevOff⟩]
termination_by (last - prevT).toNat
decreasing_by
  all_goals
    have hday : (0 : ℤ) < dayMicros := by decide
    omega

def tzSegments (zone : Zone) (startUtc endUtc : Datetime) (marginDays : ℕ) :
    Except Failure (List TzSegment) :=
  let first : ℤ := startUtc.1 - marginDays * dayMicros
  let last : ℤ := endUtc.1 + marginDays * dayMicros
  if representable first && representable last then do
    let prevOff ← offsetAt zone first
    probe zone last first prevOff
  else .error .overflow

/-- A naive UTC column shifted by seconds, or by those of the first branch that the column is
before. -/
inductive LocalExpr
  | shift (seconds : ℤ)
  | case (whens : List (ℤ × ℤ)) (otherwise : ℤ)
  deriving DecidableEq

def LocalExpr.eval (t : ℤ) : LocalExpr → ℤ
  | .shift seconds => t + seconds * secondMicros
  | .case whens otherwise =>
    t + ((whens.find? fun when ↦ decide (t < when.1)).elim otherwise (·.2)) * secondMicros

/-- A branch of the expression. -/
def TzSegment.branch (seg : TzSegment) : Except Failure (ℤ × ℤ) :=
  match seg.untilUtc with
  | none => .error .openInside
  | some bound => .ok (bound, seg.offsetSeconds)

def toLocal (segments : List TzSegment) : Except Failure LocalExpr :=
  match segments.getLast? with
  | none => .error .noSegment
  | some lastSegment =>
    if segments.length = 1 then .ok (.shift lastSegment.offsetSeconds)
    else do
      let whens ← segments.dropLast.mapM TzSegment.branch
      .ok (.case whens lastSegment.offsetSeconds)

/-- A zone whose offsets are whole seconds, and change at whole seconds and at most once within 24
hours. -/
structure RareChanges (zone : Zone) : Prop where
  wholeOffset : ∀ t, (secondMicros : ℤ) ∣ zone.offset t
  wholeChange : ∀ c, zone.offset c ≠ zone.offset (c - 1) → (secondMicros : ℤ) ∣ c
  once : ∀ t, ∃ c, ChangesOnce zone.offset t (t + dayMicros) c

section Value

variable {bounds : List (ℤ × ℤ)} {bound : ℤ × ℤ} {open_ t : ℤ}

/-- Segments from their bounds, and the one without a bound. -/
def segments (bounds : List (ℤ × ℤ)) (open_ : ℤ) : List TzSegment :=
  bounds.map (fun bound ↦ ⟨some bound.1, bound.2⟩) ++ [⟨none, open_⟩]

def value (bounds : List (ℤ × ℤ)) (open_ t : ℤ) : ℤ :=
  (bounds.find? fun bound ↦ decide (t < bound.1)).elim open_ (·.2)

theorem value_cons : value (bound :: bounds) open_ t =
    if t < bound.1 then bound.2 else value bounds open_ t := by
  by_cases h : t < bound.1 <;> simp [value, h]

theorem mapM_branch (bounds : List (ℤ × ℤ)) :
    (bounds.map fun bound ↦ (⟨some bound.1, bound.2⟩ : TzSegment)).mapM TzSegment.branch =
      .ok bounds := by
  induction bounds with
  | nil => rfl
  | cons bound bounds ih =>
    rw [List.map_cons, List.mapM_cons, ih]
    rfl

theorem toLocal_segments (bounds : List (ℤ × ℤ)) (open_ : ℤ) :
    ∃ e, toLocal (segments bounds open_) = .ok e ∧
      ∀ t, e.eval t = t + value bounds open_ t * secondMicros := by
  cases bounds with
  | nil => exact ⟨.shift open_, rfl, fun t ↦ rfl⟩
  | cons bound bounds =>
    refine ⟨.case (bound :: bounds) open_, ?_, fun t ↦ rfl⟩
    have hlength : (segments (bound :: bounds) open_).length ≠ 1 := by simp [segments]
    rw [toLocal, segments, List.getLast?_concat, ← segments]
    simp only [hlength, if_false]
    rw [segments, List.dropLast_concat, mapM_branch, ok_bind]

end Value

section Probe

variable {zone : Zone} {frac prevT last prevOff open_ : ℤ} {bounds : List (ℤ × ℤ)}

/-- What the segments of a stretch say: the offset of each of its instants, but for those within a
fraction of a second after a change. -/
structure Segmented (zone : Zone) (frac prevT last prevOff : ℤ) (bounds : List (ℤ × ℤ))
    (open_ : ℤ) : Prop where
  ordered : (bounds.map (·.1)).Pairwise (· < ·)
  after : ∀ bound ∈ bounds, prevT < bound.1
  before : ∀ t ≤ prevT, value bounds open_ t = prevOff
  exact : ∀ t, prevT ≤ t → t ≤ last → (value bounds open_ t * secondMicros = zone.offset t ↔
    ¬∃ c, prevT < c ∧ zone.offset c ≠ zone.offset (c - 1) ∧ c ≤ t ∧ t < c + frac)

theorem Segmented.stop (hoff : prevOff * secondMicros = zone.offset prevT) (hle : last ≤ prevT) :
    Segmented zone frac prevT last prevOff [] prevOff where
  ordered := by simp
  after := by simp
  before _ _ := rfl
  exact t hge hle' := by
    obtain rfl : t = prevT := by omega
    refine ⟨fun _ hchange ↦ ?_, fun _ ↦ hoff⟩
    obtain ⟨c, hafter, -, hbefore, -⟩ := hchange
    omega

/-- A stretch without a change. -/
theorem Segmented.skip {t : ℤ} (h : Segmented zone frac t last prevOff bounds open_)
    (hlt : prevT < t) (hconst : ∀ u, prevT ≤ u → u ≤ t → zone.offset u = zone.offset prevT)
    (hoff : prevOff * secondMicros = zone.offset prevT) :
    Segmented zone frac prevT last prevOff bounds open_ where
  ordered := h.ordered
  after bound hbound := hlt.trans (h.after bound hbound)
  before u hle := h.before u (by omega)
  exact u hge hle := by
    have hnone : ∀ c, prevT < c → c ≤ t → zone.offset c = zone.offset (c - 1) := by
      intro c hafter hle
      rw [hconst c hafter.le hle, hconst (c - 1) (by omega) (by omega)]
    by_cases hu : u ≤ t
    · refine iff_of_true ?_ ?_
      · rw [h.before u hu, hoff, hconst u hge hu]
      · rintro ⟨c, hafter, hchange, hbefore, -⟩
        exact hchange (hnone c hafter (hbefore.trans hu))
    · rw [h.exact u (by omega) hle, not_iff_not]
      constructor
      · rintro ⟨c, hafter, hchange, hrest⟩
        exact ⟨c, hlt.trans hafter, hchange, hrest⟩
      · rintro ⟨c, hafter, hchange, hrest⟩
        refine ⟨c, ?_, hchange, hrest⟩
        by_contra hle
        exact hchange (hnone c hafter (by omega))

/-- A stretch with a change: its segment ends a fraction of a second after it. -/
theorem Segmented.cut {t c off : ℤ} (h : Segmented zone frac t last off bounds open_)
    (honce : ChangesOnce zone.offset prevT t c) (hne : zone.offset t ≠ zone.offset prevT)
    (hfrac : 0 ≤ frac) (hcut : c + frac ≤ t) (hprev : prevT < c + frac)
    (hoff : prevOff * secondMicros = zone.offset prevT)
    (hoff' : off * secondMicros = zone.offset t) :
    Segmented zone frac prevT last prevOff ((c + frac, prevOff) :: bounds) open_ where
  ordered := by
    refine List.pairwise_cons.2 ⟨fun b hb ↦ ?_, h.ordered⟩
    obtain ⟨bound, hbound, rfl⟩ := List.mem_map.1 hb
    exact hcut.trans_lt (h.after bound hbound)
  after bound hbound := by
    rcases List.mem_cons.1 hbound with rfl | hbound
    · exact hprev
    · have hafter := h.after bound hbound
      omega
  before u hle := by
    rw [value_cons, if_pos]
    exact hle.trans_lt hprev
  exact u hge hle := by
    have hchange := honce.change hne
    have hafter := honce.after
    have honly : ∀ c', prevT < c' → c' ≤ t → zone.offset c' ≠ zone.offset (c' - 1) → c' = c :=
      fun c' hlt hle ↦ honce.unique hlt hle
    simp only [value_cons]
    by_cases hu : u < c + frac
    · rw [if_pos hu, hoff, eq_comm, honce.eq_start_iff hne hge (by omega)]
      constructor
      · rintro hbefore ⟨c', hlow, hchange', hle', -⟩
        have heq := honly c' hlow (by omega) hchange'
        omega
      · intro hnone
        by_contra hge'
        exact hnone ⟨c, hafter, hchange, by omega, hu⟩
    · rw [if_neg hu]
      by_cases hut : u ≤ t
      · refine iff_of_true ?_ ?_
        · rw [h.before u hut, hoff', honce.from_eq u (by omega) hut]
        · rintro ⟨c', hlow, hchange', hle', hlt'⟩
          have heq := honly c' hlow (by omega) hchange'
          omega
      · rw [h.exact u (by omega) hle, not_iff_not]
        constructor
        · rintro ⟨c', hlow, hchange', hrest⟩
          exact ⟨c', by omega, hchange', hrest⟩
        · rintro ⟨c', hlow, hchange', hle', hlt'⟩
          refine ⟨c', ?_, hchange', hle', hlt'⟩
          by_contra hbefore
          have heq := honly c' hlow (by omega) hchange'
          omega

theorem offsetAt_eq {t : ℤ} (h : representable (t + zone.offset t) = true) :
    offsetAt zone t = .ok ((zone.offset t).tdiv secondMicros) := if_pos h

theorem tdiv_mul (hrare : RareChanges zone) (t : ℤ) :
    (zone.offset t).tdiv secondMicros * secondMicros = zone.offset t :=
  Int.tdiv_mul_cancel (hrare.wholeOffset t)

theorem sub_unit_ge {hi : ℤ} (hlow : prevT < hi) (hlattice : (secondMicros : ℤ) ∣ hi - prevT) :
    prevT ≤ hi - secondMicros := by
  have hsecond : (secondMicros : ℤ) = 1000000 := rfl
  rw [hsecond] at hlattice ⊢
  omega

/-- The whole second between two probes that are a second apart. -/
theorem cut_eq {hi c : ℤ} (hlattice : (secondMicros : ℤ) ∣ hi - prevT)
    (hfrac : prevT % secondMicros = frac) (hwhole : (secondMicros : ℤ) ∣ c)
    (hbefore : hi - secondMicros < c) (hat : c ≤ hi) : hi = c + frac := by
  have hsecond : (secondMicros : ℤ) = 1000000 := rfl
  rw [hsecond] at hlattice hfrac hwhole hbefore
  omega

theorem probe_spec (hrare : RareChanges zone)
    (hrange : ∀ t, prevT ≤ t → t ≤ last → representable (t + zone.offset t) = true)
    (hle : prevT ≤ last) (hfrac : prevT % secondMicros = frac) (hlast : last % secondMicros = frac)
    (hoff : prevOff * secondMicros = zone.offset prevT) :
    ∃ bounds open_, probe zone last prevT prevOff = .ok (segments bounds open_) ∧
      Segmented zone frac prevT last prevOff bounds open_ := by
  have hday : (0 : ℤ) < dayMicros := by decide
  have hperiod : ∀ t : ℤ, (t + dayMicros) % secondMicros = t % secondMicros := fun t ↦ by
    simp only [dayMicros, secondMicros]
    omega
  fun_induction probe zone last prevT prevOff with
  | case1 prevT prevOff hlt t ihcut ihskip =>
    have hnext : prevT < t := by omega
    have hlast' : t ≤ last := min_le_right _ _
    have hfrac' : t % secondMicros = frac := by
      rcases min_choice (prevT + dayMicros) last with heq | heq
      · simp only [t, heq, hperiod, hfrac]
      · simp only [t, heq, hlast]
    have hrange' : ∀ u, t ≤ u → u ≤ last → representable (u + zone.offset u) = true :=
      fun u hge hle ↦ hrange u (hnext.le.trans hge) hle
    obtain ⟨c, honce⟩ := hrare.once prevT
    replace honce := honce.restrict hnext (min_le_left _ _)
    have hoff' := tdiv_mul hrare t
    rw [offsetAt_eq (hrange t hnext.le hlast'), ok_bind]
    split
    · next hne =>
      have hne' : zone.offset t ≠ zone.offset prevT := fun heq ↦ by
        rw [heq, ← hoff, Int.mul_tdiv_cancel _ (by decide)] at hne
        exact hne rfl
      have hsame : ∀ u, prevT ≤ u → u ≤ t →
          (offsetAt zone u).map (fun o ↦ decide (o = prevOff)) =
            .ok (decide (zone.offset u = zone.offset prevT)) := by
        intro u hge hle
        rw [offsetAt_eq (hrange u hge (hle.trans hlast')), Except.map]
        refine congrArg _ (decide_eq_decide.2 ⟨fun heq ↦ ?_, fun heq ↦ ?_⟩)
        · rw [← tdiv_mul hrare u, heq, hoff]
        · rw [heq, ← hoff, Int.mul_tdiv_cancel _ (by decide)]
      obtain ⟨hi, hbisect, hlow, hhigh, hlattice, hbefore, hat⟩ :=
        @bisect_spec _ _ secondMicros_pos Failure.endless _ _ _ _ hsame
          (Int.dvd_of_emod_eq_zero (Int.emod_eq_emod_iff_emod_sub_eq_zero.1
            (hfrac'.trans hfrac.symm))) hnext (by simp) (by simpa using hne')
      obtain rfl : hi = min c t + frac := by
        have hwhole := hrare.wholeChange _ (honce.change hne')
        exact cut_eq hlattice hfrac hwhole
          ((honce.eq_start_iff hne' (sub_unit_ge hlow hlattice) (by omega)).1 (by simpa using hbefore))
          (not_lt.1 ((honce.eq_start_iff hne' hlow.le hhigh).not.1 (by simpa using hat)))
      obtain ⟨bounds, open_, hprobe, hsegments⟩ := ihcut _ hrange' hlast' hfrac' hoff'
      refine ⟨_ :: bounds, open_, ?_, hsegments.cut honce hne' ?_ hhigh hlow hoff hoff'⟩
      · rw [hbisect, ok_bind, hprobe, ok_bind]
        rfl
      · rw [← hfrac]
        exact Int.emod_nonneg _ (by decide)
    · next heq =>
      obtain ⟨bounds, open_, hprobe, hsegments⟩ := ihskip prevOff hrange' hlast' hfrac' (by
        rw [← not_not.1 heq, hoff'])
      refine ⟨bounds, open_, hprobe, hsegments.skip hnext (fun u ↦ honce.const ?_) hoff⟩
      rw [← hoff', not_not.1 heq, hoff]
  | case2 prevT prevOff hge =>
    exact ⟨[], prevOff, rfl, .stop hoff (not_lt.1 hge)⟩

end Probe

section Segments

variable {zone : Zone} {startUtc endUtc : Datetime} {marginDays : ℕ}

theorem representable_local (zone : Zone) {t : ℤ} (hlow : (dayMicros : ℤ) ≤ t)
    (hhigh : t + dayMicros < (maxDays * dayMicros : ℕ)) :
    representable (t + zone.offset t) = true := by
  have hbounded := zone.bounded t
  have hhour : hourMicros = 3600000000 := rfl
  have hday : (dayMicros : ℤ) = 86400000000 := rfl
  simp only [representable, Bool.and_eq_true, decide_eq_true_eq]
  omega

/-- The zone moves from one hour before UTC to two. -/
def summerOffset (t : ℤ) : ℤ := if t < 1000 * dayMicros then hourMicros else 2 * hourMicros

def summerWallOffset (x : ℤ) : ℤ :=
  if x < 1000 * dayMicros + 2 * hourMicros then hourMicros else 2 * hourMicros

theorem summerOffset_bounded (t : ℤ) :
    -(14 * hourMicros) ≤ summerOffset t ∧ summerOffset t ≤ 14 * hourMicros := by
  have hhour : hourMicros = 3600000000 := rfl
  rw [summerOffset]
  split <;> omega

theorem summerOffset_ambiguous (t : ℤ)
    (_ : ∀ t' < t, t' + summerOffset t' ≠ t + summerOffset t) :
    summerWallOffset (t + summerOffset t) = summerOffset t := by
  have hhour : hourMicros = 3600000000 := rfl
  rw [summerWallOffset, summerOffset]
  split <;> split <;> omega

theorem summerOffset_gap (x : ℤ) (h : ∀ t, t + summerOffset t ≠ x) :
    ∃ t, t + summerOffset t < x ∧ x < t + 1 + summerOffset (t + 1) ∧
      summerWallOffset x = summerOffset t := by
  have hhour : hourMicros = 3600000000 := rfl
  have hbefore := h (x - hourMicros)
  have hafter := h (x - 2 * hourMicros)
  refine ⟨1000 * dayMicros - 1, ?_⟩
  simp only [summerOffset, summerWallOffset] at *
  split at hbefore <;> split at hafter <;> split <;> split <;> omega

def oneSummer : Zone :=
  ⟨summerOffset, summerWallOffset, summerOffset_bounded, summerOffset_ambiguous, summerOffset_gap⟩

theorem oneSummer_rare : RareChanges oneSummer where
  wholeOffset t := by
    simp only [oneSummer, summerOffset]
    split <;> decide
  wholeChange c h := by
    have hday : (dayMicros : ℤ) = 86400000000 := rfl
    obtain rfl : c = 1000 * dayMicros := by
      simp only [oneSummer, summerOffset] at h
      by_contra hne
      rcases lt_or_gt_of_ne hne with hlt | hgt
      · exact h (by rw [if_pos hlt, if_pos (by omega)])
      · exact h (by rw [if_neg (by omega), if_neg (by omega)])
    decide
  once t := by
    have hday : (dayMicros : ℤ) = 86400000000 := rfl
    by_cases hin : t < 1000 * dayMicros ∧ 1000 * dayMicros ≤ t + (dayMicros : ℤ)
    · refine ⟨1000 * dayMicros, hin.1, hin.2, fun u _ hlt ↦ ?_, fun u hge _ ↦ ?_⟩
      · simp only [oneSummer, summerOffset, if_pos hlt, if_pos hin.1]
      · simp only [oneSummer, summerOffset, if_neg (not_lt.2 hge), if_neg (not_lt.2 hin.2)]
    · refine ⟨t + dayMicros, by omega, le_rfl, fun u hge hlt ↦ ?_, fun u hge hle ↦ ?_⟩
      · simp only [oneSummer, summerOffset]
        split <;> split <;> omega
      · rw [le_antisymm hle hge]

end Segments

end Tiqora.Reporting.Sql
