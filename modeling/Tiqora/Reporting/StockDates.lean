import Tiqora.Reporting.TimeWindows

namespace Tiqora.Reporting.Definition

open Foundation Calendar

variable {defn : ReportDefinition} {src : ReportSource} {dim : Dimension} {keep : List ℕ}
  {window : TimeWindow} {index : ℕ → ℕ} {first stop k turns : ℕ} {dates : List ℕ}

/-- The last day of every bucket that has a day in an interval: one for each of them. -/
structure LastDays (index : ℕ → ℕ) (first stop : ℕ) (dates : List ℕ) : Prop where
  ordered : dates.Pairwise (· < ·)
  within : ∀ e ∈ dates, first ≤ e ∧ e ≤ stop
  last : ∀ d, first ≤ d → d ≤ stop → ∃ e ∈ dates, index e = index d ∧ d ≤ e
  single : ∀ e ∈ dates, ∀ e' ∈ dates, index e = index e' → e = e'

theorem LastDays.nil (h : stop < first) : LastDays index first stop [] where
  ordered := .nil
  within _ he := absurd he List.not_mem_nil
  last _ hge hle := absurd (hge.trans hle) (not_le.2 h)
  single _ he := absurd he List.not_mem_nil

/-- A bucket in front of the others, cut to the interval. -/
theorem LastDays.bucket {P : Periods} {begin : ℕ}
    (h : LastDays P.index (max (P.start (k + 1)) begin) stop dates) :
    LastDays P.index (max (P.start k) begin) stop
      (if max (P.start k) begin ≤ min (P.start (k + 1) - 1) stop then
        min (P.start (k + 1) - 1) stop :: dates else dates) := by
  have hnext : P.start k < P.start (k + 1) := P.mono (Nat.lt_succ_self k)
  have hin : ∀ d, max (P.start k) begin ≤ d → d ≤ min (P.start (k + 1) - 1) stop → P.index d = k :=
    fun d hge hle ↦ P.index_eq.2 (by omega)
  have hlater : ∀ e ∈ dates, P.start (k + 1) ≤ e ∧ k < P.index e := by
    intro e he
    have hge : P.start (k + 1) ≤ e := (le_max_left _ _).trans (h.within e he).1
    exact ⟨hge, P.le_index.2 hge⟩
  split
  · next hbucket =>
    refine ⟨List.pairwise_cons.2 ⟨fun e he ↦ ?_, h.ordered⟩, fun e he ↦ ?_, fun d hge hle ↦ ?_, ?_⟩
    · have hge := (hlater e he).1
      omega
    · rcases List.mem_cons.1 he with rfl | he
      · omega
      · have hwithin := h.within e he
        omega
    · by_cases hd : d < P.start (k + 1)
      · refine ⟨_, List.mem_cons_self, ?_, by omega⟩
        rw [hin _ hbucket le_rfl, hin d hge (by omega)]
      · obtain ⟨e, he, hindex, hle'⟩ := h.last d (by omega) hle
        exact ⟨e, List.mem_cons_of_mem _ he, hindex, hle'⟩
    · have hfirst := hin _ hbucket le_rfl
      intro e he e' he' heq
      rcases List.mem_cons.1 he with rfl | he <;> rcases List.mem_cons.1 he' with rfl | he'
      · rfl
      · have hlt := (hlater e' he').2
        omega
      · have hlt := (hlater e he).2
        omega
      · exact h.single e he e' he' heq
  · next hnone =>
    refine ⟨h.ordered, fun e he ↦ ?_, fun d hge hle ↦ ?_, h.single⟩
    · have hwithin := h.within e he
      omega
    · exact h.last d (by omega) hle

theorem shiftUnit_next (unit : TimeUnit) (k : ℕ) :
    Shifts (shiftUnit unit (unit.periods.start k) 1) (unit.periods.start (k + 1) < maxDays)
      (unit.periods.start (k + 1)) :=
  (shiftUnit_shifts unit k 1).congr ⟨fun h ↦ ⟨by omega, h⟩, fun h ↦ h.2⟩ fun _ ↦ rfl

theorem stockLoop_spec (grain : TimeUnit) (hstop : stop ≤ window.endDate)
    (hend : grain.periods.start (grain.periods.index window.endDate + 1) < maxDays)
    (hturns : window.endDate + 1 - grain.periods.start k ≤ turns) :
    ∃ dates, stockLoop grain window stop turns (grain.periods.start k) = .ok dates ∧
      LastDays grain.periods.index (max (grain.periods.start k) window.startDate) stop dates := by
  have hnext : grain.periods.start k < grain.periods.start (k + 1) :=
    grain.periods.mono (Nat.lt_succ_self k)
  induction turns generalizing k with
  | zero => exact ⟨[], rfl, .nil (by omega)⟩
  | succ turns ih =>
    by_cases hbucket : grain.periods.start k ≤ window.endDate
    · have hle : grain.periods.start (k + 1) ≤
          grain.periods.start (grain.periods.index window.endDate + 1) :=
        grain.periods.mono.monotone (Nat.succ_le_succ (grain.periods.le_index.2 hbucket))
      obtain ⟨dates, hdates, hlast⟩ := ih (k := k + 1) (by omega)
        (grain.periods.mono (Nat.lt_succ_self _))
      refine ⟨_, ?_, hlast.bucket⟩
      rw [stockLoop, if_pos hbucket, (shiftUnit_next grain k).ok (hle.trans_lt hend), ok_bind,
        hdates, ok_bind]
    · exact ⟨[], by rw [stockLoop, if_neg hbucket], .nil (by omega)⟩

/-- The bucket after the window has to be in the calendar. -/
theorem stockLoop_error (grain : TimeUnit)
    (hend : maxDays ≤ grain.periods.start (grain.periods.index window.endDate + 1))
    (hk : grain.periods.start k ≤ window.endDate)
    (hturns : window.endDate + 1 - grain.periods.start k ≤ turns) :
    ∃ e, stockLoop grain window stop turns (grain.periods.start k) = .error e := by
  have hnext : grain.periods.start k < grain.periods.start (k + 1) :=
    grain.periods.mono (Nat.lt_succ_self k)
  induction turns generalizing k with
  | zero => omega
  | succ turns ih =>
    rw [stockLoop, if_pos hk]
    by_cases hvalid : grain.periods.start (k + 1) < maxDays
    · have hlater : grain.periods.start (k + 1) ≤ window.endDate := by
        rw [← grain.periods.le_index]
        have hlt := grain.periods.mono.lt_iff_lt.1 (hvalid.trans_le hend)
        omega
      obtain ⟨e, he⟩ := ih hlater (by omega) (grain.periods.mono (Nat.lt_succ_self _))
      exact ⟨e, by rw [(shiftUnit_next grain k).ok hvalid, ok_bind, he]; rfl⟩
    · rcases (shiftUnit_next grain k).error hvalid with he | he
      · exact ⟨_, by rw [he]; rfl⟩
      · exact ⟨_, by rw [he]; rfl⟩

/-- Stock measures are read once for every bucket of the window, at its last day in the window and
the snapshots, and once for the whole window where the dates are not among the dimensions. Days are
not restricted. With a bucket at the end of the calendar the dates are not found. -/
theorem stock_dates_exact (hdim : src.dimensions.find? (·.stock) = some dim)
    (hmeasure : hasStockMeasure defn src = true) (hwindow : window.startDate ≤ window.endDate)
    (lastSnapshot : Option ℕ) :
    let stop := lastSnapshot.elim window.endDate (min window.endDate)
    (stockGrain defn dim keep = some .day →
      stockDates defn src keep (some window) lastSnapshot = .ok none) ∧
    (stockGrain defn dim keep = none →
      ∃ dates, stockDates defn src keep (some window) lastSnapshot = .ok (some dates) ∧
        LastDays (fun _ ↦ 0) window.startDate stop dates) ∧
    ∀ grain, stockGrain defn dim keep = some grain → grain ≠ .day →
      (grain.periods.start (grain.periods.index window.endDate + 1) < maxDays →
        ∃ dates, stockDates defn src keep (some window) lastSnapshot = .ok (some dates) ∧
          LastDays grain.periods.index window.startDate stop dates) ∧
      (maxDays ≤ grain.periods.start (grain.periods.index window.endDate + 1) →
        ∃ e, stockDates defn src keep (some window) lastSnapshot = .error e) := by
  intro stop
  have hstop : stop ≤ window.endDate := by
    cases lastSnapshot with
    | none => exact le_rfl
    | some snapshot => exact min_le_left _ _
  refine ⟨fun hgrain ↦ ?_, fun hgrain ↦ ?_, fun grain hgrain hday ↦ ?_⟩
  · simp only [stockDates, hdim, hmeasure, if_true, hgrain]
  · simp only [stockDates, hdim, hmeasure, if_true, hgrain]
    refine ⟨_, rfl, ?_⟩
    split
    · next hle =>
      refine ⟨by simp, fun e he ↦ ?_, fun d _ hle' ↦ ⟨_, List.mem_singleton_self _, rfl, hle'⟩, ?_⟩
      · rw [List.mem_singleton.1 he]
        exact ⟨hle, le_rfl⟩
      · intro e he e' he' _
        rw [List.mem_singleton.1 he, List.mem_singleton.1 he']
    · next hlt => exact .nil (not_le.1 hlt)
  · have hbegin := grain.periods.start_index window.startDate
    have hdates : stockDates defn src keep (some window) lastSnapshot =
        (stockLoop grain window stop
          (window.endDate + 1 - grain.periods.start (grain.periods.index window.startDate))
          (grain.periods.start (grain.periods.index window.startDate))).map some := by
      rw [← unitStart_eq]
      cases grain with
      | day => exact absurd rfl hday
      | week | month | quarter | year =>
        simp only [stockDates, hdim, hmeasure, if_true, hgrain]
        rfl
    rw [hdates]
    constructor
    · intro hend
      obtain ⟨dates, hloop, hlast⟩ :=
        stockLoop_spec (k := grain.periods.index window.startDate) grain hstop hend le_rfl
      rw [max_eq_right hbegin] at hlast
      exact ⟨dates, by rw [hloop]; rfl, hlast⟩
    · intro hend
      have hloop : ∃ e, stockLoop grain window stop _ _ = .error e :=
        stockLoop_error grain hend (hbegin.trans hwindow) le_rfl
      obtain ⟨e, hloop⟩ := hloop
      exact ⟨e, by rw [hloop]; rfl⟩

section Sample

def snapshotSource : ReportSource := ⟨[⟨"snapshot_date", true⟩], [⟨"open_count", true⟩]⟩

def openByMonth : ReportDefinition := ⟨[⟨"snapshot_date", some .month⟩], ["open_count"]⟩

/-- Ninety days in 2024. -/
def ninetyDays : TimeWindow :=
  ⟨Schedule.midnight 738900 (by decide), Schedule.midnight 738990 (by decide), 738900, 738989⟩

theorem stock_dates_exact_sample : ∃ dates,
    stockDates openByMonth snapshotSource [0] (some ninetyDays) (some 738980) = .ok (some dates) ∧
      LastDays Foundation.Civil.monthOf 738900 738980 dates := by
  have hend : TimeUnit.month.periods.start (TimeUnit.month.periods.index ninetyDays.endDate + 1) <
      maxDays := by decide +kernel
  have hordered : ninetyDays.startDate ≤ ninetyDays.endDate := by
    change 738900 ≤ 738989
    omega
  have hdim : snapshotSource.dimensions.find? (·.stock) = some ⟨"snapshot_date", true⟩ := rfl
  have hmeasure : hasStockMeasure openByMonth snapshotSource = true := by decide
  have hgrain : stockGrain openByMonth ⟨"snapshot_date", true⟩ [0] = some .month := by decide
  obtain ⟨dates, hdates, hlast⟩ :=
    ((stock_dates_exact hdim hmeasure hordered (some 738980)).2.2 .month hgrain (by decide)).1 hend
  have hstop : (some 738980).elim ninetyDays.endDate (min ninetyDays.endDate) = 738980 :=
    min_eq_right (by decide)
  rw [hstop] at hlast
  exact ⟨dates, hdates, hlast⟩

end Sample

end Tiqora.Reporting.Definition
