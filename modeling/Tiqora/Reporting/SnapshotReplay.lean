import Mathlib.Tactic.Linarith
import Tiqora.Foundation.Sorting
import Tiqora.Reporting.Snapshots

namespace Tiqora.Reporting.Snapshots

open Foundation HistoryEvents

/-- The instant lies after the start and not after the end. -/
def Segment.contains (seg : Segment) (instant : ℤ) : Bool :=
  seg.start < instant && seg.stop.all (instant ≤ ·)

/-- The values that the changes before an instant leave. -/
def Ticket.stockAt (t : Ticket) (instant : ℤ) : Stock :=
  (t.changes.filter fun e ↦ e.occurredAt < instant).foldl Stock.after t.initial

section Segments

variable {start instant : ℤ} {stock : Stock} {es : List EventRow} {t : Ticket}

theorem start_le_of_mem {seg : Segment} (h : seg ∈ segmentsFrom start stock es) :
    start ≤ seg.start := by
  induction es generalizing start stock with
  | nil =>
    rw [segmentsFrom, List.mem_singleton] at h
    rw [h]
  | cons e es ih =>
    rw [segmentsFrom, List.mem_cons] at h
    rcases h with rfl | h
    · exact Int.le_refl _
    · exact (Int.le_max_right _ _).trans (ih h)

/-- No segment of a later start contains an instant. -/
theorem filter_contains_eq_nil (h : instant ≤ start) :
    (segmentsFrom start stock es).filter (Segment.contains · instant) = [] := by
  refine List.filter_eq_nil_iff.2 fun seg hseg hcontains ↦ ?_
  rw [Segment.contains, Bool.and_eq_true, decide_eq_true_eq] at hcontains
  have := start_le_of_mem hseg
  omega

/-- One segment contains an instant after the start, with what the changes before it leave. -/
theorem filter_contains (hsorted : es.Pairwise fun e e' ↦ e.occurredAt ≤ e'.occurredAt)
    (h : start < instant) :
    ∃ seg, (segmentsFrom start stock es).filter (Segment.contains · instant) = [seg] ∧
      seg.toStock = (es.filter fun e ↦ e.occurredAt < instant).foldl Stock.after stock := by
  induction es generalizing start stock with
  | nil =>
    refine ⟨_, List.filter_cons_of_pos ?_, rfl⟩
    simp [Segment.contains, h]
  | cons e es ih =>
    obtain ⟨hfirst, hrest⟩ := List.pairwise_cons.1 hsorted
    rw [segmentsFrom]
    by_cases hstop : instant ≤ max e.occurredAt start
    · have hcontains : ({ stock with start, stop := some (max e.occurredAt start) } :
          Segment).contains instant = true := by
        simp only [Segment.contains, Option.all_some, h, hstop, decide_true, Bool.and_self]
      have hlate : instant ≤ e.occurredAt := by omega
      have hnone : (e :: es).filter (fun e ↦ e.occurredAt < instant) = [] := by
        refine List.filter_eq_nil_iff.2 fun e' he' ↦ ?_
        rw [decide_eq_true_eq, Int.not_lt]
        rcases List.mem_cons.1 he' with rfl | he'
        · exact hlate
        · exact hlate.trans (hfirst e' he')
      refine ⟨{ stock with start, stop := some (max e.occurredAt start) }, ?_, ?_⟩
      · rw [List.filter_cons, if_pos hcontains, filter_contains_eq_nil hstop]
      · rw [hnone]
        rfl
    · have hnot : ¬ ({ stock with start, stop := some (max e.occurredAt start) } :
          Segment).contains instant = true := by
        simp only [Segment.contains, Option.all_some, hstop, decide_false, Bool.and_false]
        exact Bool.false_ne_true
      have hlt : max e.occurredAt start < instant := by omega
      obtain ⟨seg, hseg, hstock⟩ := @ih (max e.occurredAt start) (stock.after e) hrest hlt
      have hearly : decide (e.occurredAt < instant) = true := decide_eq_true (by omega)
      refine ⟨seg, ?_, ?_⟩
      · rw [List.filter_cons, if_neg hnot, hseg]
      · rw [hstock, List.filter_cons, if_pos hearly, List.foldl_cons]

theorem sorted_changes (t : Ticket) :
    t.changes.Pairwise fun e e' ↦ e.occurredAt ≤ e'.occurredAt := by
  refine List.Pairwise.filter _ ((List.pairwise_mergeSort ?_ ?_ _).imp ?_)
  · intro a b c hab hbc
    exact decide_eq_true (le_trans (of_decide_eq_true hab) (of_decide_eq_true hbc))
  · intro a b
    rw [Bool.or_eq_true, decide_eq_true_eq, decide_eq_true_eq]
    exact le_total _ _
  · intro a b hab
    have hle := of_decide_eq_true hab
    rw [Prod.Lex.toLex_le_toLex] at hle
    dsimp only at hle
    omega

theorem timeline_contains (h : t.createdAt < instant) :
    ∃ seg, (ticketTimeline t).filter (Segment.contains · instant) = [seg] ∧
      seg.toStock = t.stockAt instant :=
  filter_contains (sorted_changes t) h

end Segments

section Hits

variable {ordered : List (ℤ × ℤ)} {t : Ticket}

theorem start_le_stop {start : ℤ} {stock : Stock} {es : List EventRow} {seg : Segment}
    (h : seg ∈ segmentsFrom start stock es) : ∀ stop, seg.stop = some stop → seg.start ≤ stop := by
  induction es generalizing start stock with
  | nil =>
    rw [segmentsFrom, List.mem_singleton] at h
    rw [h]
    exact fun stop hstop ↦ nomatch hstop
  | cons e es ih =>
    rw [segmentsFrom, List.mem_cons] at h
    rcases h with rfl | h
    · rintro stop hstop
      cases hstop
      exact Int.le_max_right _ _
    · exact ih h

theorem take_bisectRight (hsorted : ordered.Pairwise fun x y ↦ x.2 ≤ y.2) (x : ℤ) :
    ordered.take (bisectRight (ordered.map Prod.snd) x) = ordered.filter (·.2 ≤ x) ∧
      ordered.drop (bisectRight (ordered.map Prod.snd) x) = ordered.filter (x < ·.2) := by
  have hlength : bisectRight (ordered.map Prod.snd) x = (ordered.filter (·.2 ≤ x)).length := by
    rw [bisectRight, List.filter_map, List.length_map]
    rfl
  have hmono : ordered.Pairwise fun a b ↦ decide (b.2 ≤ x) = true → decide (a.2 ≤ x) = true :=
    hsorted.imp fun hab hb ↦ decide_eq_true (hab.trans (of_decide_eq_true hb))
  obtain ⟨htake, hdrop⟩ := take_length_filter hmono
  rw [hlength, htake, hdrop]
  refine ⟨rfl, List.filter_congr fun y _ ↦ ?_⟩
  rw [← decide_not, decide_eq_decide, Int.not_le]

/-- The bisection selects the day ends that lie in a segment. -/
theorem slice_eq_contained (hsorted : ordered.Pairwise fun x y ↦ x.2 ≤ y.2) {seg : Segment}
    (hseg : ∀ stop, seg.stop = some stop → seg.start ≤ stop) :
    (ordered.take (match seg.stop with
      | none => (ordered.map Prod.snd).length
      | some stop => bisectRight (ordered.map Prod.snd) stop)).drop
        (bisectRight (ordered.map Prod.snd) seg.start) =
      ordered.filter fun x ↦ seg.contains x.2 := by
  cases hstop : seg.stop with
  | none =>
    dsimp only
    rw [List.length_map, List.take_length, (take_bisectRight hsorted _).2]
    refine List.filter_congr fun y _ ↦ ?_
    simp [Segment.contains, hstop]
  | some stop =>
    have hle := hseg stop hstop
    have hsub : bisectRight (ordered.map Prod.snd) seg.start =
        bisectRight ((ordered.filter (·.2 ≤ stop)).map Prod.snd) seg.start := by
      rw [bisectRight, bisectRight, List.filter_map, List.filter_map, List.filter_filter,
        List.length_map, List.length_map]
      refine congrArg List.length (List.filter_congr fun y _ ↦ ?_)
      simp only [Function.comp_apply]
      rw [Bool.eq_iff_iff, Bool.and_eq_true, decide_eq_true_eq, decide_eq_true_eq]
      omega
    dsimp only
    rw [(take_bisectRight hsorted stop).1, hsub,
      (take_bisectRight (hsorted.filter _) seg.start).2, List.filter_filter]
    refine List.filter_congr fun y _ ↦ ?_
    simp [Segment.contains, hstop]

/-- What a ticket is counted as at an instant. -/
def Ticket.countedAt (t : Ticket) (instant : ℤ) : Option (Stock × ℕ) :=
  if t.createdAt < instant ∧ (t.stockAt instant).stateType ∈ openStateTypes then
    some (t.stockAt instant, bucket (instant - t.createdAt))
  else none

theorem flatMap_if {α β : Type} (l : List α) (p : α → Bool) (f : α → β) :
    (l.flatMap fun a ↦ if p a then [f a] else []) = (l.filter p).map f := by
  induction l with
  | nil => rfl
  | cons a l ih => cases hp : p a <;> simp [List.flatMap_cons, hp, ih]

theorem ticketHits_eq (hsorted : ordered.Pairwise fun x y ↦ x.2 ≤ y.2) :
    ticketHits ordered t =
      ((ticketTimeline t).filter fun seg ↦ seg.stateType ∈ openStateTypes).flatMap fun seg ↦
        (ordered.filter fun x ↦ seg.contains x.2).map fun x ↦
          ((x.1, seg.toStock), bucket (x.2 - t.createdAt)) := by
  refine List.flatMap_congr fun seg hseg ↦ ?_
  have hslice := slice_eq_contained hsorted (start_le_stop (List.mem_of_mem_filter hseg))
  exact congrArg (List.map fun x ↦ ((x.1, seg.toStock), bucket (x.2 - t.createdAt))) hslice

theorem filter_contains_day {day stop : ℤ}
    (hday : ordered.filter (fun x ↦ x.1 = day) = [(day, stop)]) (seg : Segment) :
    (ordered.filter fun x ↦ seg.contains x.2).filter (fun x ↦ x.1 = day) =
      if seg.contains stop then [(day, stop)] else [] := by
  have hswap : (ordered.filter fun x ↦ seg.contains x.2).filter (fun x ↦ x.1 = day) =
      (ordered.filter fun x ↦ x.1 = day).filter fun x ↦ seg.contains x.2 := by
    rw [List.filter_filter, List.filter_filter]
    exact List.filter_congr fun x _ ↦ Bool.and_comm _ _
  rw [hswap, hday]
  cases hcontains : seg.contains stop <;> simp [hcontains]

/-- A day counts a ticket once, where its changes before the end of the day left it. -/
theorem ticketHits_day (hsorted : ordered.Pairwise fun x y ↦ x.2 ≤ y.2) {day stop : ℤ}
    (hday : ordered.filter (fun x ↦ x.1 = day) = [(day, stop)]) :
    (ticketHits ordered t).filter (fun hit ↦ hit.1.1 = day) =
      (t.countedAt stop).toList.map fun c ↦ ((day, c.1), c.2) := by
  have hhits : (ticketHits ordered t).filter (fun hit ↦ hit.1.1 = day) =
      (((ticketTimeline t).filter (Segment.contains · stop)).filter
        fun seg ↦ seg.stateType ∈ openStateTypes).map fun seg ↦
          ((day, seg.toStock), bucket (stop - t.createdAt)) := by
    rw [ticketHits_eq hsorted, List.filter_flatMap, List.filter_filter]
    have hone : ∀ seg : Segment,
        ((ordered.filter fun x ↦ seg.contains x.2).map fun x ↦
          (((x.1, seg.toStock), bucket (x.2 - t.createdAt)) : SnapshotKey × ℕ)).filter
            (fun hit ↦ hit.1.1 = day) =
          if seg.contains stop then [((day, seg.toStock), bucket (stop - t.createdAt))] else [] := by
      intro seg
      have hday := filter_contains_day hday seg
      rw [List.filter_map]
      have hcomp : ((fun hit : SnapshotKey × ℕ ↦ decide (hit.1.1 = day)) ∘ fun x : ℤ × ℤ ↦
          ((x.1, seg.toStock), bucket (x.2 - t.createdAt))) = fun x ↦ decide (x.1 = day) := rfl
      rw [hcomp, hday]
      cases seg.contains stop <;> rfl
    rw [List.flatMap_congr fun seg _ ↦ hone seg, flatMap_if, List.filter_filter]
    refine congrArg (List.map _) (List.filter_congr fun seg _ ↦ Bool.and_comm _ _)
  rw [hhits, Ticket.countedAt]
  by_cases hcreated : t.createdAt < stop
  · obtain ⟨seg, hseg, hstock⟩ := timeline_contains hcreated
    rw [hseg, ← hstock]
    by_cases hopen : seg.stateType ∈ openStateTypes
    · rw [if_pos ⟨hcreated, hopen⟩]
      simp [hopen]
    · rw [if_neg fun h ↦ hopen h.2]
      simp [hopen]
  · have hnone : (ticketTimeline t).filter (Segment.contains · stop) = [] :=
      filter_contains_eq_nil (Int.not_lt.1 hcreated)
    rw [hnone, if_neg fun h ↦ hcreated h.1]
    rfl

end Hits

section Counting

/-- The row of a key whose tickets lie in these buckets. -/
def rowOf (buckets : List ℕ) : List ℕ :=
  buckets.length :: (List.range ageBuckets.length).map fun b ↦ buckets.countP (· = b)

def summary (buckets : List ℕ) : Option (List ℕ) :=
  if buckets = [] then none else some (rowOf buckets)

def bucketsOf (hits : List (SnapshotKey × ℕ)) (key : SnapshotKey) : List ℕ :=
  (hits.filter fun hit ↦ hit.1 = key).map Prod.snd

theorem bucket_lt (age : ℤ) : bucket age < ageBuckets.length := by
  rw [bucket]
  cases h : ageBuckets.findIdx? _ with
  | none => decide
  | some i => exact (List.findIdx?_eq_some_iff_findIdx_eq.1 h).1

theorem summary_getD (buckets : List ℕ) : (summary buckets).getD zeros = rowOf buckets := by
  rw [summary]
  split
  · next h =>
    subst h
    rfl
  · rfl

theorem rowOf_bump (buckets : List ℕ) (b : ℕ) :
    ((rowOf buckets).modify 0 (· + 1)).modify (1 + b) (· + 1) = rowOf (buckets ++ [b]) := by
  have hages : ((List.range ageBuckets.length).map fun i ↦ buckets.countP (· = i)).modify b (· + 1) =
      (List.range ageBuckets.length).map fun i ↦ (buckets ++ [b]).countP (· = i) := by
    refine List.ext_getElem? fun i ↦ ?_
    rw [List.getElem?_modify, List.getElem?_map, List.getElem?_map]
    by_cases hi : i < ageBuckets.length
    · rw [List.getElem?_range hi]
      by_cases hbi : b = i
      · simp [hbi, List.countP_append]
      · simp [hbi, List.countP_append]
    · rw [List.getElem?_eq_none (by simpa using hi)]
      rfl
  rw [rowOf, rowOf, Nat.add_comm, List.modify_zero_cons, List.modify_succ_cons, hages,
    List.length_append]
  rfl

/-- The buckets of a row add up to its tickets. -/
theorem sum_ages {buckets : List ℕ} (h : ∀ b ∈ buckets, b < ageBuckets.length) :
    ((List.range ageBuckets.length).map fun b ↦ buckets.countP (· = b)).sum = buckets.length := by
  induction buckets with
  | nil => rfl
  | cons b buckets ih =>
    have hb : b < 5 := h b List.mem_cons_self
    have hrange : List.range ageBuckets.length = [0, 1, 2, 3, 4] := rfl
    have hsum := ih fun b hb ↦ h b (List.mem_cons_of_mem _ hb)
    simp only [hrange, List.map_cons, List.map_nil, List.sum_cons, List.sum_nil, List.countP_cons,
      List.length_cons, decide_eq_true_eq] at hsum ⊢
    obtain rfl | rfl | rfl | rfl | rfl : b = 0 ∨ b = 1 ∨ b = 2 ∨ b = 3 ∨ b = 4 := by omega
    all_goals
      simp
      omega

theorem rowOf_add (buckets buckets' : List ℕ) :
    List.zipWith (· + ·) (rowOf buckets) (rowOf buckets') = rowOf (buckets ++ buckets') := by
  simp [rowOf, List.countP_append, List.zipWith_map_left, List.zipWith_map_right]

theorem foldl_countHit (hits : List (SnapshotKey × ℕ)) (key : SnapshotKey) :
    (hits.foldl countHit Table.empty).find key = summary (bucketsOf hits key) := by
  induction hits using List.reverseRecOn with
  | nil => rfl
  | append_singleton hits hit ih =>
    rw [List.foldl_concat, countHit, bucketsOf, List.filter_append, List.map_append]
    by_cases hkey : hit.1 = key
    · subst hkey
      rw [Table.find_set_self, ih, summary_getD, rowOf_bump]
      simp [summary, bucketsOf]
    · rw [Table.find_set_of_ne fun h ↦ hkey h.symm, ih]
      simp [hkey, bucketsOf]

/-- Adding a part adds its rows to those of their keys. -/
theorem addPart_find (counts part : Counts) (key : SnapshotKey) :
    (addPart counts part).find key =
      match part.find key with
      | none => counts.find key
      | some row => some (List.zipWith (· + ·) ((counts.find key).getD zeros) row) := by
  obtain ⟨rows, hkeyed⟩ := part
  induction rows generalizing counts with
  | nil => rfl
  | cons r rows ih =>
    obtain ⟨hr, hrows⟩ := List.pairwise_cons.1 hkeyed
    have hstep := ih (counts.set r.1
      (some (List.zipWith (· + ·) ((counts.find r.1).getD zeros) r.2))) hrows
    rw [addPart] at hstep ⊢
    rw [List.foldl_cons, hstep]
    by_cases hkey : r.1 = key
    · subst hkey
      have hnone : Table.find (⟨rows, hrows⟩ : Counts) r.1 = none := by
        refine Option.eq_none_iff_forall_ne_some.2 fun v hv ↦ ?_
        exact hr (r.1, v) (Table.find_eq_some.1 hv) rfl
      have hsome : Table.find (⟨r :: rows, hkeyed⟩ : Counts) r.1 = some r.2 :=
        Table.find_eq_some.2 List.mem_cons_self
      rw [hnone, hsome]
      exact Table.find_set_self
    · have htail : Table.find (⟨r :: rows, hkeyed⟩ : Counts) key =
          Table.find (⟨rows, hrows⟩ : Counts) key := by
        rw [Table.find, Table.find, List.find?_cons_of_neg (by simpa using hkey)]
      rw [htail, Table.find_set_of_ne fun h ↦ hkey h.symm]

theorem addPart_summary {counts part : Counts} {key : SnapshotKey} {buckets buckets' : List ℕ}
    (hcounts : counts.find key = summary buckets) (hpart : part.find key = summary buckets') :
    (addPart counts part).find key = summary (buckets ++ buckets') := by
  rw [addPart_find, hpart]
  by_cases hnone : buckets' = []
  · subst hnone
    rw [List.append_nil, ← hcounts]
    rfl
  · rw [summary, if_neg hnone, hcounts, summary_getD]
    dsimp only
    rw [rowOf_add, summary, if_neg fun h ↦ hnone (List.append_eq_nil_iff.1 h).2]

theorem foldl_addPart {α : Type} (part : α → Counts) (buckets : α → List ℕ) (key : SnapshotKey)
    (hpart : ∀ a, (part a).find key = summary (buckets a)) (as : List α) {counts : Counts}
    {before : List ℕ} (hcounts : counts.find key = summary before) :
    ((as.map part).foldl addPart counts).find key = summary (before ++ as.flatMap buckets) := by
  induction as generalizing counts before with
  | nil => rw [List.flatMap_nil, List.append_nil]; exact hcounts
  | cons a as ih =>
    rw [List.map_cons, List.foldl_cons, ih (addPart_summary hcounts (hpart a)),
      List.flatMap_cons, List.append_assoc]

end Counting

section Replay

variable {tickets : List Ticket} {instant day stop : ℤ} {stock : Stock} {ends : Table ℤ ℤ}

/-- The changes before the instant leave the ticket open in these values. -/
def Ticket.isOpenAs (t : Ticket) (instant : ℤ) (stock : Stock) : Bool :=
  t.createdAt < instant && t.stockAt instant = stock && stock.stateType ∈ openStateTypes

/-- The buckets of the tickets that a replay finds in these values. -/
def replayedBuckets (tickets : List Ticket) (instant : ℤ) (stock : Stock) : List ℕ :=
  (tickets.filter (·.isOpenAs instant stock)).map fun t ↦ bucket (instant - t.createdAt)

theorem bucketsOf_flatMap (f : Ticket → List (SnapshotKey × ℕ)) (key : SnapshotKey) :
    bucketsOf (tickets.flatMap f) key = tickets.flatMap fun t ↦ bucketsOf (f t) key := by
  rw [bucketsOf, List.filter_flatMap, List.map_flatMap]
  rfl

theorem bucketsOf_ticketHits {ordered : List (ℤ × ℤ)}
    (hsorted : ordered.Pairwise fun x y ↦ x.2 ≤ y.2)
    (hday : ordered.filter (fun x ↦ x.1 = day) = [(day, stop)]) (t : Ticket) :
    bucketsOf (ticketHits ordered t) (day, stock) =
      if t.isOpenAs stop stock then [bucket (stop - t.createdAt)] else [] := by
  have hsplit : (ticketHits ordered t).filter (fun hit ↦ hit.1 = (day, stock)) =
      ((ticketHits ordered t).filter fun hit ↦ hit.1.1 = day).filter
        fun hit ↦ hit.1.2 = stock := by
    rw [List.filter_filter]
    refine List.filter_congr fun hit _ ↦ ?_
    rw [Bool.eq_iff_iff, Bool.and_eq_true, decide_eq_true_eq, decide_eq_true_eq,
      decide_eq_true_eq, Prod.ext_iff, and_comm]
  rw [bucketsOf, hsplit, ticketHits_day hsorted hday, Ticket.countedAt, Ticket.isOpenAs]
  by_cases hcreated : t.createdAt < stop
  · by_cases hstock : t.stockAt stop = stock
    · subst hstock
      by_cases hopen : (t.stockAt stop).stateType ∈ openStateTypes <;> simp [hcreated, hopen]
    · by_cases hopen : (t.stockAt stop).stateType ∈ openStateTypes <;>
        simp [hcreated, hopen, hstock]
  · simp [hcreated]

theorem sorted_ends (ends : Table ℤ ℤ) :
    (ends.rows.mergeSort fun x y ↦ x.2 ≤ y.2).Pairwise fun x y ↦ x.2 ≤ y.2 := by
  refine (List.pairwise_mergeSort ?_ ?_ _).imp of_decide_eq_true
  · intro a b c hab hbc
    exact decide_eq_true ((of_decide_eq_true hab).trans (of_decide_eq_true hbc))
  · intro a b
    rw [Bool.or_eq_true, decide_eq_true_eq, decide_eq_true_eq]
    exact Int.le_total _ _

theorem filter_ends_day (h : ends.find day = some stop) :
    (ends.rows.mergeSort fun x y ↦ x.2 ≤ y.2).filter (fun x ↦ x.1 = day) = [(day, stop)] := by
  have hperm := (List.mergeSort_perm ends.rows fun x y ↦ x.2 ≤ y.2).filter fun x ↦ x.1 = day
  rw [Table.filter_key (Table.find_eq_some.1 h)] at hperm
  exact List.perm_singleton.1 hperm

/-- The rows of a day are what a replay of the tickets to its end finds. -/
theorem computeSnapshotCounts_find (h : ends.find day = some stop) :
    (computeSnapshotCounts tickets ends).find (day, stock) =
      summary (replayedBuckets tickets stop stock) := by
  rw [computeSnapshotCounts, foldl_countHit, bucketsOf_flatMap,
    List.flatMap_congr fun t _ ↦ bucketsOf_ticketHits (sorted_ends ends) (filter_ends_day h) t,
    flatMap_if]
  rfl

theorem computeSnapshotCounts_find_none (h : ends.find day = none) :
    (computeSnapshotCounts tickets ends).find (day, stock) = none := by
  rw [computeSnapshotCounts, foldl_countHit, bucketsOf_flatMap, summary, if_pos]
  refine List.flatMap_eq_nil_iff.2 fun t _ ↦ ?_
  rw [bucketsOf, List.map_eq_nil_iff, List.filter_eq_nil_iff]
  intro hit hhit hkey
  rw [ticketHits_eq (sorted_ends ends)] at hhit
  obtain ⟨seg, -, hhit⟩ := List.mem_flatMap.1 hhit
  obtain ⟨x, hx, rfl⟩ := List.mem_map.1 hhit
  have hday : x.1 = day := congrArg (fun key : SnapshotKey ↦ key.1) (of_decide_eq_true hkey)
  have hrow := List.mem_mergeSort.1 (List.mem_of_mem_filter hx)
  rw [Table.find_eq_some.2 (show (day, x.2) ∈ ends.rows from hday ▸ hrow)] at h
  cases h

end Replay

section Calls

variable {dayEnd : ℤ → ℤ} {store : Store} {table : Counts} {days : List ℤ}

/-- The ends of the days increase, also from the day before each of them. -/
structure DayEnds (dayEnd : ℤ → ℤ) (days : List ℤ) : Prop where
  increasing : ∀ day ∈ days, ∀ day' ∈ days, day < day' → dayEnd day < dayEnd day'
  after : ∀ day ∈ days, dayEnd (day - 1) ≤ dayEnd day

/-- A fact has the state type that its events leave and an event time that none of them passes. -/
structure Agrees (store : Store) (row : ℤ × Fact) : Prop where
  stateType : row.2.stateType =
    ((store.ticket row).changes.foldl Stock.after (store.ticket row).initial).stateType
  lastEventAt : ∀ e ∈ (store.ticket row).changes, e.occurredAt ≤ row.2.lastEventAt

def Store.tickets (store : Store) : List Ticket := store.facts.rows.map store.ticket

/-- The rows of the table once the days are computed. -/
def expected (dayEnd : ℤ → ℤ) (store : Store) (table : Counts) (days : List ℤ)
    (key : SnapshotKey) : Option (List ℕ) :=
  if key.1 ∈ days then summary (replayedBuckets store.tickets (dayEnd key.1) key.2)
  else table.find key

/-- A ticket that is open at the end of a day is a candidate of every call for the day. -/
theorem candidate_of_isOpenAs {row : ℤ × Fact} (hrow : Agrees store row)
    {windowStart lastEnd instant : ℤ} {stock : Stock} (hstart : windowStart ≤ instant)
    (hend : instant ≤ lastEnd) (h : (store.ticket row).isOpenAs instant stock = true) :
    (decide (row.2.createdAt < lastEnd) && (decide (row.2.stateType ∈ openStateTypes) ||
      decide (windowStart ≤ row.2.lastEventAt))) = true := by
  simp only [Ticket.isOpenAs, Bool.and_eq_true, decide_eq_true_eq] at h
  obtain ⟨⟨hcreated, hstock⟩, hopen⟩ := h
  simp only [Bool.and_eq_true, Bool.or_eq_true, decide_eq_true_eq]
  refine ⟨lt_of_lt_of_le hcreated hend, ?_⟩
  by_contra hnot
  rw [not_or, Int.not_le] at hnot
  have hall : (store.ticket row).changes.filter (fun e ↦ e.occurredAt < instant) =
      (store.ticket row).changes := List.filter_eq_self.2 fun e he ↦ by
    have := hrow.lastEventAt e he
    exact decide_eq_true (by omega)
  rw [Ticket.stockAt, hall] at hstock
  exact hnot.1 (hrow.stateType ▸ hstock ▸ hopen)

theorem summary_perm {buckets buckets' : List ℕ} (h : buckets.Perm buckets') :
    summary buckets = summary buckets' := by
  have hnil : buckets = [] ↔ buckets' = [] :=
    ⟨fun hb ↦ List.nil_perm.1 (hb ▸ h), fun hb ↦ List.perm_nil.1 (hb ▸ h)⟩
  simp only [summary, hnil, rowOf, h.length_eq, h.countP_eq]

/-- The candidates replay to the same rows as all tickets. -/
theorem summary_candidates (hfacts : ∀ row ∈ store.facts.rows, Agrees store row)
    {windowStart lastEnd instant : ℤ} (stock : Stock) (hstart : windowStart ≤ instant)
    (hend : instant ≤ lastEnd) :
    summary (replayedBuckets ((store.candidates windowStart lastEnd).map store.ticket) instant
      stock) = summary (replayedBuckets store.tickets instant stock) := by
  refine summary_perm (List.Perm.map _ ?_)
  rw [Store.candidates, Store.tickets, List.filter_map, List.filter_map]
  refine List.Perm.map _ (((List.mergeSort_perm _ _).filter _).trans ?_)
  rw [List.filter_filter]
  refine List.Perm.of_eq (List.filter_congr fun row hrow ↦ ?_)
  rw [Bool.and_eq_left_iff_imp]
  exact candidate_of_isOpenAs (hfacts row hrow) hstart hend

theorem candidates_find (hfacts : ∀ row ∈ store.facts.rows, Agrees store row)
    {windowStart lastEnd instant day : ℤ} {ends : Table ℤ ℤ} (stock : Stock)
    (hday : ends.find day = some instant) (hstart : windowStart ≤ instant)
    (hend : instant ≤ lastEnd) :
    (((chunks candidateChunk (store.candidates windowStart lastEnd)).map fun chunk ↦
      computeSnapshotCounts (chunk.map store.ticket) ends).foldl addPart Table.empty).find
        (day, stock) = summary (replayedBuckets store.tickets instant stock) := by
  have hflatten : ∀ cs : List (List (ℤ × Fact)),
      (cs.flatMap fun chunk ↦ replayedBuckets (chunk.map store.ticket) instant stock) =
        replayedBuckets (cs.flatten.map store.ticket) instant stock := by
    intro cs
    rw [replayedBuckets, List.map_flatten, List.filter_flatten, List.map_flatten, List.map_map,
      List.map_map, List.flatMap_def]
    rfl
  have hempty : (Table.empty : Counts).find (day, stock) = summary [] := rfl
  rw [foldl_addPart _ _ (day, stock) (fun chunk ↦ computeSnapshotCounts_find hday) _ hempty,
    List.nil_append, hflatten, flatten_chunks (by decide),
    summary_candidates hfacts stock hstart hend]

theorem parts_find_none {day : ℤ} {ends : Table ℤ ℤ} (stock : Stock) (hday : ends.find day = none)
    (cs : List (List (ℤ × Fact))) :
    ((cs.map fun chunk ↦ computeSnapshotCounts (chunk.map store.ticket) ends).foldl addPart
      Table.empty).find (day, stock) = none := by
  have hempty : (Table.empty : Counts).find (day, stock) = summary [] := rfl
  rw [foldl_addPart _ (fun _ ↦ []) (day, stock) (fun chunk ↦ computeSnapshotCounts_find_none hday)
    _ hempty]
  simp [summary]

theorem writeSnapshots_find (table : Counts) {counts : Counts}
    (hcounts : ∀ row ∈ counts.rows, row.1.1 ∈ days) :
    ∃ table', writeSnapshots table days counts = some table' ∧ ∀ key,
      table'.find key = if key.1 ∈ days then counts.find key else table.find key := by
  have hkeep : (counts.rows.filter fun r ↦ decide (r.1.1 ∈ days)) = counts.rows :=
    List.filter_eq_self.2 fun r hr ↦ decide_eq_true (hcounts r hr)
  have hkeyed : ((table.delete fun r ↦ decide (r.1.1 ∈ days)).rows ++ counts.rows).Pairwise
      fun r r' ↦ r.1 ≠ r'.1 := by
    refine List.pairwise_append.2 ⟨(table.delete _).keyed, counts.keyed, fun r hr r' hr' heq ↦ ?_⟩
    obtain ⟨-, hnot⟩ := Table.mem_delete.1 hr
    exact of_decide_eq_false hnot (heq ▸ hcounts r' hr')
  rw [writeSnapshots, hkeep, Table.insert, dif_pos hkeyed]
  refine ⟨_, rfl, fun key ↦ Option.ext fun row ↦ ?_⟩
  rw [Table.find_eq_some, List.mem_append, Table.mem_delete, decide_eq_false_iff_not]
  split
  · next hday =>
    rw [Table.find_eq_some]
    exact ⟨fun h ↦ h.resolve_left fun h ↦ h.2 hday, .inr⟩
  · next hday =>
    rw [Table.find_eq_some]
    exact ⟨fun h ↦ (h.resolve_right fun h ↦ hday (hcounts _ h)).1, fun h ↦ .inl ⟨h, hday⟩⟩

theorem snapshotDays_find (table : Counts) (hfacts : ∀ row ∈ store.facts.rows, Agrees store row)
    (hends : DayEnds dayEnd days) :
    ∃ table', snapshotDays dayEnd store table days = some table' ∧
      ∀ key, table'.find key = expected dayEnd store table days key := by
  rw [snapshotDays]
  have hmem : ∀ day, day ∈ sortedSet days ↔ day ∈ days := fun _ ↦ mem_sortedSet
  have hsorted : (sortedSet days).Pairwise (· ≤ ·) := List.pairwise_insertionSort _ _
  generalize sortedSet days = sorted at hmem hsorted
  cases sorted with
  | nil =>
    refine ⟨table, rfl, fun key ↦ ?_⟩
    rw [expected, if_neg fun h ↦ List.not_mem_nil ((hmem _).2 h)]
  | cons first rest =>
    dsimp only
    have hfirst : ∀ day ∈ first :: rest, first ≤ day := by
      intro day hday
      rcases List.mem_cons.1 hday with rfl | hday
      · exact le_rfl
      · exact (List.pairwise_cons.1 hsorted).1 day hday
    have hle : ∀ day ∈ days, ∀ day' ∈ days, day ≤ day' → dayEnd day ≤ dayEnd day' := by
      intro day hday day' hday' h
      rcases lt_or_eq_of_le h with hlt | rfl
      · exact (hends.increasing day hday day' hday' hlt).le
      · exact le_rfl
    have hfound : ∀ day ∈ days,
        (dayEndInstants dayEnd (first :: rest)).find day = some (dayEnd day) := fun day hday ↦
      Table.find_eq_some.2 (List.mem_map.2 ⟨day, List.mem_dedup.2 ((hmem day).2 hday), rfl⟩)
    have hcounts : ∀ row ∈ (((chunks candidateChunk (store.candidates (dayEnd (first - 1))
        (dayEnd ((first :: rest).getLast (List.cons_ne_nil _ _))))).map fun chunk ↦
          computeSnapshotCounts (chunk.map store.ticket)
            (dayEndInstants dayEnd (first :: rest))).foldl addPart Table.empty).rows,
        row.1.1 ∈ first :: rest := by
      intro row hrow
      by_contra hday
      have hnone : (dayEndInstants dayEnd (first :: rest)).find row.1.1 = none := by
        refine Option.eq_none_iff_forall_ne_some.2 fun stop hstop ↦ hday ?_
        obtain ⟨day, hmem, heq⟩ := List.mem_map.1 (Table.find_eq_some.1 hstop)
        exact congrArg Prod.fst heq ▸ List.mem_dedup.1 hmem
      exact Option.some_ne_none _ ((Table.find_eq_some.2 hrow).symm.trans
        (parts_find_none row.1.2 hnone _))
    obtain ⟨table', hwrite, hfind⟩ := writeSnapshots_find table hcounts
    refine ⟨table', hwrite, fun key ↦ ?_⟩
    rw [hfind, expected]
    by_cases hday : key.1 ∈ days
    · have hkey := (hmem key.1).2 hday
      have hfirstmem := (hmem first).1 List.mem_cons_self
      have hlastmem := (hmem _).1 (List.getLast_mem (List.cons_ne_nil first rest))
      rw [if_pos hkey, if_pos hday]
      exact candidates_find hfacts key.2 (hfound key.1 hday)
        ((hends.after first hfirstmem).trans (hle _ hfirstmem _ hday (hfirst _ hkey)))
        (hle _ hday _ hlastmem (hsorted.rel_getLast hkey))
    · rw [if_neg fun h ↦ hday ((hmem _).1 h), if_neg hday]

theorem DayEnds.mono {days' : List ℤ} (h : DayEnds dayEnd days) (hsub : ∀ day ∈ days', day ∈ days) :
    DayEnds dayEnd days' :=
  ⟨fun day hday day' hday' ↦ h.increasing day (hsub day hday) day' (hsub day' hday'),
    fun day hday ↦ h.after day (hsub day hday)⟩

theorem calls_find (table : Counts) (hfacts : ∀ row ∈ store.facts.rows, Agrees store row)
    {calls : List (List ℤ)}
    (hends : ∀ call ∈ calls, DayEnds dayEnd call) :
    ∃ table', calls.foldlM (snapshotDays dayEnd store) table = some table' ∧
      ∀ key, table'.find key = expected dayEnd store table calls.flatten key := by
  induction calls generalizing table with
  | nil => exact ⟨table, rfl, fun key ↦ (if_neg List.not_mem_nil).symm⟩
  | cons call calls ih =>
    obtain ⟨table₁, hfirst, hfind₁⟩ := snapshotDays_find table hfacts
      (hends call List.mem_cons_self)
    obtain ⟨table', hrest, hfind⟩ := ih table₁ fun c hc ↦
      hends c (List.mem_cons_of_mem _ hc)
    refine ⟨table', ?_, fun key ↦ ?_⟩
    · rw [List.foldlM_cons, hfirst]
      exact hrest
    · rw [hfind, expected, expected, hfind₁, expected, List.flatten_cons]
      by_cases hlater : key.1 ∈ calls.flatten
      · rw [if_pos hlater, if_pos (List.mem_append_right _ hlater)]
      · by_cases hcall : key.1 ∈ call <;> simp [hlater, hcall]

/-- What a replay of the tickets finds, and what the calls leave in the table. -/
structure Replayed (dayEnd : ℤ → ℤ) (store : Store) (table : Counts) (days : List ℤ)
    (calls : List (List ℤ)) : Prop where
  segment : ∀ (t : Ticket) instant, t.createdAt < instant →
    ∃ seg, (ticketTimeline t).filter (Segment.contains · instant) = [seg] ∧
      seg.toStock = t.stockAt instant
  rows : ∀ tickets (ends : Table ℤ ℤ) day stop stock, ends.find day = some stop →
    (computeSnapshotCounts tickets ends).find (day, stock) =
      summary (replayedBuckets tickets stop stock)
  ages : ∀ tickets (ends : Table ℤ ℤ) day stop stock row, ends.find day = some stop →
    (computeSnapshotCounts tickets ends).find (day, stock) = some row →
      ∃ ages, row = (tickets.filter (·.isOpenAs stop stock)).length :: ages ∧
        ages.sum = (tickets.filter (·.isOpenAs stop stock)).length
  otherDays : ∀ tickets (ends : Table ℤ ℤ) day stock, ends.find day = none →
    (computeSnapshotCounts tickets ends).find (day, stock) = none
  calls : ∃ one split, snapshotDays dayEnd store table days = some one ∧
    calls.foldlM (snapshotDays dayEnd store) table = some split ∧
      ∀ key, one.find key = expected dayEnd store table days key ∧ split.find key = one.find key

/-- The snapshots are a plain replay, however the days are split into calls. -/
theorem snapshots_replay (hfacts : ∀ row ∈ store.facts.rows, Agrees store row)
    (hends : DayEnds dayEnd days) {calls : List (List ℤ)}
    (hcalls : ∀ day, day ∈ days ↔ ∃ call ∈ calls, day ∈ call) :
    Replayed dayEnd store table days calls where
  segment _ _ h := timeline_contains h
  rows _ _ _ _ _ h := computeSnapshotCounts_find h
  ages tickets ends day stop stock row h hrow := by
    rw [computeSnapshotCounts_find h, summary] at hrow
    split at hrow
    · cases hrow
    · cases hrow
      have hlength : (replayedBuckets tickets stop stock).length =
          (tickets.filter (·.isOpenAs stop stock)).length := List.length_map _
      refine ⟨_, by rw [rowOf, hlength], (sum_ages fun b hb ↦ ?_).trans hlength⟩
      obtain ⟨t, -, rfl⟩ := List.mem_map.1 hb
      exact bucket_lt _
  otherDays _ _ _ _ h := computeSnapshotCounts_find_none h
  calls := by
    obtain ⟨one, hone, honefind⟩ := snapshotDays_find table hfacts hends
    obtain ⟨split, hsplit, hsplitfind⟩ := calls_find table hfacts fun call hcall ↦
      hends.mono fun day hday ↦ (hcalls day).2 ⟨call, hcall, hday⟩
    refine ⟨one, split, hone, hsplit, fun key ↦ ⟨honefind key, ?_⟩⟩
    rw [honefind, hsplitfind, expected, expected]
    simp only [hcalls, List.mem_flatten]

end Calls

/-- A ticket that stays open. -/
def sampleStore : Store where
  facts := ⟨[(1, ⟨10, "open".toList, 3, 10⟩)], List.pairwise_singleton _ _⟩
  events := [⟨1, .create, 10, 2, none, none, none, none, none, none, some "open".toList, none⟩]

theorem sampleStore_agrees : ∀ row ∈ sampleStore.facts.rows, Agrees sampleStore row := by
  intro row hrow
  obtain rfl := List.mem_singleton.1 hrow
  have hchanges : (sampleStore.ticket (1, ⟨10, "open".toList, 3, 10⟩)).changes = [] := by
    simp [Ticket.changes, Ticket.relevant, Store.ticket, sampleStore, kindOrder]
  refine ⟨?_, ?_⟩
  · rw [hchanges, List.foldl_nil, Ticket.initial]
    simp [Ticket.relevant, Store.ticket, sampleStore, kindOrder]
    rfl
  · rw [hchanges]
    exact fun e he ↦ absurd he List.not_mem_nil

theorem snapshots_replay_sample : Replayed (fun day ↦ 86400 * (day + 1)) sampleStore Table.empty
    [0, 1, 2] [[2, 0], [1]] :=
  snapshots_replay sampleStore_agrees
    ⟨fun _ _ _ _ h ↦ by omega, fun _ _ ↦ by omega⟩ fun day ↦ by simp; omega

end Tiqora.Reporting.Snapshots
