import Mathlib.Algebra.Ring.Nat
import Mathlib.Data.List.Sort
import Mathlib.Data.Prod.Lex
import Mathlib.Order.Bounds.Basic
import Tiqora.Foundation.Guarded

namespace Tiqora.Dashboard

open Tiqora.Foundation

def gridCols : ℕ := 12

def maxRows : ℕ := 1000

/-- A rectangle of grid cells in plain numbers. -/
structure Cell where
  x : ℕ
  y : ℕ
  w : ℕ
  h : ℕ
  deriving DecidableEq

def Cell.atRow (c : Cell) (y : ℕ) : Cell := { c with y := y }

@[simp] theorem Cell.atRow_y (c : Cell) (y : ℕ) : (c.atRow y).y = y := rfl

@[simp] theorem Cell.atRow_h (c : Cell) (y : ℕ) : (c.atRow y).h = c.h := rfl

@[simp] theorem Cell.atRow_atRow (c : Cell) (y y' : ℕ) : (c.atRow y).atRow y' = c.atRow y' := rfl

/-- A widget rectangle. -/
structure Rect extends Cell where
  x_le : x ≤ 11
  y_le : y ≤ 999
  w_pos : 1 ≤ w
  w_le : w ≤ 12
  h_pos : 1 ≤ h
  h_le : h ≤ 24

inductive LayoutError
  | tooHigh
  | invalid
  deriving DecidableEq

def Cell.toRect (c : Cell) : Except LayoutError Rect :=
  if hc : (c.x ≤ 11 ∧ c.y ≤ 999) ∧ (1 ≤ c.w ∧ c.w ≤ 12) ∧ 1 ≤ c.h ∧ c.h ≤ 24 then
    .ok ⟨c, hc.1.1, hc.1.2, hc.2.1.1, hc.2.1.2, hc.2.2.1, hc.2.2.2⟩
  else .error .invalid

/-- Touching edges do not collide. -/
def collides (a b : Cell) : Bool :=
  a.x < b.x + b.w && b.x < a.x + a.w && a.y < b.y + b.h && b.y < a.y + a.h

theorem collides_iff {a b : Cell} : collides a b = true ↔
    (a.x < b.x + b.w ∧ b.x < a.x + a.w) ∧ a.y < b.y + b.h ∧ b.y < a.y + a.h := by
  simp [collides, and_assoc]

theorem collides_comm {a b : Cell} : collides a b = collides b a := by
  rw [Bool.eq_iff_iff, collides_iff, collides_iff]
  omega

/-- One turn over the rectangles that are placed: below each that is in the way. -/
def pushPass : List Cell → Cell → Cell × Bool
  | [], c => (c, false)
  | p :: placed, c =>
    if collides c p then ((pushPass placed (c.atRow (p.y + p.h))).1, true) else pushPass placed c

/-- Where the lowest rectangle ends. -/
def bottom (placed : List Cell) : ℕ := placed.foldr (fun p b ↦ max (p.y + p.h) b) 0

theorem le_bottom {placed : List Cell} {p : Cell} (h : p ∈ placed) : p.y + p.h ≤ bottom placed := by
  induction placed with
  | nil => exact absurd h List.not_mem_nil
  | cons q placed ih =>
    rcases List.mem_cons.1 h with rfl | h
    · exact le_max_left _ _
    · exact (ih h).trans (le_max_right _ _)

theorem collides_atRow {c p : Cell} {y : ℕ} (h : collides c p = true) (hle : c.y ≤ y)
    (hlt : y < p.y + p.h) : collides (c.atRow y) p = true := by
  obtain ⟨hcols, hbelow, habove⟩ := collides_iff.1 h
  exact collides_iff.2 ⟨hcols, hlt, habove.trans_le (Nat.add_le_add_right hle _)⟩

theorem pushPass_unmoved {placed : List Cell} {c : Cell} (h : (pushPass placed c).2 = false) :
    ∀ p ∈ placed, collides c p = false := by
  induction placed generalizing c with
  | nil => simp
  | cons q placed ih =>
    cases hq : collides c q with
    | true => simp [pushPass, hq] at h
    | false =>
      rw [pushPass, hq] at h
      simpa [hq] using ih h

/-- A turn leaves only rows that are in the way of something. -/
theorem pushPass_spec (placed : List Cell) (c : Cell) :
    (pushPass placed c).1 = c.atRow (pushPass placed c).1.y ∧ c.y ≤ (pushPass placed c).1.y ∧
      ∀ y, c.y ≤ y → y < (pushPass placed c).1.y → ∃ p ∈ placed, collides (c.atRow y) p = true := by
  induction placed generalizing c with
  | nil => exact ⟨rfl, le_rfl, fun y hge hlt ↦ absurd hlt (not_lt.2 hge)⟩
  | cons q placed ih =>
    cases hq : collides c q with
    | true =>
      obtain ⟨heq, hle, hblocked⟩ := ih (c.atRow (q.y + q.h))
      simp only [pushPass, hq, if_true]
      have hbelow : c.y < q.y + q.h := (collides_iff.1 hq).2.1
      simp only [Cell.atRow_y, Cell.atRow_atRow] at heq hle hblocked
      refine ⟨heq, hbelow.le.trans hle, fun y hge hlt ↦ ?_⟩
      by_cases hy : y < q.y + q.h
      · exact ⟨q, List.mem_cons_self, collides_atRow hq hge hy⟩
      · obtain ⟨p, hp, hcollides⟩ := hblocked y (not_lt.1 hy) hlt
        exact ⟨p, List.mem_cons_of_mem _ hp, hcollides⟩
    | false =>
      obtain ⟨heq, hle, hblocked⟩ := ih c
      simp only [pushPass, hq, Bool.false_eq_true, if_false]
      refine ⟨heq, hle, fun y hge hlt ↦ ?_⟩
      obtain ⟨p, hp, hcollides⟩ := hblocked y hge hlt
      exact ⟨p, List.mem_cons_of_mem _ hp, hcollides⟩

theorem pushPass_moved {placed : List Cell} {c : Cell} (h : (pushPass placed c).2 = true) :
    c.y < (pushPass placed c).1.y ∧ (pushPass placed c).1.y ≤ bottom placed := by
  induction placed generalizing c with
  | nil => simp [pushPass] at h
  | cons q placed ih =>
    cases hq : collides c q with
    | true =>
      simp only [pushPass, hq, if_true]
      have hbelow : c.y < q.y + q.h := (collides_iff.1 hq).2.1
      have hle := (pushPass_spec placed (c.atRow (q.y + q.h))).2.1
      refine ⟨hbelow.trans_le hle, ?_⟩
      cases hmoved : (pushPass placed (c.atRow (q.y + q.h))).2 with
      | true => exact (ih hmoved).2.trans (le_max_right _ _)
      | false =>
        have hblocked := (pushPass_spec placed (c.atRow (q.y + q.h))).2.2
        have hfree := pushPass_unmoved hmoved
        have hstays : (pushPass placed (c.atRow (q.y + q.h))).1.y = q.y + q.h := by
          refine (not_lt.1 fun hlt ↦ ?_).antisymm hle
          obtain ⟨p, hp, hcollides⟩ := hblocked _ le_rfl hlt
          simp [hfree p hp] at hcollides
        rw [hstays]
        exact le_max_left _ _
    | false =>
      rw [pushPass, hq] at h
      simp only [pushPass, hq, Bool.false_eq_true, if_false]
      exact ⟨(ih h).1, (ih h).2.trans (le_max_right _ _)⟩

/-- The turns until nothing is in the way. -/
def settle (placed : List Cell) (c : Cell) : Cell :=
  if _ : (pushPass placed c).2 = true then settle placed (pushPass placed c).1 else c
termination_by bottom placed - c.y
decreasing_by
  have hmoved := pushPass_moved ‹(pushPass placed c).2 = true›
  omega

section Compaction

variable {ι : Type} [LinearOrder ι]

/-- Items are placed by row, column and id. -/
def sortKey (item : ι × Cell) : ℕ ×ₗ ℕ ×ₗ ι := toLex (item.2.y, toLex (item.2.x, item.1))

def sorted (cells : List (ι × Cell)) : List (ι × Cell) :=
  cells.insertionSort fun a b ↦ sortKey a ≤ sortKey b

/-- Cut to the columns. -/
def clamp (cols : ℕ) (r : Cell) : Cell :=
  let w := max 1 (min r.w cols)
  ⟨min r.x (cols - w), r.y, w, max 1 r.h⟩

omit [LinearOrder ι] in
def clamped (cols : ℕ) (items : List (ι × Rect)) : List (ι × Cell) :=
  items.map fun item ↦ (item.1, clamp cols item.2.toCell)

omit [LinearOrder ι] in
def placeAll : List (ι × Cell) → List (ι × Cell) → Except LayoutError (List (ι × Cell))
  | placed, [] => .ok placed
  | placed, (id, c) :: rest =>
    let c' := settle (placed.map (·.2)) c
    if c'.y + c'.h > maxRows then .error .tooHigh else placeAll (placed ++ [(id, c')]) rest

def normalizeRects (cols : ℕ) (items : List (ι × Rect)) : Except LayoutError (List (ι × Rect)) := do
  let placed ← placeAll [] (sorted (clamped cols items))
  placed.mapM fun item ↦ (item.2.toRect).map fun r ↦ (item.1, r)

/-- The spots of a grid, row after row. -/
def spots (cols rows : ℕ) : List (ℕ × ℕ) :=
  (List.range rows).flatMap fun y ↦ (List.range cols).map fun x ↦ (x, y)

def firstFreeSpot (rects : List Cell) (w h cols : ℕ) : ℕ × ℕ :=
  let width := max 1 (min w cols)
  ((spots (cols + 1 - width) (bottom rects + 1)).find? fun (x, y) ↦
    !rects.any (collides ⟨x, y, width, h⟩)).getD (0, bottom rects)

end Compaction

/-- Nothing that is placed is in the way. -/
def Free (placed : List Cell) (c : Cell) : Prop := ∀ p ∈ placed, collides c p = false

theorem pushPass_of_free {placed : List Cell} {c : Cell} (h : Free placed c) :
    pushPass placed c = (c, false) := by
  induction placed with
  | nil => rfl
  | cons q placed ih =>
    rw [pushPass, h q List.mem_cons_self]
    exact ih fun p hp ↦ h p (List.mem_cons_of_mem _ hp)

theorem settle_of_free {placed : List Cell} {c : Cell} (h : Free placed c) :
    settle placed c = c := by
  rw [settle]
  simp [pushPass_of_free h]

/-- The turns end on the least row that is free. -/
theorem settle_spec (placed : List Cell) (c : Cell) :
    settle placed c = c.atRow (settle placed c).y ∧
      IsLeast {y | c.y ≤ y ∧ Free placed (c.atRow y)} (settle placed c).y := by
  induction c using settle.induct placed with
  | case1 c hmoved ih =>
    obtain ⟨heq, hle, hblocked⟩ := pushPass_spec placed c
    rw [settle, dif_pos hmoved]
    rw [heq, Cell.atRow_y] at ih
    simp only [Cell.atRow_atRow] at ih
    rw [heq]
    obtain ⟨hrow, ⟨hfrom, hfree⟩, hleast⟩ := ih
    refine ⟨hrow, ⟨hle.trans hfrom, hfree⟩, fun y ⟨hge, hy⟩ ↦ hleast ⟨?_, hy⟩⟩
    -- a row that the turn went over is not free
    by_contra hlt
    obtain ⟨p, hp, hcollides⟩ := hblocked y hge (not_le.1 hlt)
    rw [hy p hp] at hcollides
    cases hcollides
  | case2 c hmoved =>
    have hfree : Free placed c := pushPass_unmoved (Bool.eq_false_iff.2 hmoved)
    rw [settle_of_free hfree]
    exact ⟨rfl, ⟨le_rfl, hfree⟩, fun y hy ↦ hy.1⟩

theorem settle_le (placed : List Cell) (c : Cell) :
    (settle placed c).y ≤ max c.y (bottom placed) := by
  refine (settle_spec placed c).2.2 ⟨le_max_left _ _, fun p hp ↦ ?_⟩
  rw [Bool.eq_false_iff]
  intro hcollides
  have hlt := (collides_iff.1 hcollides).2.1
  have hbottom := le_bottom hp
  rw [Cell.atRow_y] at hlt
  omega

section Normal

variable {ι : Type}

/-- Each cell takes, in order, the least row from its own on that is free of all before. -/
inductive Stacked : List (ι × Cell) → List (ι × Cell) → List (ι × Cell) → Prop
  | nil {placed : List (ι × Cell)} : Stacked placed [] []
  | cons {placed rest out : List (ι × Cell)} {id : ι} {c : Cell} {y : ℕ}
      (least : IsLeast {y | c.y ≤ y ∧ Free (placed.map (·.2)) (c.atRow y)} y)
      (fits : y + c.h ≤ maxRows)
      (tail : Stacked (placed ++ [(id, c.atRow y)]) rest out) :
      Stacked placed ((id, c) :: rest) ((id, c.atRow y) :: out)

theorem placeAll_stacked {placed cells out : List (ι × Cell)}
    (h : placeAll placed cells = .ok out) :
    ∃ new, out = placed ++ new ∧ Stacked placed cells new := by
  induction cells generalizing placed with
  | nil =>
    cases h
    exact ⟨[], (List.append_nil _).symm, .nil⟩
  | cons item rest ih =>
    obtain ⟨id, c⟩ := item
    obtain ⟨hrow, hleast⟩ := settle_spec (placed.map (·.2)) c
    rw [placeAll] at h
    split at h
    · cases h
    · rename_i hfits
      rw [hrow] at h hfits
      obtain ⟨new, rfl, hnew⟩ := ih h
      exact ⟨_, List.append_assoc _ _ _, .cons hleast (not_lt.1 hfits) hnew⟩

theorem bottom_append (placed : List Cell) (c : Cell) :
    bottom (placed ++ [c]) = max (bottom placed) (c.y + c.h) := by
  induction placed with
  | nil => exact max_comm _ _
  | cons p placed ih =>
    change max (p.y + p.h) (bottom (placed ++ [c])) = max (max (p.y + p.h) (bottom placed)) _
    rw [ih, max_assoc]

/-- The stack is no higher than the lowest start and all the heights. -/
theorem placeAll_error {placed cells : List (ι × Cell)} {e : LayoutError}
    (h : placeAll placed cells = .error e) {top : ℕ} (htop : ∀ item ∈ cells, item.2.y ≤ top)
    {used : ℕ} (hused : bottom (placed.map (·.2)) ≤ top + used) :
    e = .tooHigh ∧ maxRows < top + used + (cells.map (·.2.h)).sum := by
  induction cells generalizing placed used with
  | nil => cases h
  | cons item rest ih =>
    obtain ⟨id, c⟩ := item
    obtain ⟨hrow, -⟩ := settle_spec (placed.map (·.2)) c
    have hle : (settle (placed.map (·.2)) c).y ≤ top + used :=
      (settle_le _ _).trans (max_le ((htop _ List.mem_cons_self).trans (Nat.le_add_right _ _)) hused)
    have hheight : (settle (placed.map (·.2)) c).h = c.h := by rw [hrow, Cell.atRow_h]
    simp only [List.map_cons, List.sum_cons]
    rw [placeAll] at h
    split at h
    · rename_i hhigh
      cases h
      exact ⟨rfl, by omega⟩
    · have hnext : bottom ((placed ++ [(id, settle (placed.map (·.2)) c)]).map (·.2)) ≤
          top + (used + c.h) := by
        simp only [List.map_append, List.map_singleton, bottom_append, hheight]
        omega
      obtain ⟨rfl, hlt⟩ := ih h (fun item hitem ↦ htop item (List.mem_cons_of_mem _ hitem)) hnext
      exact ⟨rfl, by omega⟩

namespace Stacked

variable {placed cells out : List (ι × Cell)}

/-- Only the rows change, and only downwards. -/
theorem exists_of_mem (h : Stacked placed cells out) {b : ι × Cell} (hb : b ∈ out) :
    ∃ a ∈ cells, b = (a.1, a.2.atRow b.2.y) ∧ a.2.y ≤ b.2.y := by
  induction h with
  | nil => exact absurd hb List.not_mem_nil
  | cons least fits tail ih =>
    rcases List.mem_cons.1 hb with rfl | hb
    · exact ⟨_, List.mem_cons_self, rfl, least.1.1⟩
    · obtain ⟨a, ha, hrow⟩ := ih hb
      exact ⟨a, List.mem_cons_of_mem _ ha, hrow⟩

theorem mem_row (h : Stacked placed cells out) {a : ι × Cell} (ha : a ∈ cells) :
    ∃ y, a.2.y ≤ y ∧ (a.1, a.2.atRow y) ∈ out := by
  induction h with
  | nil => exact absurd ha List.not_mem_nil
  | cons least fits tail ih =>
    rcases List.mem_cons.1 ha with rfl | ha
    · exact ⟨_, least.1.1, List.mem_cons_self⟩
    · obtain ⟨y, hy, hmem⟩ := ih ha
      exact ⟨y, hy, List.mem_cons_of_mem _ hmem⟩

theorem ids (h : Stacked placed cells out) : out.map Prod.fst = cells.map Prod.fst := by
  induction h with
  | nil => rfl
  | cons least fits tail ih => simp [ih]

theorem fits_all (h : Stacked placed cells out) : ∀ b ∈ out, b.2.y + b.2.h ≤ maxRows := by
  induction h with
  | nil => simp
  | cons least fits tail ih => exact List.forall_mem_cons.2 ⟨fits, ih⟩

/-- The cells stay apart from what was placed and from each other. -/
theorem apart (h : Stacked placed cells out)
    (hplaced : placed.Pairwise fun a b ↦ collides a.2 b.2 = false) :
    (placed ++ out).Pairwise fun a b ↦ collides a.2 b.2 = false := by
  induction h with
  | nil => simpa using hplaced
  | @cons placed rest out id c y least fits tail ih =>
    rw [← List.singleton_append, ← List.append_assoc]
    refine ih (List.pairwise_append.2 ⟨hplaced, List.pairwise_singleton _ _, fun a ha b hb ↦ ?_⟩)
    rw [List.mem_singleton.1 hb, collides_comm]
    exact least.1.2 a.2 (List.mem_map_of_mem ha)

end Stacked

/-- Cells that are apart stay where they are. -/
theorem placeAll_of_apart {placed cells : List (ι × Cell)}
    (hapart : (placed ++ cells).Pairwise fun a b ↦ collides a.2 b.2 = false)
    (hfits : ∀ b ∈ cells, b.2.y + b.2.h ≤ maxRows) :
    placeAll placed cells = .ok (placed ++ cells) := by
  induction cells generalizing placed with
  | nil => rw [List.append_nil, placeAll]
  | cons item rest ih =>
    obtain ⟨id, c⟩ := item
    have hfree : Free (placed.map (·.2)) c := by
      intro p hp
      obtain ⟨a, ha, rfl⟩ := List.mem_map.1 hp
      rw [collides_comm]
      exact (List.pairwise_append.1 hapart).2.2 a ha _ List.mem_cons_self
    rw [List.append_cons] at hapart ⊢
    rw [placeAll, settle_of_free hfree, if_neg (not_lt.2 (hfits _ List.mem_cons_self))]
    exact ih hapart fun b hb ↦ hfits b (List.mem_cons_of_mem _ hb)

variable [LinearOrder ι]

theorem sorted_perm (items : List (ι × Cell)) : (sorted items).Perm items :=
  List.perm_insertionSort _ _

/-- Items with different ids have one order. -/
theorem sorted_eq {items items' : List (ι × Cell)} (h : items.Perm items')
    (hid : (items.map Prod.fst).Nodup) : sorted items = sorted items' := by
  have htotal : Std.Total fun a b : ι × Cell ↦ sortKey a ≤ sortKey b := ⟨fun a b ↦ le_total _ _⟩
  have htrans : IsTrans (ι × Cell) fun a b ↦ sortKey a ≤ sortKey b := ⟨fun _ _ _ ↦ le_trans⟩
  have hpairwise (items : List (ι × Cell)) :
      (sorted items).Pairwise fun a b ↦ sortKey a ≤ sortKey b := List.pairwise_insertionSort _ _
  refine List.Perm.eq_of_pairwise (fun a b ha hb hab hba ↦ ?_) (hpairwise items) (hpairwise items')
    ((sorted_perm items).trans (h.trans (sorted_perm items').symm))
  have hfst : a.1 = b.1 := by
    have hkey := congrArg (fun k ↦ (ofLex (ofLex k).2).2) (hab.antisymm hba)
    exact hkey
  exact List.inj_on_of_nodup_map hid ((sorted_perm items).mem_iff.1 ha)
    ((h.symm.mem_iff).1 ((sorted_perm items').mem_iff.1 hb)) hfst

def cells (items : List (ι × Rect)) : List (ι × Cell) :=
  items.map fun item ↦ (item.1, item.2.toCell)

theorem toCell_of_toRect {c : Cell} {r : Rect} (h : c.toRect = .ok r) : r.toCell = c := by
  rw [Cell.toRect] at h
  split at h
  · cases h
    rfl
  · cases h

omit [LinearOrder ι] in
theorem cells_of_mapM {placed : List (ι × Cell)} {out : List (ι × Rect)}
    (h : (placed.mapM fun item ↦ (item.2.toRect).map fun r ↦ (item.1, r)) = .ok out) :
    cells out = placed := by
  have hall := mapM_eq_ok h
  clear h
  induction hall with
  | nil => rfl
  | @cons item b placed out hb hall ih =>
    cases hr : item.2.toRect with
    | error e => simp [hr, Except.map] at hb
    | ok r =>
      rw [hr] at hb
      cases hb
      change (item.1, r.toCell) :: cells out = item :: placed
      rw [toCell_of_toRect hr, ih]

omit [LinearOrder ι] in
theorem mapM_toRect {placed : List (ι × Cell)}
    (h : ∀ item ∈ placed, ∃ r, item.2.toRect = .ok r) :
    ∃ out, (placed.mapM fun item ↦ (item.2.toRect).map fun r ↦ (item.1, r)) = .ok out := by
  induction placed with
  | nil => exact ⟨[], rfl⟩
  | cons item placed ih =>
    obtain ⟨r, hr⟩ := h item List.mem_cons_self
    obtain ⟨out, hout⟩ := ih fun item hitem ↦ h item (List.mem_cons_of_mem _ hitem)
    refine ⟨(item.1, r) :: out, ?_⟩
    rw [List.mapM_cons, hr, hout]
    rfl

/-- A cut rectangle stays within the columns. -/
theorem clamp_within (cols : ℕ) (c : Cell) : (clamp cols c).x + (clamp cols c).w ≤ max 1 cols ∧
    1 ≤ (clamp cols c).w ∧ 1 ≤ (clamp cols c).h := by
  simp only [clamp]
  omega

theorem clamp_of_within {cols : ℕ} {c : Cell} (h : c.x + c.w ≤ max 1 cols) (hw : 1 ≤ c.w)
    (hh : 1 ≤ c.h) : clamp cols c = c := by
  have hwidth : max 1 (min c.w cols) = c.w := by omega
  have hstart : min c.x (cols - c.w) = c.x := by omega
  rw [clamp, hwidth, hstart, max_eq_right hh]

/-- A cut rectangle that ends above the last row is a rectangle. -/
theorem toRect_clamp (cols : ℕ) (r : Rect) {y : ℕ}
    (h : y + (clamp cols r.toCell).h ≤ maxRows) :
    ∃ r', ((clamp cols r.toCell).atRow y).toRect = .ok r' := by
  have hx := r.x_le
  have hw := r.w_le
  have hh := r.h_pos
  have hle := r.h_le
  simp only [clamp, maxRows] at h
  refine ⟨_, dif_pos ?_⟩
  simp only [clamp, Cell.atRow]
  omega

theorem stacked_of_normalizeRects {cols : ℕ} {items out : List (ι × Rect)}
    (h : normalizeRects cols items = .ok out) :
    Stacked [] (sorted (clamped cols items)) (cells out) := by
  obtain ⟨placed, hplaced, hout⟩ := bind_eq_ok.1 h
  obtain ⟨new, rfl, hnew⟩ := placeAll_stacked hplaced
  rw [cells_of_mapM hout]
  exact hnew

/-- The rectangles of a stack can all be built. -/
theorem normalizeRects_of_placeAll {cols : ℕ} {items : List (ι × Rect)} {placed : List (ι × Cell)}
    (h : placeAll [] (sorted (clamped cols items)) = .ok placed) :
    ∃ out, normalizeRects cols items = .ok out ∧ cells out = placed := by
  obtain ⟨new, hnew, hstacked⟩ := placeAll_stacked h
  rw [List.nil_append] at hnew
  subst hnew
  have hrects : ∀ item ∈ placed, ∃ r, item.2.toRect = .ok r := by
    intro item hitem
    obtain ⟨a, ha, hrow, -⟩ := hstacked.exists_of_mem hitem
    obtain ⟨source, -, rfl⟩ := List.mem_map.1 ((sorted_perm _).mem_iff.1 ha)
    have hfits := hstacked.fits_all _ hitem
    rw [hrow] at hfits ⊢
    exact toRect_clamp cols source.2 hfits
  obtain ⟨out, hout⟩ := mapM_toRect hrects
  refine ⟨out, ?_, cells_of_mapM hout⟩
  rw [normalizeRects, h]
  exact hout

omit [LinearOrder ι] in
theorem clamped_ids (cols : ℕ) (items : List (ι × Rect)) :
    (clamped cols items).map Prod.fst = items.map Prod.fst := by
  simp [clamped]

theorem normalizeRects_perm (cols : ℕ) {items items' : List (ι × Rect)} (h : items'.Perm items)
    (hid : (items.map Prod.fst).Nodup) : normalizeRects cols items' = normalizeRects cols items := by
  have hids : ((clamped cols items').map Prod.fst).Nodup := by
    rw [clamped_ids]
    exact (h.map Prod.fst).nodup_iff.2 hid
  have hsorted : sorted (clamped cols items') = sorted (clamped cols items) :=
    sorted_eq (h.map _) hids
  rw [normalizeRects, normalizeRects, hsorted]

/-- What comes out of a stack of cut rectangles is cut already. -/
theorem within_of_stacked {cols : ℕ} {items : List (ι × Rect)} {out : List (ι × Cell)}
    (h : Stacked [] (sorted (clamped cols items)) out) {item : ι × Cell} (hitem : item ∈ out) :
    clamp cols item.2 = item.2 ∧ item.2.x + item.2.w ≤ max 1 cols := by
  obtain ⟨a, ha, hrow, -⟩ := h.exists_of_mem hitem
  obtain ⟨source, -, rfl⟩ := List.mem_map.1 ((sorted_perm _).mem_iff.1 ha)
  obtain ⟨hcols, hw, hh⟩ := clamp_within cols source.2.toCell
  rw [hrow]
  exact ⟨clamp_of_within hcols hw hh, hcols⟩

/-- A normal form is its own. -/
theorem normalizeRects_again {cols : ℕ} {items out again : List (ι × Rect)}
    (h : normalizeRects cols items = .ok out) (hagain : again.Perm out) :
    ∃ same, normalizeRects cols again = .ok same ∧ (cells same).Perm (cells out) := by
  have hstacked := stacked_of_normalizeRects h
  have hcut : clamped cols again = cells again := by
    refine List.map_congr_left fun item hitem ↦ Prod.ext rfl ?_
    exact (within_of_stacked hstacked
      (List.mem_map_of_mem (f := fun item ↦ (item.1, item.2.toCell)) (hagain.mem_iff.1 hitem))).1
  have hperm : (sorted (cells again)).Perm (cells out) :=
    (sorted_perm _).trans (hagain.map _)
  have hplaced : placeAll [] (sorted (clamped cols again)) = .ok (sorted (cells again)) := by
    rw [hcut]
    refine placeAll_of_apart ?_ fun b hb ↦ hstacked.fits_all b (hperm.mem_iff.1 hb)
    exact (hperm.pairwise_iff fun hab ↦ by rwa [collides_comm]).2 (hstacked.apart .nil)
  obtain ⟨same, hsame, hcells⟩ := normalizeRects_of_placeAll hplaced
  exact ⟨same, hsame, hcells ▸ hperm⟩

theorem normalizeRects_error {cols : ℕ} {items : List (ι × Rect)} {e : LayoutError}
    (h : normalizeRects cols items = .error e) {top : ℕ}
    (htop : ∀ item ∈ items, item.2.y ≤ top) :
    e = .tooHigh ∧ maxRows < top + (items.map (·.2.h)).sum := by
  rcases bind_eq_error h with hplace | ⟨placed, hplace, hrects⟩
  · have htop' : ∀ item ∈ sorted (clamped cols items), item.2.y ≤ top := by
      intro item hitem
      obtain ⟨source, hsource, rfl⟩ := List.mem_map.1 ((sorted_perm _).mem_iff.1 hitem)
      exact htop source hsource
    obtain ⟨rfl, hlt⟩ := placeAll_error hplace htop' (Nat.zero_le (top + 0))
    refine ⟨rfl, ?_⟩
    have hheights : ((sorted (clamped cols items)).map (·.2.h)).sum = (items.map (·.2.h)).sum := by
      rw [((sorted_perm _).map _).sum_nat, clamped, List.map_map]
      refine congrArg List.sum (List.map_congr_left fun item _ ↦ ?_)
      exact max_eq_right item.2.h_pos
    omega
  · obtain ⟨out, hout, -⟩ := normalizeRects_of_placeAll hplace
    rw [h] at hout
    cases hout

/-- The normal form of a grid: each rectangle, cut to the columns, is on the first row from its
own on that the ones before it in row order leave free. A grid is refused only where it does not
fit, the rectangles of a normal form are a normal form, and the order of the items has no part. -/
theorem normalize_rects_normal_form (cols : ℕ) {items : List (ι × Rect)}
    (hid : (items.map Prod.fst).Nodup) :
    (∀ out, normalizeRects cols items = .ok out →
      Stacked [] (sorted (clamped cols items)) (cells out) ∧
      (cells out).Pairwise (fun a b ↦ collides a.2 b.2 = false) ∧
      (∀ item ∈ cells out, item.2.x + item.2.w ≤ max 1 cols ∧ item.2.y + item.2.h ≤ maxRows) ∧
      (∀ item ∈ clamped cols items, ∃ y, item.2.y ≤ y ∧ (item.1, item.2.atRow y) ∈ cells out) ∧
      ∀ again : List (ι × Rect), again.Perm out →
        ∃ same, normalizeRects cols again = .ok same ∧ (cells same).Perm (cells out)) ∧
    (∀ e, normalizeRects cols items = .error e → e = .tooHigh ∧
      ∀ top, (∀ item ∈ items, item.2.y ≤ top) → maxRows < top + (items.map (·.2.h)).sum) ∧
    ∀ items' : List (ι × Rect), items'.Perm items →
      normalizeRects cols items' = normalizeRects cols items := by
  refine ⟨fun out hout ↦ ?_, fun e he ↦ ⟨?_, fun top htop ↦ (normalizeRects_error he htop).2⟩,
    fun items' hperm ↦ normalizeRects_perm cols hperm hid⟩
  · have hstacked := stacked_of_normalizeRects hout
    refine ⟨hstacked, hstacked.apart .nil, fun item hitem ↦ ?_, fun item hitem ↦ ?_,
      fun again hagain ↦ normalizeRects_again hout hagain⟩
    · exact ⟨(within_of_stacked hstacked hitem).2, hstacked.fits_all item hitem⟩
    · exact hstacked.mem_row ((sorted_perm _).mem_iff.2 hitem)
  · exact (normalizeRects_error he fun item _ ↦ item.2.y_le).1

/-- Two rectangles that overlap. -/
def overlapping : List (ℕ × Rect) :=
  [(2, ⟨⟨3, 1, 6, 4⟩, by decide, by decide, by decide, by decide, by decide, by decide⟩),
    (1, ⟨⟨0, 0, 12, 3⟩, by decide, by decide, by decide, by decide, by decide, by decide⟩)]

theorem normalize_rects_normal_form_sample :
    normalizeRects 8 overlapping.reverse = normalizeRects 8 overlapping ∧
      ∀ out, normalizeRects 8 overlapping = .ok out →
        ∀ item ∈ cells out, item.2.x + item.2.w ≤ 8 ∧ item.2.y + item.2.h ≤ 1000 := by
  have hid : (overlapping.map Prod.fst).Nodup := by decide
  have hform := normalize_rects_normal_form 8 hid
  exact ⟨hform.2.2 _ (List.reverse_perm _), fun out hout ↦ (hform.1 out hout).2.2.1⟩

end Normal

theorem mem_spots {cols rows x y : ℕ} : (x, y) ∈ spots cols rows ↔ x < cols ∧ y < rows := by
  simp only [spots, List.mem_flatMap, List.mem_range, List.mem_map, Prod.mk.injEq]
  constructor
  · rintro ⟨y, hy, x, hx, rfl, rfl⟩
    exact ⟨hx, hy⟩
  · rintro ⟨hx, hy⟩
    exact ⟨y, hy, x, hx, rfl, rfl⟩

/-- The order of the scan. -/
def Before (a b : ℕ × ℕ) : Prop := a.2 < b.2 ∨ a.2 = b.2 ∧ a.1 < b.1

theorem Before.asymm {a b : ℕ × ℕ} (h : Before a b) : ¬Before b a := by
  simp only [Before] at h ⊢
  omega

theorem pairwise_spots (cols rows : ℕ) : (spots cols rows).Pairwise Before := by
  rw [spots, List.pairwise_flatMap]
  refine ⟨fun y _ ↦ ?_, ?_⟩
  · rw [List.pairwise_map]
    exact List.pairwise_lt_range.imp fun hlt ↦ .inr ⟨rfl, hlt⟩
  · refine List.pairwise_lt_range.imp fun hlt a ha b hb ↦ ?_
    obtain ⟨x, -, rfl⟩ := List.mem_map.1 ha
    obtain ⟨x', -, rfl⟩ := List.mem_map.1 hb
    exact .inl hlt

/-- A scan finds the first spot that meets the test. -/
theorem find_spots {cols rows : ℕ} {p : ℕ × ℕ → Bool} {spot : ℕ × ℕ}
    (h : (spots cols rows).find? p = some spot) :
    spot ∈ spots cols rows ∧ p spot = true ∧
      ∀ other ∈ spots cols rows, Before other spot → p other = false := by
  obtain ⟨hp, front, back, hsplit, hfront⟩ := List.find?_eq_some_iff_append.1 h
  refine ⟨List.mem_of_find?_eq_some h, hp, fun other hother hbefore ↦ ?_⟩
  have hpairwise := pairwise_spots cols rows
  rw [hsplit] at hother hpairwise
  rcases List.mem_append.1 hother with hmem | hmem
  · simpa using hfront other hmem
  · exfalso
    rcases List.mem_cons.1 hmem with rfl | hmem
    · exact hbefore.asymm hbefore
    · have hafter := (List.pairwise_cons.1 (List.pairwise_append.1 hpairwise).2.1).1 other hmem
      exact hafter.asymm hbefore

theorem free_below {placed : List Cell} {c : Cell} (h : bottom placed ≤ c.y) : Free placed c := by
  intro p hp
  rw [Bool.eq_false_iff]
  intro hcollides
  have hlt := (collides_iff.1 hcollides).2.1
  have hle := le_bottom hp
  omega

theorem not_any_collides {rects : List Cell} {c : Cell} :
    (!rects.any (collides c)) = true ↔ Free rects c := by
  simp [Free]

/-- The spot of a new widget: free and within the columns, no lower than the end of the grid, and
no spot before it in the order of the scan is free. -/
theorem firstFreeSpot_spec (rects : List Cell) (w h : ℕ) {cols : ℕ} (hcols : 1 ≤ cols) :
    let width := max 1 (min w cols)
    let spot := firstFreeSpot rects w h cols
    spot.1 + width ≤ cols ∧ spot.2 ≤ bottom rects ∧ Free rects ⟨spot.1, spot.2, width, h⟩ ∧
      ∀ x y, x + width ≤ cols → Before (x, y) spot → ¬Free rects ⟨x, y, width, h⟩ := by
  intro width spot
  have hwidth : width ≤ cols := by omega
  cases hfind : (spots (cols + 1 - width) (bottom rects + 1)).find? fun (x, y) ↦
      !rects.any (collides ⟨x, y, width, h⟩) with
  | none =>
    -- the row at the end of the grid is free
    have hnone := List.find?_eq_none.1 hfind (0, bottom rects) (mem_spots.2 ⟨by omega, by omega⟩)
    exact absurd (not_any_collides.2 (free_below le_rfl)) hnone
  | some found =>
    have hspot : spot = found := by
      change ((spots (cols + 1 - width) (bottom rects + 1)).find? _).getD _ = found
      rw [hfind, Option.getD_some]
    obtain ⟨hmem, hfree, hfirst⟩ := find_spots hfind
    obtain ⟨hx, hy⟩ := mem_spots.1 hmem
    rw [hspot]
    refine ⟨by omega, by omega, not_any_collides.1 hfree, fun x y hin hbefore hother ↦ ?_⟩
    have hrow : y ≤ found.2 := by
      rcases hbefore with hlt | ⟨heq, -⟩
      · exact hlt.le
      · exact heq.le
    have hfalse := hfirst (x, y) (mem_spots.2 ⟨by omega, by omega⟩) hbefore
    exact Bool.false_ne_true (hfalse.symm.trans (not_any_collides.2 hother))

end Tiqora.Dashboard
