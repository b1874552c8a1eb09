import Mathlib.Algebra.Order.Ring.Rat
import Mathlib.Tactic.Linarith
import Tiqora.Foundation.Machine
import Tiqora.Foundation.Tables

namespace Tiqora.Plugins.Gaps

open Foundation

/-- The auto-increment step and offset of the connection. -/
structure Tracker where
  hold : ℚ
  step : ℤ
  offset : Option ℤ
  positive : 0 < step

/-- The ids that are missing, and when each of them was first missed. -/
abbrev Seen := ℤ → Option ℚ

namespace Tracker

def ofArgs (holdSeconds : ℚ) (step : ℤ) (offset : Option ℤ) : Tracker :=
  ⟨holdSeconds, max step 1, offset, lt_max_of_lt_right one_pos⟩

variable (t : Tracker)

def onLattice (id : ℤ) : Bool :=
  match t.offset with
  | none => true
  | some offset => id % t.step = offset % t.step

/-- The loop of `firstExpected`: a step of the lattice has one of its ids. -/
def climb : ℕ → ℤ → ℤ
  | 0, expected => expected
  | n + 1, expected => if t.onLattice expected then expected else climb n (expected + 1)

def firstExpected (after : ℤ) : ℤ :=
  match t.offset with
  | none => after + t.step
  | some _ => t.climb t.step.toNat (after + 1)

/-- The loop of `horizon` over the ids above `after` in their order. -/
def scan (now : ℚ) : List ℤ → ℤ → ℤ → Seen → ℤ × Seen
  | [], horizon, _, seen => (horizon, seen)
  | id :: rest, horizon, expected, seen =>
    if t.onLattice id then
      if expected < id then
        let first := (seen expected).getD now
        if now - first < t.hold then (horizon, Function.update seen expected (some first))
        else scan now rest id (id + t.step) (Function.update seen expected none)
      else scan now rest id (id + t.step) seen
    else scan now rest id expected seen

def horizon (seen : Seen) (after : ℤ) (ids : List ℤ) (now : ℚ) : ℤ × Seen :=
  let found := t.scan now (sortedSet (ids.filter fun i ↦ after < i)) after (t.firstExpected after) seen
  (found.1, fun key ↦ if key ≤ found.1 then none else found.2 key)

end Tracker

structure Call where
  after : ℤ
  ids : List ℤ
  now : ℚ
  horizon : ℤ

/-- A tracker that is called again and again, its latest call first. -/
structure Watch where
  after : ℤ
  seen : Seen
  past : List Call

namespace Tracker

variable (t : Tracker)

def called (w : Watch) (ids : List ℤ) (now : ℚ) : Watch :=
  let found := t.horizon w.seen w.after ids now
  ⟨found.1, found.2, ⟨w.after, ids, now, found.1⟩ :: w.past⟩

/-- Time does not go back, and ids above the horizon are not lost again. -/
def machine : Machine Watch (List ℤ × ℚ) where
  init w := w.seen = (fun _ ↦ none) ∧ w.past = []
  step w look w' := (∀ call ∈ w.past, call.now ≤ look.2 ∧
    ∀ id ∈ call.ids, w.after < id → id ∈ look.1) ∧ w' = t.called w look.1 look.2

/-- An id of the lattice is missing below a listed one. -/
structure Missed (after : ℤ) (ids : List ℤ) (id : ℤ) : Prop where
  own : t.onLattice id = true
  above : after < id
  missing : id ∉ ids
  below : ∃ id' ∈ ids, id < id'

/-- The ids of the lattice from one up to a listed one are missing. -/
structure Gap (after : ℤ) (ids : List ℤ) (first id : ℤ) : Prop where
  own : t.onLattice first = true
  above : after < first
  below : first < id
  listed : id ∈ ids
  ends : t.onLattice id = true
  missing : ∀ z, t.onLattice z = true → first ≤ z → z < id → z ∉ ids

/-- The gap below an id is not old enough to be passed. -/
structure Held (w : Watch) (look : List ℤ × ℚ) (first id : ℤ) : Prop where
  gap : t.Gap w.after look.1 first id
  whole : w.after < first - t.step → first - t.step ∈ look.1
  young : look.2 - (w.seen first).getD look.2 < t.hold

/-- Below an id of another writer the last id of the lattice is listed, or a gap is held. -/
def Covers (w : Watch) (look : List ℤ × ℚ) : Prop :=
  (t.offset = none → t.step = 1) ∧
    ∀ id ∈ look.1, w.after < id → t.onLattice id = false →
      (∀ z, t.onLattice z = true → w.after < z → z < id → id < z + t.step → z ∈ look.1) ∨
        ∃ first id', id' < id ∧ t.Held w look first id'

/-- What the calls of a tracker promise. -/
structure Careful (past : List Call) : Prop where
  held : ∀ call ∈ past, ∀ z, t.onLattice z = true → call.after < z → z ≤ call.horizon →
    z ∉ call.ids → ∃ call' ∈ past, t.Missed call'.after call'.ids z ∧ call'.now + t.hold ≤ call.now
  moves : ∀ call ∈ past, call.after ≤ call.horizon ∧
    (call.horizon = call.after ∨ call.horizon ∈ call.ids)
  delivered : ∀ z, t.onLattice z = true → ∀ first : ℚ,
    (∀ call ∈ past, t.Missed call.after call.ids z → first ≤ call.now) →
    ∀ call' ∈ past, z ∈ call'.ids → call'.now < first + t.hold →
    ∀ call ∈ past, call.after < z → z ≤ call.horizon → z ∈ call.ids

end Tracker

section Lattice

variable {t : Tracker} {z z' after : ℤ}

theorem onLattice_add (t : Tracker) (z : ℤ) : t.onLattice (z + t.step) = t.onLattice z := by
  unfold Tracker.onLattice
  cases t.offset with
  | none => rfl
  | some offset => simp only [Int.add_emod_right]

theorem onLattice_sub (t : Tracker) (z : ℤ) : t.onLattice (z - t.step) = t.onLattice z := by
  rw [← onLattice_add, Int.sub_add_cancel]

theorem spaced (hstep : t.offset = none → t.step = 1) (hz : t.onLattice z = true)
    (hz' : t.onLattice z' = true) (hlt : z < z') : z + t.step ≤ z' := by
  unfold Tracker.onLattice at hz hz'
  cases hoffset : t.offset with
  | none =>
    rw [hstep hoffset]
    omega
  | some offset =>
    rw [hoffset] at hz hz'
    have heq : z' % t.step = z % t.step := (of_decide_eq_true hz').trans (of_decide_eq_true hz).symm
    have hdvd : t.step ∣ z' - z :=
      Int.dvd_of_emod_eq_zero (Int.emod_eq_emod_iff_emod_sub_eq_zero.1 heq)
    have hle := Int.le_of_dvd (by omega) hdvd
    omega

/-- A step of the lattice above an id has one of its ids. -/
theorem exists_onLattice (t : Tracker) (z : ℤ) :
    ∃ z', t.onLattice z' = true ∧ z ≤ z' ∧ z' < z + t.step := by
  cases hoffset : t.offset with
  | none =>
    refine ⟨z, ?_, le_rfl, by have := t.positive; omega⟩
    rw [Tracker.onLattice, hoffset]
  | some offset =>
    refine ⟨z + (offset - z) % t.step, ?_, ?_, ?_⟩
    · rw [Tracker.onLattice, hoffset]
      refine decide_eq_true ?_
      rw [Int.add_emod_emod]
      congr 1
      omega
    · exact Int.le_add_of_nonneg_right (Int.emod_nonneg _ t.positive.ne')
    · exact Int.add_lt_add_left (Int.emod_lt_of_pos _ t.positive) _

theorem climb_spec {n : ℕ} (h : ∃ z', t.onLattice z' = true ∧ z ≤ z' ∧ z' < z + n) :
    t.onLattice (t.climb n z) = true ∧ z ≤ t.climb n z ∧
      ∀ z', t.onLattice z' = true → z ≤ z' → t.climb n z ≤ z' := by
  induction n generalizing z with
  | zero =>
    obtain ⟨z', -, hle, hlt⟩ := h
    omega
  | succ n ih =>
    unfold Tracker.climb
    by_cases hz : t.onLattice z = true
    · rw [if_pos hz]
      exact ⟨hz, le_rfl, fun _ _ hle ↦ hle⟩
    · rw [if_neg hz]
      have hne : ∀ z', t.onLattice z' = true → z ≤ z' → z + 1 ≤ z' := by
        intro z' hz' hle
        rcases hle.eq_or_lt with rfl | hlt
        · exact absurd hz' hz
        · exact hlt
      obtain ⟨z', hz', hle, hlt⟩ := h
      obtain ⟨hon, hge, hleast⟩ := ih ⟨z', hz', hne z' hz' hle, by omega⟩
      exact ⟨hon, by omega, fun z' hz' hle ↦ hleast z' hz' (hne z' hz' hle)⟩

theorem firstExpected_spec (hstep : t.offset = none → t.step = 1) (after : ℤ) :
    t.onLattice (t.firstExpected after) = true ∧ after < t.firstExpected after ∧
      ∀ z, t.onLattice z = true → after < z → t.firstExpected after ≤ z := by
  unfold Tracker.firstExpected
  cases hoffset : t.offset with
  | none =>
    have hone := hstep hoffset
    refine ⟨?_, by dsimp only; omega, fun z _ hlt ↦ by dsimp only; omega⟩
    rw [Tracker.onLattice, hoffset]
  | some offset =>
    obtain ⟨z', hz', hle, hlt⟩ := exists_onLattice t (after + 1)
    have hpos := t.positive
    have hspec := climb_spec (t := t) (z := after + 1) (n := t.step.toNat)
      ⟨z', hz', hle, by omega⟩
    exact ⟨hspec.1, by have := hspec.2.1; dsimp only; omega, fun z hz hlt ↦ hspec.2.2 z hz hlt⟩

end Lattice

section Scan

variable {t : Tracker} {w : Watch} {look : List ℤ × ℚ} {rest : List ℤ} {horizon expected id : ℤ}
  {seen : Seen}

/-- An id that may be passed while it is missing. -/
def Excused (t : Tracker) (w : Watch) (look : List ℤ × ℚ) (z : ℤ) : Prop :=
  t.Missed w.after look.1 z ∧ look.2 + t.hold ≤ look.2 ∨
    ∃ call ∈ w.past, t.Missed call.after call.ids z ∧ call.now + t.hold ≤ look.2

/-- Where the scan of a call stands. -/
structure Turn (t : Tracker) (w : Watch) (look : List ℤ × ℚ) (horizon expected : ℤ) (seen : Seen) :
    Prop where
  forth : w.after ≤ horizon
  reached : horizon = w.after ∨ horizon ∈ look.1
  own : t.onLattice expected = true
  above : horizon < expected
  least : ∀ z, t.onLattice z = true → horizon < z → expected ≤ z
  whole : w.after < expected - t.step → expected - t.step ∈ look.1
  unheld : ∀ first id, id ≤ horizon → ¬t.Held w look first id
  kept : ∀ key, horizon < key → seen key = w.seen key
  fewer : ∀ key first, seen key = some first → w.seen key = some first
  excused : ∀ z, t.onLattice z = true → w.after < z → z ≤ horizon → z ∈ look.1 ∨ Excused t w look z

/-- The ids left of a scan. -/
structure Left (look : List ℤ × ℚ) (horizon : ℤ) (rest : List ℤ) : Prop where
  sorted : rest.Pairwise (· < ·)
  mem : ∀ id, id ∈ rest ↔ id ∈ look.1 ∧ horizon < id

theorem Left.tail (h : Left look horizon (id :: rest)) : Left look id rest := by
  obtain ⟨hid, hrest⟩ := List.pairwise_cons.1 h.sorted
  have hhead := (h.mem id).1 List.mem_cons_self
  refine ⟨hrest, fun z ↦ ⟨fun hz ↦ ⟨((h.mem z).1 (List.mem_cons_of_mem _ hz)).1, hid z hz⟩,
    fun ⟨hz, hlt⟩ ↦ ?_⟩⟩
  rcases List.mem_cons.1 ((h.mem z).2 ⟨hz, hhead.2.trans hlt⟩) with rfl | hmem
  · exact absurd hlt (lt_irrefl z)
  · exact hmem

theorem Left.le (h : Left look horizon (id :: rest)) {z : ℤ} (hz : z ∈ look.1)
    (hlt : horizon < z) : id ≤ z := by
  obtain ⟨hid, -⟩ := List.pairwise_cons.1 h.sorted
  rcases List.mem_cons.1 ((h.mem z).2 ⟨hz, hlt⟩) with rfl | hmem
  · exact le_rfl
  · exact (hid z hmem).le

/-- Only one gap ends at an id. -/
theorem Turn.first_eq (h : Turn t w look horizon expected seen)
    (hstep : t.offset = none → t.step = 1) (hleft : Left look horizon (id :: rest)) {first : ℤ}
    (hle : expected ≤ id) (hgap : t.Gap w.after look.1 first id)
    (hwhole : w.after < first - t.step → first - t.step ∈ look.1) : first = expected := by
  have hpos := t.positive
  have hforth := h.forth
  have habove := h.above
  have hafter := hgap.above
  have hbelow := hgap.below
  rcases lt_trichotomy first expected with hlt | heq | hlt
  · have hspace := spaced hstep hgap.own h.own hlt
    have hin := h.whole (by omega)
    exact absurd hin (hgap.missing _ ((onLattice_sub t _).trans h.own) (by omega) (by omega))
  · exact heq
  · have hspace := spaced hstep h.own hgap.own hlt
    have hin := hleft.le (hwhole (by omega)) (by omega)
    omega

/-- A gap that was first missed long enough ago was missed as a whole. -/
theorem excused_of_gap (hgain : ∀ call ∈ w.past, ∀ id ∈ call.ids, w.after < id → id ∈ look.1)
    (hseen : ∀ key first, w.seen key = some first →
      ∃ call ∈ w.past, call.now = first ∧ ∃ id, t.Gap call.after call.ids key id)
    {first : ℤ} (hgap : t.Gap w.after look.1 first id)
    (hold : ¬look.2 - (w.seen first).getD look.2 < t.hold) {z : ℤ} (hz : t.onLattice z = true)
    (hle : first ≤ z) (hlt : z < id) : Excused t w look z := by
  have hafter := hgap.above
  cases hfirst : w.seen first with
  | none =>
    rw [hfirst, Option.getD_none] at hold
    have hmissing := hgap.missing z hz hle hlt
    exact .inl ⟨⟨hz, by omega, hmissing, id, hgap.listed, hlt⟩, by linarith⟩
  | some since =>
    rw [hfirst, Option.getD_some] at hold
    obtain ⟨call, hcall, rfl, id', hgap'⟩ := hseen first since hfirst
    have hbelow := hgap'.below
    have hlt' : z < id' := by
      by_contra hge
      have hin := hgain call hcall id' hgap'.listed (by omega)
      exact hgap.missing id' hgap'.ends (by omega) (by omega) hin
    have hmissing := hgap'.missing z hz hle hlt'
    have habove := hgap'.above
    exact .inr ⟨call, hcall, ⟨hz, by omega, hmissing, id', hgap'.listed, hlt'⟩, by linarith⟩

/-- An id of another writer is passed. -/
theorem Turn.foreign (h : Turn t w look horizon expected seen) (hcovers : t.Covers w look)
    (hleft : Left look horizon (id :: rest)) (hid : t.onLattice id = false) :
    Turn t w look id expected seen := by
  obtain ⟨hlisted, hlt⟩ := (hleft.mem id).1 List.mem_cons_self
  have hforth := h.forth
  have hne : id ≠ expected := by
    intro heq
    rw [heq, h.own] at hid
    cases hid
  have hbelow : id < expected := by
    by_contra hge
    rcases hcovers.2 id hlisted (by omega) hid with hall | ⟨first, id', hid', hheld⟩
    · obtain ⟨p, hp, hlow, hhigh⟩ := exists_onLattice t (id - t.step + 1)
      have hne' : p ≠ id := by
        intro heq
        rw [heq, hid] at hp
        cases hp
      have hexpected : expected ≤ p := by
        by_contra hbefore
        have hspace := spaced hcovers.1 hp h.own (by omega)
        have habove := h.above
        omega
      have habove := h.above
      have hin := hall p hp (by omega) (by omega) (by omega)
      have hle := hleft.le hin (by omega)
      omega
    · by_cases hpassed : id' ≤ horizon
      · exact h.unheld first id' hpassed hheld
      · have hle := hleft.le hheld.gap.listed (by omega)
        omega
  refine ⟨by omega, .inr hlisted, h.own, hbelow, fun z hz hz' ↦ h.least z hz (by omega), h.whole,
    fun first id' hle hheld ↦ ?_, fun key hkey ↦ h.kept key (by omega), h.fewer,
    fun z hz hafter hle ↦ ?_⟩
  · by_cases hpassed : id' ≤ horizon
    · exact h.unheld first id' hpassed hheld
    · have hge := hleft.le hheld.gap.listed (by omega)
      have heq : id' = id := by omega
      rw [heq] at hheld
      exact absurd hheld.gap.ends (by rw [hid]; decide)
  · by_cases hpassed : z ≤ horizon
    · exact h.excused z hz hafter hpassed
    · have hge := h.least z hz (by omega)
      omega

/-- An id of the lattice is passed: no id is missing below it, or the gap is old enough. -/
theorem Turn.own_id {seen' : Seen} (h : Turn t w look horizon expected seen)
    (hstep : t.offset = none → t.step = 1) (hleft : Left look horizon (id :: rest))
    (hid : t.onLattice id = true)
    (hgap : expected < id → ¬look.2 - (w.seen expected).getD look.2 < t.hold ∧
      ∀ z, t.onLattice z = true → expected ≤ z → z < id → Excused t w look z)
    (hkept : ∀ key, id < key → seen' key = seen key)
    (hfewer : ∀ key first, seen' key = some first → seen key = some first) :
    Turn t w look id (id + t.step) seen' := by
  obtain ⟨hlisted, hlt⟩ := (hleft.mem id).1 List.mem_cons_self
  have hforth := h.forth
  have hpos := t.positive
  have hexpected := h.least id hid hlt
  refine ⟨by omega, .inr hlisted, (onLattice_add t id).trans hid, by omega,
    fun z hz hlt' ↦ spaced hstep hid hz hlt', fun _ ↦ ?_, fun first id' hle hheld ↦ ?_,
    fun key hkey ↦ (hkept key hkey).trans (h.kept key (by omega)),
    fun key first hfirst ↦ h.fewer key first (hfewer key first hfirst), fun z hz hafter hle ↦ ?_⟩
  · rwa [Int.add_sub_cancel]
  · by_cases hpassed : id' ≤ horizon
    · exact h.unheld first id' hpassed hheld
    · have hge := hleft.le hheld.gap.listed (by omega)
      obtain rfl : id' = id := by omega
      obtain rfl := h.first_eq hstep hleft hexpected hheld.gap hheld.whole
      exact (hgap hheld.gap.below).1 hheld.young
  · by_cases hpassed : z ≤ horizon
    · exact h.excused z hz hafter hpassed
    · have hge := h.least z hz (by omega)
      rcases hle.eq_or_lt with rfl | hbelow
      · exact .inl hlisted
      · exact .inr ((hgap (by omega)).2 z hz hge hbelow)

/-- What a scan leaves. -/
structure Scanned (t : Tracker) (w : Watch) (look : List ℤ × ℚ) (found : ℤ × Seen) : Prop where
  forth : w.after ≤ found.1
  reached : found.1 = w.after ∨ found.1 ∈ look.1
  excused : ∀ z, t.onLattice z = true → w.after < z → z ≤ found.1 → z ∈ look.1 ∨ Excused t w look z
  noted : ∀ key first, found.2 key = some first →
    w.seen key = some first ∨ first = look.2 ∧ ∃ id, t.Gap w.after look.1 key id

theorem Turn.scanned (h : Turn t w look horizon expected seen) :
    Scanned t w look (horizon, seen) :=
  ⟨h.forth, h.reached, h.excused, fun key first hfirst ↦ .inl (h.fewer key first hfirst)⟩

theorem scan_spec (hcovers : t.Covers w look)
    (hgain : ∀ call ∈ w.past, ∀ id ∈ call.ids, w.after < id → id ∈ look.1)
    (hseen : ∀ key first, w.seen key = some first →
      ∃ call ∈ w.past, call.now = first ∧ ∃ id, t.Gap call.after call.ids key id)
    (h : Turn t w look horizon expected seen) (hleft : Left look horizon rest) :
    Scanned t w look (t.scan look.2 rest horizon expected seen) := by
  induction rest generalizing horizon expected seen with
  | nil => exact h.scanned
  | cons id rest ih =>
    unfold Tracker.scan
    by_cases hid : t.onLattice id = true
    · rw [if_pos hid]
      obtain ⟨hlisted, hlt⟩ := (hleft.mem id).1 List.mem_cons_self
      have hforth := h.forth
      have habove := h.above
      by_cases hbelow : expected < id
      · rw [if_pos hbelow]
        have hgap : t.Gap w.after look.1 expected id := by
          refine ⟨h.own, by omega, hbelow, hlisted, hid, fun z hz hle hz' hin ↦ ?_⟩
          have hge := hleft.le hin (by omega)
          omega
        rw [h.kept expected habove]
        by_cases hyoung : look.2 - (w.seen expected).getD look.2 < t.hold
        · rw [if_pos hyoung]
          refine ⟨h.forth, h.reached, h.excused, fun key first hfirst ↦ ?_⟩
          dsimp only at hfirst
          by_cases hkey : key = expected
          · subst hkey
            rw [Function.update_self, Option.some_inj] at hfirst
            cases hold : w.seen key with
            | none =>
              rw [hold] at hfirst
              exact .inr ⟨hfirst.symm, id, hgap⟩
            | some since =>
              rw [hold] at hfirst
              exact .inl (congrArg some hfirst)
          · rw [Function.update_of_ne hkey] at hfirst
            exact .inl (h.fewer key first hfirst)
        · rw [if_neg hyoung]
          refine ih (h.own_id hcovers.1 hleft hid (fun _ ↦ ⟨hyoung, fun z hz ↦
            excused_of_gap hgain hseen hgap hyoung hz⟩) (fun key hkey ↦ ?_)
            fun key first hfirst ↦ ?_) hleft.tail
          · exact Function.update_of_ne (by omega) _ _
          · by_cases hkey : key = expected
            · rw [hkey, Function.update_self] at hfirst
              cases hfirst
            · rwa [Function.update_of_ne hkey] at hfirst
      · rw [if_neg hbelow]
        exact ih (h.own_id hcovers.1 hleft hid (fun hlt' ↦ absurd hlt' hbelow) (fun _ _ ↦ rfl)
          fun _ _ hfirst ↦ hfirst) hleft.tail
    · rw [if_neg hid]
      exact ih (h.foreign hcovers hleft (Bool.eq_false_iff.2 hid)) hleft.tail

theorem Left.start (w : Watch) (look : List ℤ × ℚ) :
    Left look w.after (sortedSet (look.1.filter fun i ↦ w.after < i)) := by
  refine ⟨?_, fun id ↦ ?_⟩
  · exact (List.pairwise_insertionSort _ _).imp₂ (fun _ _ hle hne ↦ lt_of_le_of_ne hle hne)
      (nodup_sortedSet _)
  · rw [mem_sortedSet, List.mem_filter, decide_eq_true_eq]

theorem Turn.start (hstep : t.offset = none → t.step = 1) (w : Watch) (look : List ℤ × ℚ) :
    Turn t w look w.after (t.firstExpected w.after) w.seen := by
  obtain ⟨hown, habove, hleast⟩ := firstExpected_spec hstep w.after
  have hpos := t.positive
  refine ⟨le_rfl, .inl rfl, hown, habove, hleast, fun hlt ↦ ?_, fun first id hle hheld ↦ ?_,
    fun _ _ ↦ rfl, fun _ _ hfirst ↦ hfirst, fun z _ hlt hle ↦ ?_⟩
  · have hge := hleast _ ((onLattice_sub t _).trans hown) hlt
    omega
  · have habove' := hheld.gap.above
    have hbelow := hheld.gap.below
    omega
  · omega

end Scan

section Runs

variable {t : Tracker} {w w' : Watch} {look : List ℤ × ℚ}

/-- What holds between the calls. -/
structure Sound (t : Tracker) (w : Watch) : Prop where
  seen : ∀ key first, w.seen key = some first →
    ∃ call ∈ w.past, call.now = first ∧ ∃ id, t.Gap call.after call.ids key id
  ordered : w.past.Pairwise fun call call' ↦ call'.now ≤ call.now ∧
    ∀ id ∈ call'.ids, call.after < id → id ∈ call.ids
  held : ∀ call ∈ w.past, ∀ z, t.onLattice z = true → call.after < z → z ≤ call.horizon →
    z ∉ call.ids → ∃ call' ∈ w.past, t.Missed call'.after call'.ids z ∧
      call'.now + t.hold ≤ call.now
  moves : ∀ call ∈ w.past, call.after ≤ call.horizon ∧
    (call.horizon = call.after ∨ call.horizon ∈ call.ids)

theorem Sound.step (h : Sound t w) (hcovers : t.Covers w look)
    (hstep : t.machine.step w look w') : Sound t w' := by
  obtain ⟨hlook, rfl⟩ := hstep
  have hgain := fun call hcall ↦ (hlook call hcall).2
  obtain ⟨hforth, hreached, hexcused, hnoted⟩ := scan_spec hcovers hgain h.seen
    (Turn.start hcovers.1 w look) (Left.start w look)
  refine ⟨fun key first hfirst ↦ ?_, ?_, ?_, ?_⟩
  · have hkept : (t.scan look.2 (sortedSet (look.1.filter fun i ↦ w.after < i)) w.after
        (t.firstExpected w.after) w.seen).2 key = some first := by
      change (if _ then none else _) = some first at hfirst
      split at hfirst
      · cases hfirst
      · exact hfirst
    rcases hnoted key first hkept with hold | ⟨rfl, hgap⟩
    · obtain ⟨call, hcall, hnow, hgap⟩ := h.seen key first hold
      exact ⟨call, List.mem_cons_of_mem _ hcall, hnow, hgap⟩
    · exact ⟨_, List.mem_cons_self, rfl, hgap⟩
  · exact List.pairwise_cons.2 ⟨hlook, h.ordered⟩
  · refine List.forall_mem_cons.2 ⟨fun z hz hafter hle hmissing ↦ ?_,
      fun call hcall z hz hafter hle hmissing ↦ ?_⟩
    · rcases hexcused z hz hafter hle with hin | ⟨hmissed, hold⟩ | ⟨call, hcall, hmissed, hold⟩
      · exact absurd hin hmissing
      · exact ⟨_, List.mem_cons_self, hmissed, hold⟩
      · exact ⟨call, List.mem_cons_of_mem _ hcall, hmissed, hold⟩
    · obtain ⟨call', hcall', hmissed, hold⟩ := h.held call hcall z hz hafter hle hmissing
      exact ⟨call', List.mem_cons_of_mem _ hcall', hmissed, hold⟩
  · exact List.forall_mem_cons.2 ⟨⟨hforth, hreached⟩, h.moves⟩

/-- A call that lists an id comes after one that has it above its start and not in its list. -/
theorem Sound.later (h : Sound t w) (z : ℤ) {call call' : Call} (hcall : call ∈ w.past)
    (hcall' : call' ∈ w.past) (hafter : call.after < z) (hmissing : z ∉ call.ids)
    (hin : z ∈ call'.ids) : call.now ≤ call'.now := by
  have hall := List.Pairwise.forall_of_forall_of_flip
    (R := fun c c' : Call ↦ c.after < z → z ∉ c.ids → z ∈ c'.ids → c.now ≤ c'.now)
    (fun _ _ _ _ _ ↦ le_rfl) (h.ordered.imp fun ⟨_, hgain⟩ hlt hnot hz ↦ absurd (hgain z hz hlt) hnot)
    (h.ordered.imp fun ⟨htime, _⟩ _ _ _ ↦ htime)
  exact hall hcall hcall' hafter hmissing hin

/-- An id that was listed in time is listed when the horizon passes it. -/
theorem Sound.careful (h : Sound t w) : t.Careful w.past := by
  refine ⟨h.held, h.moves, fun z hz first hfirst call' hcall' hin htime call hcall hafter hle ↦ ?_⟩
  by_contra hmissing
  obtain ⟨call₀, hcall₀, hmissed, hold⟩ := h.held call hcall z hz hafter hle hmissing
  have hsince := hfirst call₀ hcall₀ hmissed
  have hlater : call.now ≤ call'.now := h.later z hcall hcall' hafter hmissing hin
  linarith

theorem sound_of_reachable (h : (t.machine.restrict t.Covers).Reachable w) : Sound t w := by
  refine h.invariant (fun w hw ↦ ?_) fun w look w' hw hstep ↦ hw.step hstep.1 hstep.2
  obtain ⟨hseen, hpast⟩ := hw
  refine ⟨fun key first hfirst ↦ ?_, ?_, ?_, ?_⟩
  · rw [hseen] at hfirst
    cases hfirst
  · rw [hpast]
    exact .nil
  · rw [hpast]
    exact fun _ hcall ↦ absurd hcall List.not_mem_nil
  · rw [hpast]
    exact fun _ hcall ↦ absurd hcall List.not_mem_nil

/-- A tracker passes a missing id only when it was missed long enough ago, as long as the ids of
other writers do not pass one. -/
theorem gaps_held (h : (t.machine.restrict t.Covers).Reachable w) : t.Careful w.past :=
  (sound_of_reachable h).careful

section Sample

/-- The even ids. -/
def evenTracker : Tracker := .ofArgs 60 2 (some 0)

def fresh : Watch := ⟨10, fun _ ↦ none, []⟩

theorem even_onLattice {z : ℤ} : evenTracker.onLattice z = true ↔ z % 2 = 0 :=
  ⟨of_decide_eq_true, decide_eq_true⟩

theorem gaps_held_sample : ∃ w, (evenTracker.machine.restrict evenTracker.Covers).Reachable w ∧
    (w.past.map fun call ↦ call.horizon) = [16, 13] ∧ evenTracker.Careful w.past := by
  have hnone : evenTracker.offset = none → evenTracker.step = 1 := fun hnone ↦ absurd hnone (by decide)
  have hfirst : evenTracker.Covers fresh ([12, 13, 16], 0) := by
    refine ⟨hnone, fun id hid _ hother ↦ .inl fun z hz _ hlt hgt ↦ ?_⟩
    rw [even_onLattice] at hz
    change id < z + 2 at hgt
    simp only [List.mem_cons, List.not_mem_nil, or_false] at hid ⊢
    rcases hid with rfl | rfl | rfl
    · exact absurd hother (by decide)
    · omega
    · exact absurd hother (by decide)
  have hafter : (evenTracker.called fresh [12, 13, 16] 0).after = 13 := by decide +kernel
  have hnext : evenTracker.Covers (evenTracker.called fresh [12, 13, 16] 0) ([12, 13, 16], 60) := by
    refine ⟨hnone, fun id hid habove hother ↦ ?_⟩
    rw [hafter] at habove
    simp only [List.mem_cons, List.not_mem_nil, or_false] at hid
    rcases hid with rfl | rfl | rfl
    · omega
    · omega
    · exact absurd hother (by decide)
  have hreach : (evenTracker.machine.restrict evenTracker.Covers).Reachable
      (evenTracker.called (evenTracker.called fresh [12, 13, 16] 0) [12, 13, 16] 60) := by
    refine ⟨fresh, [([12, 13, 16], 0), ([12, 13, 16], 60)], ⟨rfl, rfl⟩,
      .cons ⟨hfirst, fun _ hcall ↦ absurd hcall List.not_mem_nil, rfl⟩
        (.cons ⟨hnext, fun call hcall ↦ ?_, rfl⟩ (.nil _))⟩
    obtain rfl := List.mem_singleton.1 hcall
    exact ⟨by decide, fun id hid _ ↦ hid⟩
  exact ⟨_, hreach, by decide +kernel, gaps_held hreach⟩

/-- An id of another writer takes the horizon past an id that is missed for the first time. -/
theorem gap_skipped : ∃ w, evenTracker.machine.Reachable w ∧ ¬evenTracker.Careful w.past := by
  refine ⟨evenTracker.called fresh [13] 0, ⟨fresh, [([13], 0)], ⟨rfl, rfl⟩,
    .one ⟨fun _ hcall ↦ absurd hcall List.not_mem_nil, rfl⟩⟩, fun hcareful ↦ ?_⟩
  have hhorizon : (evenTracker.horizon fresh.seen 10 [13] 0).1 = 13 := by decide +kernel
  obtain ⟨call, hcall, -, hold⟩ := hcareful.held _ List.mem_cons_self 12 (by decide) (by decide)
    (by change 12 ≤ (evenTracker.horizon fresh.seen 10 [13] 0).1; rw [hhorizon]; decide) (by decide)
  obtain rfl := List.mem_singleton.1 hcall
  change (0 : ℚ) + 60 ≤ 0 at hold
  linarith

end Sample

end Runs

end Tiqora.Plugins.Gaps
