import Tiqora.Znuny.CounterAdd
import Mathlib.Data.List.Nodup
import Mathlib.Order.Basic

namespace Tiqora.Znuny

open Foundation

variable {settings : CounterSettings}

theorem Together.refl (row : CounterRow) : Together settings row row := fun _ ↦ rfl

theorem Together.symm {row row' : CounterRow} (h : Together settings row row') :
    Together settings row' row := fun hb ↦ (h hb).symm

theorem Together.trans {row row' row'' : CounterRow} (h : Together settings row row')
    (h' : Together settings row' row'') : Together settings row row'' :=
  fun hb ↦ (h hb).trans (h' hb)

/-- The same row later on: a set counter stays. -/
structure CounterRow.Keeps (row row' : CounterRow) : Prop where
  id : row'.id = row.id
  uid : row'.counterUid = row.counterUid
  createTime : row'.createTime = row.createTime
  counter : row.counter ≠ 0 → row'.counter = row.counter

theorem CounterRow.Keeps.refl (row : CounterRow) : row.Keeps row := ⟨rfl, rfl, rfl, fun _ ↦ rfl⟩

theorem CounterRow.Keeps.meets {row row' : CounterRow} (h : row.Keeps row')
    (midnight : Option ℕ) : row'.meets midnight = row.meets midnight := by
  cases midnight with
  | none => rfl
  | some midnight => simp only [CounterRow.meets, h.createTime]

theorem CounterRow.Keeps.together {row row' : CounterRow} (h : row.Keeps row') :
    Together settings row row' := fun _ ↦ by simp only [CounterRow.day, h.createTime]

theorem CounterRow.fill_keeps (unsetId counter : ℕ) (row : CounterRow) :
    row.Keeps (row.fill unsetId counter) := by
  by_cases h : row.id = unsetId ∧ row.counter = 0
  · rw [CounterRow.fill, if_pos h]
    exact ⟨rfl, rfl, rfl, fun hc ↦ absurd h.2 hc⟩
  · rw [CounterRow.fill, if_neg h]
    exact .refl row

theorem CounterRow.fill_counter {unsetId counter : ℕ} (row : CounterRow) (h : row.id ≠ unsetId) :
    row.fill unsetId counter = row := by
  rw [CounterRow.fill, if_neg]
  intro h'
  exact h h'.1

/-- What a transaction does to the table: rows stay, and a new one comes last and is owned by the
call that makes the transaction. -/
structure Grows (uid : ℕ) (rows rows' : List CounterRow) : Prop where
  kept : ∀ row ∈ rows, ∃ row' ∈ rows', row.Keeps row'
  known : ∀ row' ∈ rows', (∃ row ∈ rows, row.Keeps row') ∨
    row'.counterUid = some uid ∧ ∀ row ∈ rows, row.id < row'.id

theorem Grows.refl (uid : ℕ) (rows : List CounterRow) : Grows uid rows rows where
  kept row hr := ⟨row, hr, .refl row⟩
  known row hr := .inl ⟨row, hr, .refl row⟩

theorem grows_insert {uid : ℕ} {rows : List CounterRow} {row : CounterRow}
    (hu : row.counterUid = some uid) (h : ∀ r ∈ rows, r.id < row.id) :
    Grows uid rows (rows ++ [row]) where
  kept r hr := ⟨r, List.mem_append_left _ hr, .refl r⟩
  known r hr := by
    rcases List.mem_append.1 hr with hr | hr
    · exact .inl ⟨r, hr, .refl r⟩
    · obtain rfl := List.mem_singleton.1 hr
      exact .inr ⟨hu, h⟩

theorem grows_update (uid unsetId counter : ℕ) (rows : List CounterRow) :
    Grows uid rows (updateUnset rows unsetId counter) where
  kept r hr := ⟨_, List.mem_map_of_mem hr, r.fill_keeps unsetId counter⟩
  known r hr := by
    obtain ⟨r₀, hr₀, rfl⟩ := List.mem_map.1 hr
    exact .inl ⟨r₀, hr₀, r₀.fill_keeps unsetId counter⟩

/-- The table itself, between any two transactions. -/
structure CounterTable (settings : CounterSettings) (clock : ℕ) (rows : List CounterRow) :
    Prop where
  ordered : rows.Pairwise fun row row' ↦ row.id < row'.id
  uids : ∀ row ∈ rows, ∀ row' ∈ rows, ∀ uid, row.counterUid = some uid →
    row'.counterUid = some uid → row = row'
  past : ∀ row ∈ rows, row.createTime ≤ nowNaive clock
  chained : Chained settings rows

theorem CounterTable.eq_of_id {clock : ℕ} {rows : List CounterRow}
    (h : CounterTable settings clock rows) {row row' : CounterRow} (hr : row ∈ rows)
    (hr' : row' ∈ rows) (hid : row.id = row'.id) : row = row' := by
  have hnodup : (rows.map (·.id)).Nodup := by
    apply List.pairwise_map.2
    exact h.ordered.imp fun hlt ↦ Nat.ne_of_lt hlt
  exact List.inj_on_of_nodup_map hnodup hr hr' hid

def Unowned (rows : List CounterRow) (uid : ℕ) : Prop := ∀ row ∈ rows, row.counterUid ≠ some uid

def Owned (rows : List CounterRow) (uid counterId : ℕ) : Prop :=
  ∃ row ∈ rows, row.id = counterId ∧ row.counterUid = some uid

/-- The date condition of a call picks, up to its own row, the rows its counter has to differ
from. -/
def Scoped (settings : CounterSettings) (rows : List CounterRow) (uid counterId : ℕ)
    (midnight : Option ℕ) : Prop :=
  ∃ own ∈ rows, own.id = counterId ∧ own.counterUid = some uid ∧
    ∀ row ∈ rows, row.id ≤ counterId → (row.meets midnight = true ↔ Together settings row own)

/-- The ids still to be filled by a call hold every unset row that counts for it. -/
structure Pending (rows : List CounterRow) (counterId : ℕ) (midnight : Option ℕ)
    (unsetIds : List ℕ) : Prop where
  ordered : unsetIds.Pairwise (· < ·)
  within : ∀ id ∈ unsetIds, id ≤ counterId
  found : ∀ id ∈ unsetIds, ∃ row ∈ rows, row.id = id ∧ row.meets midnight = true
  complete : ∀ row ∈ rows, row.id ≤ counterId → row.meets midnight = true →
    row.counter = 0 → row.id ∈ unsetIds

/-- A counter that exceeds those of all earlier rows that count. -/
def Above (rows : List CounterRow) (midnight : Option ℕ) (unsetId counter : ℕ) : Prop :=
  0 < counter ∧ ∀ row ∈ rows, row.id < unsetId → row.meets midnight = true →
    row.counter ≠ 0 ∧ row.counter < counter

def Held (settings : CounterSettings) (clock : ℕ) (rows : List CounterRow) (uid : ℕ) :
    Phase → Prop
  | .start => Unowned rows uid
  | .refused => settings.offset uid = 0
  | .stamped createTime => Unowned rows uid ∧ createTime ≤ nowNaive clock
  | .inserted => ∃ counterId, Owned rows uid counterId
  | .located counterId => Owned rows uid counterId
  | .bounded counterId midnight => Scoped settings rows uid counterId midnight
  | .filling counterId midnight unsetIds _ =>
    Scoped settings rows uid counterId midnight ∧ Pending rows counterId midnight unsetIds
  | .loaded counterId midnight unsetId unsetIds counter =>
    Scoped settings rows uid counterId midnight ∧
      Pending rows counterId midnight (unsetId :: unsetIds) ∧ Above rows midnight unsetId counter
  | .returned counter => 0 < counter ∧
      ∃ row ∈ rows, row.counterUid = some uid ∧ row.counter = counter
  | .vanished => False

theorem Grows.owned {uid uid' counterId : ℕ} {rows rows' : List CounterRow}
    (hg : Grows uid' rows rows') (h : Owned rows uid counterId) : Owned rows' uid counterId := by
  obtain ⟨row, hr, hid, hu⟩ := h
  obtain ⟨row', hr', hk⟩ := hg.kept row hr
  exact ⟨row', hr', hk.id.trans hid, hk.uid.trans hu⟩

/-- A row no newer than some known row is a known row. -/
theorem Grows.of_le {uid : ℕ} {rows rows' : List CounterRow} (hg : Grows uid rows rows')
    {own row' : CounterRow} (ho : own ∈ rows) (hr' : row' ∈ rows') (hle : row'.id ≤ own.id) :
    ∃ row ∈ rows, row.Keeps row' := by
  rcases hg.known row' hr' with hk | ⟨_, hnew⟩
  · exact hk
  · have := hnew own ho
    omega

theorem Grows.scoped {uid uid' counterId : ℕ} {midnight : Option ℕ} {rows rows' : List CounterRow}
    (hg : Grows uid' rows rows') (h : Scoped settings rows uid counterId midnight) :
    Scoped settings rows' uid counterId midnight := by
  obtain ⟨own, ho, hid, hu, hs⟩ := h
  obtain ⟨own', ho', hk⟩ := hg.kept own ho
  refine ⟨own', ho', hk.id.trans hid, hk.uid.trans hu, fun row' hr' hle ↦ ?_⟩
  obtain ⟨row, hr, hk'⟩ := hg.of_le ho hr' (hid ▸ hle)
  rw [hk'.meets, hs row hr (hk'.id ▸ hle)]
  constructor
  · intro h
    exact (hk'.together.symm.trans h).trans hk.together
  · intro h
    exact (hk'.together.trans h).trans hk.together.symm

theorem Grows.pending {uid uid' counterId : ℕ} {midnight : Option ℕ} {unsetIds : List ℕ}
    {rows rows' : List CounterRow} (hg : Grows uid' rows rows') (ho : Owned rows uid counterId)
    (h : Pending rows counterId midnight unsetIds) :
    Pending rows' counterId midnight unsetIds where
  ordered := h.ordered
  within := h.within
  found id hid := by
    obtain ⟨row, hr, rfl, hm⟩ := h.found id hid
    obtain ⟨row', hr', hk⟩ := hg.kept row hr
    exact ⟨row', hr', hk.id, (hk.meets midnight).trans hm⟩
  complete row' hr' hle hm hc := by
    obtain ⟨own, ho, hid, _⟩ := ho
    obtain ⟨row, hr, hk⟩ := hg.of_le ho hr' (hid ▸ hle)
    have h0 : row.counter = 0 := by
      by_contra hne
      exact hne ((hk.counter hne).symm.trans hc)
    rw [hk.id]
    exact h.complete row hr (hk.id ▸ hle) ((hk.meets midnight).symm.trans hm) h0

theorem Grows.above {uid unsetId counter : ℕ} {midnight : Option ℕ}
    {rows rows' : List CounterRow} (hg : Grows uid rows rows')
    (hf : ∃ row ∈ rows, row.id = unsetId) (h : Above rows midnight unsetId counter) :
    Above rows' midnight unsetId counter := by
  obtain ⟨own, ho, rfl⟩ := hf
  refine ⟨h.1, fun row' hr' hlt hm ↦ ?_⟩
  obtain ⟨row, hr, hk⟩ := hg.of_le ho hr' (Nat.le_of_lt hlt)
  obtain ⟨hne, hlt'⟩ := h.2 row hr (hk.id ▸ hlt) ((hk.meets midnight).symm.trans hm)
  rw [hk.counter hne]
  exact ⟨hne, hlt'⟩

theorem Scoped.owned {uid counterId : ℕ} {midnight : Option ℕ} {rows : List CounterRow}
    (h : Scoped settings rows uid counterId midnight) : Owned rows uid counterId := by
  obtain ⟨own, ho, hid, hu, _⟩ := h
  exact ⟨own, ho, hid, hu⟩

theorem Grows.unowned {uid uid' : ℕ} {rows rows' : List CounterRow} (hg : Grows uid' rows rows')
    (hne : uid ≠ uid') (h : Unowned rows uid) : Unowned rows' uid := by
  intro row' hr' hu
  rcases hg.known row' hr' with ⟨row, hr, hk⟩ | ⟨hu', _⟩
  · exact h row hr (hk.uid ▸ hu)
  · rw [hu'] at hu
    exact hne (Option.some.inj hu).symm

/-- What a call relies on survives the transactions of the others. -/
theorem Grows.held {uid uid' clock clock' : ℕ} {rows rows' : List CounterRow} {phase : Phase}
    (hg : Grows uid' rows rows') (hne : uid ≠ uid') (hc : clock ≤ clock')
    (h : Held settings clock rows uid phase) : Held settings clock' rows' uid phase := by
  cases phase with
  | start => exact hg.unowned hne h
  | refused => exact h
  | stamped createTime =>
    exact ⟨hg.unowned hne h.1, Nat.le_trans h.2 (Nat.div_le_div_right hc)⟩
  | inserted =>
    obtain ⟨counterId, ho⟩ := h
    exact ⟨counterId, hg.owned ho⟩
  | located counterId => exact hg.owned h
  | bounded counterId midnight => exact hg.scoped h
  | filling counterId midnight unsetIds setOffsetDone =>
    exact ⟨hg.scoped h.1, hg.pending h.1.owned h.2⟩
  | loaded counterId midnight unsetId unsetIds counter =>
    obtain ⟨hs, hp, ha⟩ := h
    obtain ⟨row, hr, hid, _⟩ := hp.found unsetId List.mem_cons_self
    exact ⟨hg.scoped hs, hg.pending hs.owned hp, hg.above ⟨row, hr, hid⟩ ha⟩
  | returned counter =>
    obtain ⟨hpos, row, hr, hu, hc⟩ := h
    obtain ⟨row', hr', hk⟩ := hg.kept row hr
    exact ⟨hpos, row', hr', hk.uid.trans hu, (hk.counter (by omega)).trans hc⟩
  | vanished => exact h

theorem CounterTable.wait {clock duration : ℕ} {rows : List CounterRow}
    (h : CounterTable settings clock rows) : CounterTable settings (clock + duration) rows where
  ordered := h.ordered
  uids := h.uids
  past row hr := Nat.le_trans (h.past row hr) (Nat.div_le_div_right (Nat.le_add_right _ _))
  chained := h.chained

theorem CounterTable.insert {clock uid id createTime : ℕ} {rows : List CounterRow}
    (h : CounterTable settings clock rows) (hfresh : ∀ row ∈ rows, row.id < id)
    (hu : Unowned rows uid) (ht : createTime ≤ nowNaive clock) :
    CounterTable settings clock (rows ++ [⟨id, 0, some uid, createTime⟩]) where
  ordered := by
    refine List.pairwise_append.2 ⟨h.ordered, List.pairwise_singleton _ _, fun row hr row' hr' ↦ ?_⟩
    obtain rfl := List.mem_singleton.1 hr'
    exact hfresh row hr
  uids row hr row' hr' uid' hu₁ hu₂ := by
    rw [List.mem_append, List.mem_singleton] at hr hr'
    rcases hr with hr | rfl <;> rcases hr' with hr' | rfl
    · exact h.uids row hr row' hr' uid' hu₁ hu₂
    · exact absurd (hu₁.trans hu₂.symm) (hu row hr)
    · exact absurd (hu₂.trans hu₁.symm) (hu row' hr')
    · rfl
  past row hr := by
    rw [List.mem_append, List.mem_singleton] at hr
    rcases hr with hr | rfl
    · exact h.past row hr
    · exact ht
  chained row hr row' hr' hlt htog hc := by
    rw [List.mem_append, List.mem_singleton] at hr hr'
    rcases hr' with hr' | rfl
    · rcases hr with hr | rfl
      · exact h.chained row hr row' hr' hlt htog hc
      · have := hfresh row' hr'
        simp only at hlt
        omega
    · exact absurd rfl hc

theorem CounterTable.update {clock unsetId counter : ℕ} {rows : List CounterRow}
    (h : CounterTable settings clock rows)
    (hprev : ∀ row ∈ rows, ∀ target ∈ rows, target.id = unsetId → row.id < unsetId →
      Together settings row target → row.counter ≠ 0 ∧ row.counter < counter) :
    CounterTable settings clock (updateUnset rows unsetId counter) where
  ordered := by
    refine List.pairwise_map.2 (h.ordered.imp fun {row row'} hlt ↦ ?_)
    rwa [(row.fill_keeps unsetId counter).id, (row'.fill_keeps unsetId counter).id]
  uids row hr row' hr' uid hu hu' := by
    obtain ⟨r, hmem, rfl⟩ := List.mem_map.1 hr
    obtain ⟨r', hmem', rfl⟩ := List.mem_map.1 hr'
    rw [(r.fill_keeps unsetId counter).uid] at hu
    rw [(r'.fill_keeps unsetId counter).uid] at hu'
    rw [h.uids r hmem r' hmem' uid hu hu']
  past row hr := by
    obtain ⟨r, hmem, rfl⟩ := List.mem_map.1 hr
    rw [(r.fill_keeps unsetId counter).createTime]
    exact h.past r hmem
  chained row hr row' hr' hlt htog hc := by
    obtain ⟨r, hmem, rfl⟩ := List.mem_map.1 hr
    obtain ⟨r', hmem', rfl⟩ := List.mem_map.1 hr'
    have hk := r.fill_keeps unsetId counter
    have hk' := r'.fill_keeps unsetId counter
    rw [hk.id, hk'.id] at hlt
    have htog' : Together settings r r' := (hk.together.trans htog).trans hk'.together.symm
    by_cases hset : r'.counter = 0
    · -- the later row can only have been set by this very update
      by_cases hid : r'.id = unsetId
      · have hfill : (r'.fill unsetId counter).counter = counter := by
          rw [CounterRow.fill, if_pos ⟨hid, hset⟩]
        rw [CounterRow.fill_counter r (by omega), hfill]
        exact hprev r hmem r' hmem' hid (by omega) htog'
      · rw [CounterRow.fill_counter r' hid] at hc
        exact absurd hset hc
    · obtain ⟨hne, hlt'⟩ := h.chained r hmem r' hmem' hlt htog' hset
      rw [hk.counter hne, hk'.counter hset]
      exact ⟨hne, hlt'⟩

theorem selectOwn_of_owned {clock uid counterId : ℕ} {rows : List CounterRow}
    (h : CounterTable settings clock rows) (ho : Owned rows uid counterId) :
    ∃ row ∈ rows, selectOwn rows uid = some row ∧ row.id = counterId ∧
      row.counterUid = some uid := by
  obtain ⟨own, hr, hid, hu⟩ := ho
  cases hs : selectOwn rows uid with
  | none =>
    have := List.find?_eq_none.1 hs own hr
    simp only [hu, decide_true, not_true_eq_false] at this
  | some row =>
    have hmem : row ∈ rows := List.mem_of_find?_eq_some hs
    have huid : row.counterUid = some uid := by
      have hfound := List.find?_some hs
      exact of_decide_eq_true hfound
    have := h.uids row hmem own hr uid huid hu
    exact ⟨row, hmem, rfl, this ▸ hid, huid⟩

theorem pending_selectUnset {clock counterId : ℕ} {midnight : Option ℕ} {rows : List CounterRow}
    (h : CounterTable settings clock rows) :
    Pending rows counterId midnight (selectUnset rows counterId midnight) where
  ordered := List.pairwise_map.2 (h.ordered.filter _)
  within id hid := by
    obtain ⟨row, hr, rfl⟩ := List.mem_map.1 hid
    have := (List.mem_filter.1 hr).2
    simp only [Bool.and_eq_true, decide_eq_true_eq] at this
    exact this.1.2
  found id hid := by
    obtain ⟨row, hr, rfl⟩ := List.mem_map.1 hid
    obtain ⟨hr, hp⟩ := List.mem_filter.1 hr
    simp only [Bool.and_eq_true] at hp
    exact ⟨row, hr, rfl, hp.2⟩
  complete row hr hle hm hc := by
    refine List.mem_map_of_mem (List.mem_filter.2 ⟨hr, ?_⟩)
    simp only [hc, hle, hm, decide_true, Bool.and_self]

theorem Pending.rest {unsetId counterId : ℕ} {midnight : Option ℕ} {unsetIds : List ℕ}
    {rows : List CounterRow} (h : Pending rows counterId midnight (unsetId :: unsetIds))
    (hset : ∀ row ∈ rows, row.id = unsetId → row.counter ≠ 0) :
    Pending rows counterId midnight unsetIds where
  ordered := (List.pairwise_cons.1 h.ordered).2
  within id hid := h.within id (List.mem_cons_of_mem _ hid)
  found id hid := h.found id (List.mem_cons_of_mem _ hid)
  complete row hr hle hm hc := by
    rcases List.mem_cons.1 (h.complete row hr hle hm hc) with hid | hid
    · exact absurd hc (hset row hr hid)
    · exact hid

/-- Rows before the first pending one are set. -/
theorem Pending.set_below {unsetId counterId : ℕ} {midnight : Option ℕ} {unsetIds : List ℕ}
    {rows : List CounterRow} (h : Pending rows counterId midnight (unsetId :: unsetIds))
    {row : CounterRow} (hr : row ∈ rows) (hlt : row.id < unsetId)
    (hm : row.meets midnight = true) : row.counter ≠ 0 := by
  intro hc
  have hle : unsetId ≤ counterId := h.within unsetId List.mem_cons_self
  have hmem := h.complete row hr (by omega) hm hc
  rcases List.mem_cons.1 hmem with hid | hid
  · omega
  · have := (List.pairwise_cons.1 h.ordered).1 _ hid
    omega

theorem selectPrevious_last {clock unsetId : ℕ} {midnight : Option ℕ} {rows : List CounterRow}
    (h : CounterTable settings clock rows) {row : CounterRow} (hr : row ∈ rows)
    (hlt : row.id < unsetId) (hm : row.meets midnight = true) :
    ∃ last ∈ rows, selectPrevious rows unsetId midnight = some last ∧ last.id < unsetId ∧
      last.meets midnight = true ∧ row.id ≤ last.id := by
  have hmem : row ∈ rows.filter fun r ↦ r.id < unsetId && r.meets midnight :=
    List.mem_filter.2 ⟨hr, by simp only [hlt, hm, decide_true, Bool.and_self]⟩
  have hsorted := h.ordered.filter fun r ↦ r.id < unsetId && r.meets midnight
  obtain ⟨last, hlast⟩ := Option.isSome_iff_exists.1
    (List.getLast?_isSome.2 (List.ne_nil_of_mem hmem))
  obtain ⟨hl, hp⟩ := List.mem_filter.1 (List.mem_of_getLast? hlast)
  simp only [Bool.and_eq_true, decide_eq_true_eq] at hp
  refine ⟨last, hl, hlast, hp.1, hp.2, ?_⟩
  rw [← List.dropLast_append_getLast? last hlast] at hmem hsorted
  rcases List.mem_append.1 hmem with hin | hin
  · exact Nat.le_of_lt
      ((List.pairwise_append.1 hsorted).2.2 row hin last (List.mem_singleton.2 rfl))
  · exact Nat.le_of_eq (congrArg _ (List.mem_singleton.1 hin))

theorem Scoped.together {uid counterId : ℕ} {midnight : Option ℕ} {rows : List CounterRow}
    (h : Scoped settings rows uid counterId midnight) {row row' : CounterRow} (hr : row ∈ rows)
    (hr' : row' ∈ rows) (hle : row.id ≤ counterId) (hle' : row'.id ≤ counterId)
    (hm : row'.meets midnight = true) :
    row.meets midnight = true ↔ Together settings row row' := by
  obtain ⟨own, _, _, _, hs⟩ := h
  have hown := (hs row' hr' hle').1 hm
  rw [hs row hr hle]
  constructor
  · intro h
    exact h.trans hown.symm
  · intro h
    exact h.trans hown

/-- The counter a call computes for its first pending row exceeds all earlier ones. -/
theorem above_newCounter {clock uid unsetId counterId : ℕ} {midnight : Option ℕ}
    {unsetIds : List ℕ} {setOffsetDone : Bool} {rows : List CounterRow}
    (h : CounterTable settings clock rows) (hoff : 1 ≤ settings.offset uid)
    (hs : Scoped settings rows uid counterId midnight)
    (hp : Pending rows counterId midnight (unsetId :: unsetIds)) :
    Above rows midnight unsetId
      (newCounter settings uid (previousCounter rows unsetId midnight) setOffsetDone) := by
  have hnew : previousCounter rows unsetId midnight <
      newCounter settings uid (previousCounter rows unsetId midnight) setOffsetDone := by
    cases setOffsetDone with
    | true => exact Nat.lt_succ_self _
    | false => exact Nat.lt_add_of_pos_right hoff
  refine ⟨by omega, fun row hr hlt hm ↦ ⟨hp.set_below hr hlt hm, ?_⟩⟩
  have hle : unsetId ≤ counterId := hp.within unsetId List.mem_cons_self
  obtain ⟨last, hl, hprev, hlt', hm', hle'⟩ := selectPrevious_last h hr hlt hm
  have hcounter : previousCounter rows unsetId midnight = last.counter := by
    rw [previousCounter, hprev, Option.map_some, Option.getD_some]
  rcases Nat.eq_or_lt_of_le hle' with heq | hlt''
  · rw [h.eq_of_id hr hl heq]
    omega
  · have htog := (hs.together hr hl (by omega) (by omega) hm').1 hm
    have := (h.chained row hr last hl hlt'' htog (hp.set_below hl hlt' hm')).2
    omega

def today (clock : ℕ) : ℕ := nowNaive clock / secondsPerDay

/-- A date-based call computes its midnight on the local day of its row. -/
def MidnightOnDay (settings : CounterSettings) (s : CounterState) : CounterAction → Prop
  | .advance uid => (s.phase uid matches .located _) = true → settings.isDateBased = true →
      ∀ row ∈ s.rows, row.counterUid = some uid → row.day = today s.clock
  | .wait _ | .insert _ _ => True

instance (settings : CounterSettings) (s : CounterState) (a : CounterAction) :
    Decidable (MidnightOnDay settings s a) :=
  match a with
  | .advance _ => inferInstanceAs (Decidable (_ → _ → _))
  | .wait _ | .insert _ _ => inferInstanceAs (Decidable True)

theorem scoped_dateParams {clock uid counterId : ℕ} {rows : List CounterRow}
    (h : CounterTable settings clock rows) (ho : Owned rows uid counterId)
    (hday : settings.isDateBased = true → ∀ row ∈ rows, row.counterUid = some uid →
      row.day = today clock) :
    Scoped settings rows uid counterId (dateParams settings.isDateBased clock) := by
  obtain ⟨own, ho, hid, hu⟩ := ho
  refine ⟨own, ho, hid, hu, fun row hr _ ↦ ?_⟩
  cases hb : settings.isDateBased with
  | false =>
    rw [dateParams, if_neg Bool.false_ne_true]
    exact iff_of_true rfl fun h ↦ absurd (hb.symm.trans h) Bool.false_ne_true
  | true =>
    have hown : own.day = today clock := hday hb own ho hu
    have hpast : row.day ≤ today clock := Nat.div_le_div_right (h.past row hr)
    have hmid : row.meets (some (todayMidnight clock)) = true ↔ today clock ≤ row.day := by
      have hpos : 0 < secondsPerDay := by decide
      exact decide_eq_true_iff.trans (Nat.le_div_iff_mul_le hpos).symm
    rw [dateParams, if_pos rfl, hmid]
    constructor
    · intro hle _
      omega
    · intro htog
      have := htog hb
      omega

/-- What holds between any two steps of the calls. -/
structure CounterInvariant (settings : CounterSettings) (s : CounterState) : Prop where
  table : CounterTable settings s.clock s.rows
  held : ∀ uid, Held settings s.clock s.rows uid (s.phase uid)
  offset : ∀ uid, s.phase uid = .start ∨ s.phase uid = .refused ∨ 1 ≤ settings.offset uid

theorem CounterStart.invariant {s : CounterState} (h : CounterStart settings s) :
    CounterInvariant settings s where
  table :=
    { ordered := h.ordered
      uids := fun row hr row' _ uid hu _ ↦ by
        rw [h.unowned row hr] at hu
        cases hu
      past := h.past
      chained := h.chained }
  held uid := by
    rw [h.phase uid]
    intro row hr hu
    rw [h.unowned row hr] at hu
    cases hu
  offset uid := .inl (h.phase uid)

/-- One transaction of one call, given what it does to the table and where it takes the call. -/
theorem CounterInvariant.move {s : CounterState} (h : CounterInvariant settings s) {uid : ℕ}
    {phase : Phase} {rows : List CounterRow} (hg : Grows uid s.rows rows)
    (ht : CounterTable settings s.clock rows) (hh : Held settings s.clock rows uid phase)
    (ho : phase = .start ∨ phase = .refused ∨ 1 ≤ settings.offset uid) :
    CounterInvariant settings (s.move uid phase rows) where
  table := ht
  held uid' := by
    by_cases heq : uid' = uid
    · subst heq
      simpa only [CounterState.move, Function.update_self] using hh
    · simp only [CounterState.move, Function.update_of_ne heq]
      exact hg.held heq (Nat.le_refl _) (h.held uid')
  offset uid' := by
    by_cases heq : uid' = uid
    · subst heq
      simpa only [CounterState.move, Function.update_self] using ho
    · simp only [CounterState.move, Function.update_of_ne heq]
      exact h.offset uid'

theorem CounterInvariant.insert {s : CounterState} (h : CounterInvariant settings s)
    {uid id createTime : ℕ} (hp : s.phase uid = .stamped createTime)
    (hfresh : ∀ row ∈ s.rows, row.id < id) :
    CounterInvariant settings
      (s.move uid .inserted (s.rows ++ [⟨id, 0, some uid, createTime⟩])) := by
  have hheld := h.held uid
  rw [hp] at hheld
  have hoff : 1 ≤ settings.offset uid := by
    rcases h.offset uid with ho | ho | ho
    · rw [hp] at ho; cases ho
    · rw [hp] at ho; cases ho
    · exact ho
  have howned : Owned (s.rows ++ [⟨id, 0, some uid, createTime⟩]) uid id :=
    ⟨_, List.mem_append_right _ List.mem_cons_self, rfl, rfl⟩
  exact h.move (grows_insert rfl hfresh) (h.table.insert hfresh hheld.1 hheld.2)
    ⟨id, howned⟩ (.inr (.inr hoff))

end Tiqora.Znuny
