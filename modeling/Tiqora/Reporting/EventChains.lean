import Mathlib
import Tiqora.Foundation.Sorting
import Tiqora.Reporting.HistoryEvents

namespace Tiqora.Reporting.HistoryEvents

open Foundation

variable {ticket : TicketRow} {stateTypes : StateTypes}

/-- Ids are unique, and the times of the ticket's own rows do not decrease with the id nor come
before the creation of the ticket. -/
structure Chronicle (ticket : TicketRow) (history : List HistoryRow) : Prop where
  unique : (history.map (·.id)).Nodup
  ordered : ∀ r ∈ ownRows history, ∀ r' ∈ ownRows history, r.id ≤ r'.id → r.createTime ≤ r'.createTime
  created : ∀ r ∈ ownRows history, ticket.createTime ≤ r.createTime

theorem mem_of_ownRows {history : List HistoryRow} {r : HistoryRow} (h : r ∈ ownRows history) :
    r ∈ history :=
  List.mem_of_mem_filter (List.mem_mergeSort.1 h)

def HistoryRow.Earlier (r r' : HistoryRow) : Prop := r.id < r'.id ∧ r.createTime ≤ r'.createTime

theorem ownRows_earlier {history : List HistoryRow} (h : Chronicle ticket history) :
    (ownRows history).Pairwise HistoryRow.Earlier := by
  have hle : (ownRows history).Pairwise fun r r' ↦ r.id ≤ r'.id := by
    refine (List.pairwise_mergeSort ?_ ?_ _).imp of_decide_eq_true
    · intro a b c hab hbc
      exact decide_eq_true (Nat.le_trans (of_decide_eq_true hab) (of_decide_eq_true hbc))
    · intro a b
      rw [Bool.or_eq_true, decide_eq_true_eq, decide_eq_true_eq]
      exact Nat.le_total a.id b.id
  have hne : (ownRows history).Pairwise fun r r' ↦ r.id ≠ r'.id := by
    have hfilter : ((history.filter fun r ↦ !movedByMerge r).map (·.id)).Nodup :=
      (List.filter_sublist.map _).nodup h.unique
    have hsorted : ((ownRows history).map (·.id)).Nodup :=
      ((List.mergeSort_perm _ _).map _).nodup_iff.2 hfilter
    exact List.pairwise_map.1 hsorted
  refine (hle.and hne).imp_of_mem fun hr hr' hboth ↦ ?_
  exact ⟨Nat.lt_of_le_of_ne hboth.1 hboth.2, h.ordered _ hr _ hr' hboth.1⟩

/-- An event that stems from a row. -/
structure EventRow.OfRow (e : EventRow) (r : HistoryRow) : Prop where
  occurredAt : e.occurredAt = r.createTime
  historyId : e.historyId = some r.id
  articleId : e.articleId = none

theorem closeOrReopen_spec {oldType newType : Option (List Char)} {ev e : EventRow}
    (h : e ∈ closeOrReopen oldType newType ev) :
    (e.kind = .close ∨ e.kind = .reopen) ∧ e.occurredAt = ev.occurredAt ∧
      e.historyId = ev.historyId ∧ e.articleId = ev.articleId := by
  cases oldType with
  | none => exact absurd h List.not_mem_nil
  | some old =>
    cases newType with
    | none => exact absurd h List.not_mem_nil
    | some new =>
      simp only [closeOrReopen] at h
      split at h
      · rw [List.mem_singleton.1 h]
        exact ⟨.inl rfl, rfl, rfl, rfl⟩
      · split at h
        · rw [List.mem_singleton.1 h]
          exact ⟨.inr rfl, rfl, rfl, rfl⟩
        · exact absurd h List.not_mem_nil

theorem columnEvent_spec {prev : Column → ℤ} {r : HistoryRow} {column : Column} {e : EventRow}
    (h : e ∈ columnEvent ticket stateTypes prev r column) :
    e.OfRow r ∧ (e.kind = column.kind ∨ column = .state ∧ (e.kind = .close ∨ e.kind = .reopen)) := by
  rw [columnEvent] at h
  split at h
  · cases h
  · split at h
    · next hstate =>
      rcases List.mem_cons.1 h with rfl | hchange
      · exact ⟨⟨rfl, rfl, rfl⟩, .inl (hstate ▸ rfl)⟩
      · obtain ⟨hkind, hat, hid, harticle⟩ := closeOrReopen_spec hchange
        exact ⟨⟨hat, hid, harticle⟩, .inr ⟨hstate, hkind⟩⟩
    · rw [List.mem_singleton.1 h]
      exact ⟨⟨rfl, rfl, rfl⟩, .inl rfl⟩

/-- The kinds that come from the names of the rows. -/
def EventKind.named : EventKind → Bool
  | .service => true
  | .sla => true
  | .responsible => true
  | .merge => true
  | .processActivity => true
  | _ => false

theorem nameEvents_spec {lastResponsible : Option ℤ} {r : HistoryRow} {e : EventRow}
    (h : e ∈ (nameEvents ticket lastResponsible r).1) : e.OfRow r ∧ e.kind.named = true := by
  have hone : ∀ ev : EventRow, ev.OfRow r → ev.kind.named = true → e ∈ [ev] →
      e.OfRow r ∧ e.kind.named = true := by
    intro ev hrow hnamed hmem
    rw [List.mem_singleton.1 hmem]
    exact ⟨hrow, hnamed⟩
  rw [nameEvents] at h
  cases ht : r.historyType with
  | serviceUpdate =>
    simp only [ht] at h
    split at h
    · exact absurd h List.not_mem_nil
    · exact hone _ ⟨rfl, rfl, rfl⟩ rfl h
  | slaUpdate =>
    simp only [ht] at h
    split at h
    · exact absurd h List.not_mem_nil
    · exact hone _ ⟨rfl, rfl, rfl⟩ rfl h
  | responsibleUpdate =>
    simp only [ht] at h
    split at h
    · exact absurd h List.not_mem_nil
    · exact hone _ ⟨rfl, rfl, rfl⟩ rfl h
  | merged =>
    simp only [ht] at h
    split at h
    · exact absurd h List.not_mem_nil
    · exact hone _ ⟨rfl, rfl, rfl⟩ rfl h
  | ticketDynamicFieldUpdate =>
    simp only [ht] at h
    split at h
    · split at h
      · exact absurd h List.not_mem_nil
      · exact hone _ ⟨rfl, rfl, rfl⟩ rfl h
    · exact absurd h List.not_mem_nil
  | other =>
    simp only [ht] at h
    exact absurd h List.not_mem_nil

def EventRow.ofColumn (column : Column) (e : EventRow) : Bool := e.kind = column.kind

def EventRow.link (e : EventRow) : Option ℤ × Option ℤ := (e.fromId, e.toId)

theorem ofColumn_eq_false {e : EventRow} {column : Column} (h : e.kind ≠ column.kind) :
    e.ofColumn column = false := decide_eq_false h

theorem isChange_iff {e : EventRow} : e.isChange = true ↔ e.kind = .close ∨ e.kind = .reopen := by
  rw [EventRow.isChange, Bool.or_eq_true, decide_eq_true_eq, decide_eq_true_eq]

theorem Column.kind_injective {c column : Column} (h : c.kind = column.kind) : c = column := by
  cases c <;> cases column <;> first | rfl | nomatch h

theorem kind_ne_of_change {k : EventKind} (h : k = .close ∨ k = .reopen) (column : Column) :
    k ≠ column.kind := by
  rcases h with rfl | rfl <;> cases column <;> nofun

theorem kind_ne_of_named {k : EventKind} (h : k.named = true) (column : Column) :
    k ≠ column.kind := by
  rintro rfl
  cases column <;> exact Bool.false_ne_true h

theorem not_change_of_named {k : EventKind} (h : k.named = true) : ¬(k = .close ∨ k = .reopen) := by
  rintro (rfl | rfl) <;> exact Bool.false_ne_true h

/-- The kinds of `closeOrReopen`. -/
def changeKinds (oldType newType : Option (List Char)) : List EventKind :=
  (closeOrReopen oldType newType
    { ticketId := 0, kind := .state, occurredAt := 0, queueId := 0 }).map (·.kind)

theorem closeOrReopen_kinds (oldType newType : Option (List Char)) (ev : EventRow) :
    (closeOrReopen oldType newType ev).map (·.kind) = changeKinds oldType newType := by
  cases oldType with
  | none => rfl
  | some old =>
    cases newType with
    | none => rfl
    | some new =>
      simp only [changeKinds, closeOrReopen]
      split
      · rfl
      · split <;> rfl

theorem changeKinds_self (stateType : Option (List Char)) : changeKinds stateType stateType = [] := by
  cases stateType with
  | none => rfl
  | some old =>
    simp only [changeKinds, closeOrReopen]
    rw [if_neg fun h ↦ h.2 h.1, if_neg fun h ↦ h.2 h.1]
    rfl

theorem filter_closeOrReopen_column (oldType newType : Option (List Char)) (ev : EventRow)
    (column : Column) : (closeOrReopen oldType newType ev).filter (·.ofColumn column) = [] := by
  refine List.filter_eq_nil_iff.2 fun e he ↦ ?_
  rw [ofColumn_eq_false (kind_ne_of_change (closeOrReopen_spec he).1 column)]
  exact Bool.false_ne_true

theorem filter_columnEvent_ne {prev : Column → ℤ} {r : HistoryRow} {c column : Column}
    (hne : c ≠ column) :
    (columnEvent ticket stateTypes prev r c).filter (·.ofColumn column) = [] := by
  refine List.filter_eq_nil_iff.2 fun e he ↦ ?_
  rw [ofColumn_eq_false]
  · exact Bool.false_ne_true
  · rcases (columnEvent_spec he).2 with hkind | ⟨_, hchange⟩
    · rw [hkind]
      exact fun h ↦ hne (Column.kind_injective h)
    · exact kind_ne_of_change hchange column

theorem links_columnEvent (prev : Column → ℤ) (r : HistoryRow) (column : Column) :
    ((columnEvent ticket stateTypes prev r column).filter (·.ofColumn column)).map (·.link) =
      if r.column column = prev column then []
      else [(some (prev column), some (r.column column))] := by
  rw [columnEvent]
  split
  · rfl
  · split
    · next hstate =>
      subst hstate
      rw [List.filter_cons_of_pos (by rfl), filter_closeOrReopen_column]
      rfl
    · have hself : (changeEvent ticket prev r column).ofColumn column = true := decide_eq_true rfl
      rw [List.filter_cons_of_pos hself]
      rfl

theorem links_columnEvents (prev : Column → ℤ) (r : HistoryRow) (column : Column) :
    ((columnEvents ticket stateTypes prev r).filter (·.ofColumn column)).map (·.link) =
      if r.column column = prev column then []
      else [(some (prev column), some (r.column column))] := by
  rw [← @links_columnEvent ticket stateTypes, columnEvents, Column.all]
  simp only [List.flatMap_cons, List.flatMap_nil, List.filter_append]
  cases column <;> simp only [filter_columnEvent_ne, ne_eq, reduceCtorEq, not_false_eq_true,
    List.filter_nil, List.append_nil, List.nil_append]

theorem filter_change_columnEvent {prev : Column → ℤ} {r : HistoryRow} {c : Column}
    (hne : c ≠ .state) : (columnEvent ticket stateTypes prev r c).filter (·.isChange) = [] := by
  refine List.filter_eq_nil_iff.2 fun e he hchange ↦ ?_
  rcases (columnEvent_spec he).2 with hkind | ⟨hstate, _⟩
  · rw [isChange_iff] at hchange
    exact kind_ne_of_change hchange c hkind
  · exact hne hstate

theorem kinds_columnEvents (prev : Column → ℤ) (r : HistoryRow) :
    ((columnEvents ticket stateTypes prev r).filter (·.isChange)).map (·.kind) =
      changeKinds (stateTypes (prev .state)) (stateTypes (r.column .state)) := by
  have hstate : ((columnEvent ticket stateTypes prev r .state).filter (·.isChange)).map (·.kind) =
      changeKinds (stateTypes (prev .state)) (stateTypes (r.column .state)) := by
    rw [columnEvent]
    split
    · next hsame =>
      rw [hsame, changeKinds_self]
      rfl
    · have hall : ∀ e ∈ closeOrReopen (stateTypes (prev .state)) (stateTypes (r.column .state))
          (stateEvent ticket stateTypes prev r), e.isChange = true := fun e he ↦
        isChange_iff.2 (closeOrReopen_spec he).1
      rw [if_pos rfl, List.filter_cons_of_neg Bool.false_ne_true, List.filter_eq_self.2 hall,
        closeOrReopen_kinds]
  rw [← hstate, columnEvents, Column.all]
  simp only [List.flatMap_cons, List.flatMap_nil, List.filter_append, filter_change_columnEvent,
    ne_eq, reduceCtorEq, not_false_eq_true, List.append_nil, List.nil_append]

theorem filter_nameEvents {lastResponsible : Option ℤ} {r : HistoryRow} {p : EventRow → Bool}
    (hp : ∀ e, e.kind.named = true → p e = false) :
    (nameEvents ticket lastResponsible r).1.filter p = [] := by
  refine List.filter_eq_nil_iff.2 fun e he ↦ ?_
  rw [hp e (nameEvents_spec he).2]
  exact Bool.false_ne_true

theorem named_not_ofColumn (column : Column) (e : EventRow) (h : e.kind.named = true) :
    e.ofColumn column = false :=
  ofColumn_eq_false (kind_ne_of_named h column)

theorem named_not_isChange (e : EventRow) (h : e.kind.named = true) : e.isChange = false := by
  rw [← Bool.not_eq_true, isChange_iff]
  exact not_change_of_named h

theorem rowEvents_ofRow {first : Bool} {prev : Column → ℤ} {lastResponsible : Option ℤ}
    {rows : List HistoryRow} {e : EventRow}
    (h : e ∈ rowEvents ticket stateTypes first prev lastResponsible rows) :
    ∃ r ∈ rows, e.OfRow r := by
  induction rows generalizing first prev lastResponsible with
  | nil => exact absurd h List.not_mem_nil
  | cons r rows ih =>
    rw [rowEvents, List.mem_append, List.mem_append] at h
    rcases h with (hcolumn | hname) | hrest
    · split at hcolumn
      · exact absurd hcolumn List.not_mem_nil
      · obtain ⟨column, _, he⟩ := List.mem_flatMap.1 hcolumn
        exact ⟨r, List.mem_cons_self, (columnEvent_spec he).1⟩
    · exact ⟨r, List.mem_cons_self, (nameEvents_spec hname).1⟩
    · obtain ⟨r', hr', he⟩ := ih hrest
      exact ⟨r', List.mem_cons_of_mem r hr', he⟩

theorem sortKey_le_of_earlier {r r' : HistoryRow} {e e' : EventRow} (h : r.Earlier r')
    (he : e.OfRow r) (he' : e'.OfRow r') : e.sortKey ≤ e'.sortKey := by
  rw [EventRow.sortKey, EventRow.sortKey, he.occurredAt, he'.occurredAt, he.historyId, he'.historyId,
    Prod.Lex.toLex_le_toLex, Prod.Lex.toLex_le_toLex]
  rcases Int.lt_or_eq_of_le h.2 with hlt | heq
  · exact .inl hlt
  · exact .inr ⟨heq, .inl h.1⟩

/-- The events of one selection stand in their order where each row has at most one of them. -/
theorem rowEvents_pairwise {p : EventRow → Bool} (hnamed : ∀ e, e.kind.named = true → p e = false)
    (hone : ∀ prev r, ((columnEvents ticket stateTypes prev r).filter p).length ≤ 1)
    {rows : List HistoryRow} (hrows : rows.Pairwise HistoryRow.Earlier) (first : Bool)
    (prev : Column → ℤ) (lastResponsible : Option ℤ) :
    ((rowEvents ticket stateTypes first prev lastResponsible rows).filter p).Pairwise
      fun e e' ↦ e.sortKey ≤ e'.sortKey := by
  induction rows generalizing first prev lastResponsible with
  | nil => exact .nil
  | cons r rows ih =>
    obtain ⟨hearlier, hrest⟩ := List.pairwise_cons.1 hrows
    rw [rowEvents, List.filter_append, List.filter_append, filter_nameEvents hnamed, List.append_nil]
    refine List.pairwise_append.2 ⟨?_, ih hrest _ _ _, fun e he e' he' ↦ ?_⟩
    · split
      · exact .nil
      · rcases hevents : (columnEvents ticket stateTypes prev r).filter p with _ | ⟨e, _ | ⟨e', es⟩⟩
        · exact .nil
        · exact List.pairwise_singleton _ e
        · have hlen := hone prev r
          rw [hevents, List.length_cons, List.length_cons] at hlen
          omega
    · obtain ⟨r', hr', hrow'⟩ := rowEvents_ofRow (List.mem_filter.1 he').1
      have hrow : e.OfRow r := by
        have hmem := (List.mem_filter.1 he).1
        split at hmem
        · exact absurd hmem List.not_mem_nil
        · obtain ⟨column, _, hcolumn⟩ := List.mem_flatMap.1 hmem
          exact (columnEvent_spec hcolumn).1
      exact sortKey_le_of_earlier (hearlier r' hr') hrow hrow'

/-- The changes of a value from row to row. -/
def links : ℤ → List ℤ → List (Option ℤ × Option ℤ)
  | _, [] => []
  | prev, v :: vs => (if v = prev then [] else [(some prev, some v)]) ++ links v vs

theorem rowEvents_links (column : Column) (prev : Column → ℤ) (lastResponsible : Option ℤ)
    (rows : List HistoryRow) :
    ((rowEvents ticket stateTypes false prev lastResponsible rows).filter (·.ofColumn column)).map
        (·.link) =
      links (prev column) (rows.map (·.column column)) := by
  induction rows generalizing prev lastResponsible with
  | nil => rfl
  | cons r rows ih =>
    rw [rowEvents, if_neg Bool.false_ne_true, List.filter_append, List.filter_append,
      filter_nameEvents (named_not_ofColumn column), List.append_nil, List.map_append,
      links_columnEvents, ih, List.map_cons, links]

def toggle (wasClosed closed : Bool) : List EventKind :=
  if closed = wasClosed then [] else [if closed then .close else .reopen]

/-- The closes and reopens of a ticket that is closed or not from row to row. -/
def toggles : Bool → List Bool → List EventKind
  | _, [] => []
  | wasClosed, closed :: rest => toggle wasClosed closed ++ toggles closed rest

def StateTypes.closed (stateTypes : StateTypes) (state : ℤ) : Bool :=
  stateTypes state = some closedStateType

theorem changeKinds_eq_toggle {old new : ℤ} (hold : (stateTypes old).isSome = true)
    (hnew : (stateTypes new).isSome = true) :
    changeKinds (stateTypes old) (stateTypes new) =
      toggle (stateTypes.closed old) (stateTypes.closed new) := by
  obtain ⟨oldType, hold⟩ := Option.isSome_iff_exists.1 hold
  obtain ⟨newType, hnew⟩ := Option.isSome_iff_exists.1 hnew
  by_cases ho : oldType = closedStateType <;> by_cases hn : newType = closedStateType <;>
    simp [toggle, StateTypes.closed, changeKinds, closeOrReopen, hold, hnew, ho, hn]

theorem rowEvents_kinds (prev : Column → ℤ) (lastResponsible : Option ℤ) {rows : List HistoryRow}
    (hprev : (stateTypes (prev .state)).isSome = true)
    (hrows : ∀ r ∈ rows, (stateTypes r.stateId).isSome = true) :
    ((rowEvents ticket stateTypes false prev lastResponsible rows).filter (·.isChange)).map
        (·.kind) =
      toggles (stateTypes.closed (prev .state)) (rows.map fun r ↦ stateTypes.closed r.stateId) := by
  induction rows generalizing prev lastResponsible with
  | nil => rfl
  | cons r rows ih =>
    have hr : (stateTypes (r.column .state)).isSome = true := hrows r List.mem_cons_self
    rw [rowEvents, if_neg Bool.false_ne_true, List.filter_append, List.filter_append,
      filter_nameEvents named_not_isChange, List.append_nil, List.map_append, kinds_columnEvents,
      changeKinds_eq_toggle hprev hr,
      ih r.column _ hr fun r' hr' ↦ hrows r' (List.mem_cons_of_mem r hr'), List.map_cons, toggles]
    rfl

theorem toggles_self (closed : Bool) (rest : List Bool) :
    toggles closed (closed :: rest) = toggles closed rest := by
  rw [toggles, toggle, if_pos rfl, List.nil_append]

theorem toggles_alternate (wasClosed : Bool) (rest : List Bool) :
    (∀ k ∈ (toggles wasClosed rest).head?, k = if wasClosed then .reopen else .close) ∧
      (toggles wasClosed rest).IsChain (· ≠ ·) := by
  induction rest generalizing wasClosed with
  | nil => exact ⟨nofun, .nil⟩
  | cons closed rest ih =>
    by_cases hsame : closed = wasClosed
    · rw [hsame, toggles_self]
      exact ih wasClosed
    · rw [toggles, toggle, if_neg hsame, List.singleton_append]
      obtain ⟨hhead, hchain⟩ := ih closed
      constructor
      · intro k hk
        cases hk
        cases closed <;> cases wasClosed <;> first | rfl | exact absurd rfl hsame
      · refine List.isChain_cons.2 ⟨fun k hk ↦ ?_, hchain⟩
        rw [hhead k hk]
        cases closed <;> nofun

theorem toggles_count (wasClosed : Bool) (rest : List Bool) :
    (toggles wasClosed rest).count .close + wasClosed.toNat =
      (toggles wasClosed rest).count .reopen + (rest.getLast?.getD wasClosed).toNat := by
  induction rest generalizing wasClosed with
  | nil => rfl
  | cons closed rest ih =>
    have hlast : (closed :: rest).getLast?.getD wasClosed = rest.getLast?.getD closed := by
      rw [List.getLast?_cons, Option.getD_some]
    have hih := ih closed
    rw [hlast, toggles, List.count_append, List.count_append]
    cases closed <;> cases wasClosed <;> simp [toggle] at * <;> omega

variable {base : Column → ℤ} {rows : List HistoryRow}

theorem createEvents_column (column : Column) :
    (createEvents ticket stateTypes base).filter (·.ofColumn column) = [] := by
  refine List.filter_eq_nil_iff.2 fun e he ↦ ?_
  have hkind : e.kind = .create ∨ e.kind = .close := by
    rw [createEvents] at he
    rcases List.mem_cons.1 he with rfl | hclose
    · exact .inl rfl
    · split at hclose
      · rw [List.mem_singleton.1 hclose]
        exact .inr rfl
      · exact absurd hclose List.not_mem_nil
  rw [ofColumn_eq_false]
  · exact Bool.false_ne_true
  · rcases hkind with hcreate | hclose
    · rw [hcreate]
      cases column <;> nofun
    · exact kind_ne_of_change (.inl hclose) column

theorem createEvents_changes :
    (createEvents ticket stateTypes base).filter (·.isChange) =
      if stateTypes.closed (base .state) then
        [{ ticketId := ticket.id
           kind := .close
           occurredAt := ticket.createTime
           queueId := base .queue
           actorUserId := some ticket.createBy
           toId := some (base .state)
           toValue := stateTypes (base .state) }]
      else [] := by
  rw [createEvents, List.filter_cons_of_neg Bool.false_ne_true, StateTypes.closed]
  by_cases h : stateTypes (base .state) = some closedStateType
  · rw [if_pos h, if_pos (decide_eq_true h)]
    rfl
  · rw [if_neg h, if_neg (by rw [decide_eq_false h]; exact Bool.false_ne_true)]
    rfl

theorem articleEvents_filter {articles : List ArticleRow} {baseQueue : ℤ} {p : EventRow → Bool}
    (hp : ∀ e, e.kind = .reply ∨ e.kind = .note ∨ e.kind = .customerMessage → p e = false) :
    (articleEvents ticket baseQueue rows articles).filter p = [] := by
  refine List.filter_eq_nil_iff.2 fun e he ↦ ?_
  rw [hp e]
  · exact Bool.false_ne_true
  · obtain ⟨article, _, hevent⟩ := List.mem_filterMap.1 he
    obtain ⟨kind, hkind, rfl⟩ := Option.map_eq_some_iff.1 hevent
    rw [articleKind] at hkind
    cases hs : article.senderType with
    | agent =>
      rw [hs] at hkind
      cases hkind
      cases article.visible
      · exact .inr (.inl rfl)
      · exact .inl rfl
    | customer =>
      rw [hs] at hkind
      cases hkind
      exact .inr (.inr rfl)
    | system =>
      rw [hs] at hkind
      cases hkind

theorem article_not_ofColumn (column : Column) (e : EventRow)
    (h : e.kind = .reply ∨ e.kind = .note ∨ e.kind = .customerMessage) :
    e.ofColumn column = false := by
  refine ofColumn_eq_false ?_
  rcases h with h | h | h <;> rw [h] <;> cases column <;> nofun

theorem article_not_isChange (e : EventRow)
    (h : e.kind = .reply ∨ e.kind = .note ∨ e.kind = .customerMessage) : e.isChange = false := by
  rw [← Bool.not_eq_true, isChange_iff]
  rcases h with h | h | h <;> rw [h] <;> rintro (h | h) <;> cases h

variable {history : List HistoryRow} {articles : List ArticleRow}

theorem appendedEvents_links (column : Column) :
    ((appendedEvents ticket history articles stateTypes).filter (·.ofColumn column)).map (·.link) =
      links (baseline ticket (ownRows history) column)
        ((ownRows history).map (·.column column)) := by
  rw [appendedEvents, List.filter_append, List.filter_append, createEvents_column,
    articleEvents_filter (article_not_ofColumn column), List.nil_append, List.append_nil]
  cases ownRows history with
  | nil => rfl
  | cons r rows =>
    rw [rowEvents, if_pos rfl, List.nil_append, List.filter_append,
      filter_nameEvents (named_not_ofColumn column), List.nil_append, rowEvents_links, List.map_cons,
      links, baseline, if_pos rfl, List.nil_append]

theorem appendedEvents_kinds (hknown : ∀ r ∈ ownRows history, (stateTypes r.stateId).isSome = true) :
    ((appendedEvents ticket history articles stateTypes).filter (·.isChange)).map (·.kind) =
      toggles false (stateTypes.closed (baseline ticket (ownRows history) .state) ::
        (ownRows history).map fun r ↦ stateTypes.closed r.stateId) := by
  rw [appendedEvents, List.filter_append, List.filter_append, articleEvents_filter article_not_isChange,
    List.append_nil, List.map_append, createEvents_changes, toggles]
  congr 1
  · rw [toggle]
    cases stateTypes.closed (baseline ticket (ownRows history) .state) <;> rfl
  · cases hrows : ownRows history with
    | nil => rfl
    | cons r rows =>
      rw [hrows] at hknown
      rw [rowEvents, if_pos rfl, List.nil_append, List.filter_append,
        filter_nameEvents named_not_isChange, List.nil_append,
        rowEvents_kinds _ _ (hknown r List.mem_cons_self)
          fun r' hr' ↦ hknown r' (List.mem_cons_of_mem r hr'), List.map_cons, baseline]
      exact (toggles_self _ _).symm

theorem sortKey_trans (e e' e'' : EventRow) (h : decide (e.sortKey ≤ e'.sortKey) = true)
    (h' : decide (e'.sortKey ≤ e''.sortKey) = true) : decide (e.sortKey ≤ e''.sortKey) = true :=
  decide_eq_true (le_trans (of_decide_eq_true h) (of_decide_eq_true h'))

theorem sortKey_total (e e' : EventRow) :
    (decide (e.sortKey ≤ e'.sortKey) || decide (e'.sortKey ≤ e.sortKey)) = true := by
  rw [Bool.or_eq_true, decide_eq_true_eq, decide_eq_true_eq]
  exact le_total e.sortKey e'.sortKey

theorem columnEvents_one (column : Column) (prev : Column → ℤ) (r : HistoryRow) :
    ((columnEvents ticket stateTypes prev r).filter (·.ofColumn column)).length ≤ 1 := by
  have hlen := congrArg List.length
    (@links_columnEvents ticket stateTypes prev r column)
  rw [List.length_map] at hlen
  rw [hlen]
  split
  · exact Nat.zero_le 1
  · exact Nat.le_refl 1

theorem changeKinds_length (oldType newType : Option (List Char)) :
    (changeKinds oldType newType).length ≤ 1 := by
  cases oldType with
  | none => exact Nat.zero_le 1
  | some old =>
    cases newType with
    | none => exact Nat.zero_le 1
    | some new =>
      simp only [changeKinds, closeOrReopen]
      split
      · exact Nat.le_refl 1
      · split
        · exact Nat.le_refl 1
        · exact Nat.zero_le 1

theorem columnEvents_change (prev : Column → ℤ) (r : HistoryRow) :
    ((columnEvents ticket stateTypes prev r).filter (·.isChange)).length ≤ 1 := by
  have hlen := congrArg List.length
    (@kinds_columnEvents ticket stateTypes prev r)
  rw [List.length_map] at hlen
  rw [hlen]
  exact changeKinds_length _ _

theorem appendedEvents_column_pairwise (h : Chronicle ticket history) (column : Column) :
    ((appendedEvents ticket history articles stateTypes).filter (·.ofColumn column)).Pairwise
      fun e e' ↦ decide (e.sortKey ≤ e'.sortKey) = true := by
  rw [appendedEvents, List.filter_append, List.filter_append, createEvents_column,
    articleEvents_filter (article_not_ofColumn column), List.nil_append, List.append_nil]
  exact (rowEvents_pairwise (named_not_ofColumn column) (columnEvents_one column)
    (ownRows_earlier h) _ _ _).imp decide_eq_true

theorem appendedEvents_change_pairwise (h : Chronicle ticket history) :
    ((appendedEvents ticket history articles stateTypes).filter (·.isChange)).Pairwise
      fun e e' ↦ decide (e.sortKey ≤ e'.sortKey) = true := by
  have hrows := @rowEvents_pairwise ticket stateTypes _ named_not_isChange
    columnEvents_change _ (ownRows_earlier h) true (baseline ticket (ownRows history)) none
  rw [appendedEvents, List.filter_append, List.filter_append, createEvents_changes,
    articleEvents_filter article_not_isChange, List.append_nil]
  split
  · refine List.pairwise_cons.2 ⟨fun e he ↦ decide_eq_true ?_, hrows.imp decide_eq_true⟩
    obtain ⟨hmem, hchange⟩ := List.mem_filter.1 he
    obtain ⟨r, hr, hrow⟩ := rowEvents_ofRow hmem
    have hkind : eventKinds.idxOf EventKind.close ≤ eventKinds.idxOf e.kind := by
      rcases isChange_iff.1 hchange with hk | hk
      · rw [hk]
      · rw [hk]
        decide
    rw [EventRow.sortKey, EventRow.sortKey, hrow.occurredAt, hrow.historyId, hrow.articleId,
      Prod.Lex.toLex_le_toLex, Prod.Lex.toLex_le_toLex, Prod.Lex.toLex_le_toLex]
    rcases Int.lt_or_eq_of_le (h.created r hr) with hlt | heq
    · exact .inl hlt
    · rcases Nat.eq_zero_or_pos r.id with hzero | hpos
      · exact .inr ⟨heq, .inr ⟨hzero.symm, .inr ⟨rfl, hkind⟩⟩⟩
      · exact .inr ⟨heq, .inl hpos⟩
  · exact hrows.imp decide_eq_true

theorem withDurations_filter_map {α : Type} {p : EventRow → Bool} {f : EventRow → α}
    (hp : ∀ e d, p { e with fromDurationSeconds := d } = p e)
    (hf : ∀ e d, f { e with fromDurationSeconds := d } = f e) (last : EventKind → ℤ)
    (events : List EventRow) :
    ((withDurations last events).filter p).map f = (events.filter p).map f := by
  induction events generalizing last with
  | nil => rfl
  | cons e events ih =>
    rw [withDurations]
    split
    · rw [List.filter_cons, List.filter_cons, hp]
      split
      · rw [List.map_cons, List.map_cons, hf, ih]
      · exact ih _
    · rw [List.filter_cons, List.filter_cons]
      split
      · rw [List.map_cons, List.map_cons, ih]
      · exact ih last

def EventRow.ofKind (kind : EventKind) (e : EventRow) : Bool := e.kind = kind

/-- The durations of the events of a kind add up to the time of the last of them. -/
theorem withDurations_sum {kind : EventKind} (htimed : kind.timed = true) (last : EventKind → ℤ)
    {events : List EventRow} (hsorted : events.Pairwise fun e e' ↦ e.occurredAt ≤ e'.occurredAt)
    (hlast : ∀ e ∈ events, e.kind = kind → last kind ≤ e.occurredAt) :
    (((withDurations last events).filter (EventRow.ofKind kind)).map
        (·.fromDurationSeconds.getD 0)).sum =
      (((events.filter (EventRow.ofKind kind)).map (·.occurredAt)).getLast?.getD (last kind)) -
        last kind := by
  induction events generalizing last with
  | nil => exact (Int.sub_self _).symm
  | cons e events ih =>
    obtain ⟨hfirst, hrest⟩ := List.pairwise_cons.1 hsorted
    by_cases hkind : e.kind = kind
    · subst hkind
      have hle := hlast e List.mem_cons_self rfl
      have hih := ih (Function.update last e.kind e.occurredAt) hrest fun e' he' _ ↦ by
        rw [Function.update_self]
        exact hfirst e' he'
      have hself : e.ofKind e.kind = true := decide_eq_true rfl
      have hself' : EventRow.ofKind e.kind
          { e with fromDurationSeconds := some (max 0 (e.occurredAt - last e.kind)) } = true :=
        decide_eq_true rfl
      rw [Function.update_self] at hih
      rw [withDurations, if_pos htimed, List.filter_cons_of_pos hself',
        List.filter_cons_of_pos hself, List.map_cons, List.map_cons, List.sum_cons, hih,
        List.getLast?_cons, Option.getD_some, Option.getD_some]
      omega
    · have hother : ¬e.ofKind kind = true := fun h ↦ hkind (of_decide_eq_true h)
      rw [List.filter_cons_of_neg hother, withDurations]
      split
      · have hother' : ¬EventRow.ofKind kind
            { e with fromDurationSeconds := some (max 0 (e.occurredAt - last e.kind)) } = true :=
          hother
        have hkeep : Function.update last e.kind e.occurredAt kind = last kind :=
          Function.update_of_ne (Ne.symm hkind) _ _
        rw [List.filter_cons_of_neg hother', ih _ hrest, hkeep]
        intro e' he' hk
        rw [hkeep]
        exact hlast e' (List.mem_cons_of_mem e he') hk
      · rw [List.filter_cons_of_neg hother]
        exact ih last hrest fun e' he' hk ↦ hlast e' (List.mem_cons_of_mem e he') hk

/-- Each change starts from where the one before it ended. -/
def Chained : Option ℤ → List (Option ℤ × Option ℤ) → Prop
  | _, [] => True
  | prev, link :: rest => link.1 = prev ∧ Chained link.2 rest

theorem links_chained (prev : ℤ) (values : List ℤ) : Chained (some prev) (links prev values) := by
  induction values generalizing prev with
  | nil => trivial
  | cons v values ih =>
    rw [links]
    split
    · next hsame =>
      rw [List.nil_append, hsame]
      exact ih prev
    · exact ⟨rfl, ih v⟩

theorem not_timed_create {e : EventRow} (h : e ∈ createEvents ticket stateTypes base) :
    e.kind.timed = false := by
  rw [createEvents] at h
  rcases List.mem_cons.1 h with rfl | hclose
  · rfl
  · split at hclose
    · rw [List.mem_singleton.1 hclose]
      rfl
    · exact absurd hclose List.not_mem_nil

theorem not_timed_article {baseQueue : ℤ} {e : EventRow}
    (h : e ∈ articleEvents ticket baseQueue rows articles) : e.kind.timed = false := by
  obtain ⟨article, _, hevent⟩ := List.mem_filterMap.1 h
  obtain ⟨kind, hkind, rfl⟩ := Option.map_eq_some_iff.1 hevent
  rw [articleKind] at hkind
  split at hkind
  · cases hkind
    cases article.visible <;> rfl
  · cases hkind
    rfl
  · cases hkind

theorem timed_after_creation (h : Chronicle ticket history) {e : EventRow}
    (he : e ∈ appendedEvents ticket history articles stateTypes) (htimed : e.kind.timed = true) :
    ticket.createTime ≤ e.occurredAt := by
  rcases List.mem_append.1 he with hleft | harticle
  · rcases List.mem_append.1 hleft with hcreate | hrow
    · rw [not_timed_create hcreate] at htimed
      cases htimed
    · obtain ⟨r, hr, hrow⟩ := rowEvents_ofRow hrow
      rw [hrow.occurredAt]
      exact h.created r hr
  · rw [not_timed_article harticle] at htimed
    cases htimed

theorem occurredAt_le_of_sortKey {e e' : EventRow} (h : e.sortKey ≤ e'.sortKey) :
    e.occurredAt ≤ e'.occurredAt := by
  rw [EventRow.sortKey, EventRow.sortKey, Prod.Lex.toLex_le_toLex] at h
  rcases h with hlt | ⟨heq, _⟩
  · exact Int.le_of_lt hlt
  · exact Int.le_of_eq heq

/-- What a report may rely on in the events of a ticket. -/
structure Consistent (ticket : TicketRow) (history : List HistoryRow) (stateTypes : StateTypes)
    (events : List EventRow) : Prop where
  first_close : ∀ k ∈ ((events.filter (·.isChange)).map (·.kind)).head?, k = .close
  alternate : ((events.filter (·.isChange)).map (·.kind)).IsChain (· ≠ ·)
  count : ((events.filter (·.isChange)).map (·.kind)).count .close =
    ((events.filter (·.isChange)).map (·.kind)).count .reopen +
      if stateTypes.closed ((ownRows history).getLast?.elim ticket.stateId (·.stateId)) then 1 else 0
  chained : ∀ column : Column, Chained (some (baseline ticket (ownRows history) column))
    ((events.filter (·.ofColumn column)).map (·.link))
  durations : ∀ kind : EventKind, kind.timed = true →
    ∀ last ∈ ((events.filter (EventRow.ofKind kind)).map (·.occurredAt)).getLast?,
      ((events.filter (EventRow.ofKind kind)).map (·.fromDurationSeconds.getD 0)).sum =
        last - ticket.createTime

theorem deriveEvents_kinds (h : Chronicle ticket history)
    (hknown : ∀ r ∈ ownRows history, (stateTypes r.stateId).isSome = true) :
    ((deriveEvents ticket history articles stateTypes).filter (·.isChange)).map (·.kind) =
      toggles false (stateTypes.closed (baseline ticket (ownRows history) .state) ::
        (ownRows history).map fun r ↦ stateTypes.closed r.stateId) := by
  rw [deriveEvents, withDurations_filter_map (fun _ _ ↦ rfl) (fun _ _ ↦ rfl),
    filter_mergeSort sortKey_trans sortKey_total (appendedEvents_change_pairwise h),
    appendedEvents_kinds hknown]

theorem closed_at_last (ticket : TicketRow) (stateTypes : StateTypes) (rows : List HistoryRow) :
    ((stateTypes.closed (baseline ticket rows .state) ::
      rows.map fun r ↦ stateTypes.closed r.stateId).getLast?.getD false) =
      stateTypes.closed (rows.getLast?.elim ticket.stateId (·.stateId)) := by
  rw [List.getLast?_cons, Option.getD_some, List.getLast?_map]
  cases hlast : rows.getLast? with
  | none =>
    rw [List.getLast?_eq_none_iff.1 hlast]
    rfl
  | some r => rfl

/-- The state types 1: new, 2: closed. -/
def sampleTypes : StateTypes := fun state ↦
  if state = 1 then some ['n', 'e', 'w'] else if state = 2 then some closedStateType else none

def sampleTicket (stateId : ℤ) : TicketRow where
  id := 7
  createTime := 100
  createBy := 1
  queueId := 3
  stateId := stateId
  priorityId := 3
  typeId := none
  userId := 1

def sampleRow (id : ℕ) (stateId createTime : ℤ) : HistoryRow where
  id := id
  historyType := .other
  name := []
  articleId := none
  queueId := 3
  stateId := stateId
  priorityId := 3
  ownerId := 1
  typeId := 0
  createTime := createTime
  createBy := 1
  changeTime := none

end Tiqora.Reporting.HistoryEvents
