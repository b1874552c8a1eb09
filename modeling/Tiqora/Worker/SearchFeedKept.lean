import Tiqora.Worker.SearchFeed

namespace Tiqora.Worker

open Foundation

variable {Content Doc : Type}

/-- The rows of a feed that the poll tick under way will read, and the watermark that it will
save. -/
def Poll.reach (isolation : Isolation) (rows : List Row) : Poll Content → Feed → Option (List Row × ℕ)
  | .started view maxHist, .history => some (sees isolation (some view) rows, maxHist)
  | .started view _, .article =>
    let seen := sees isolation (some view) rows
    some (seen, maxId .article seen)
  | .marked view maxHist _, .history => some (sees isolation (some view) rows, maxHist)
  | .marked view _ maxArt, .article => some (sees isolation (some view) rows, maxArt)
  | .historyRead view maxArt _, .article => some (sees isolation view rows, maxArt)
  | .historyRead .., .history => none
  | .idle, _ | .collected _, _ | .read .., _ => none

/-- The tickets that the tick has picked up. -/
def Poll.tickets : Poll Content → List ℕ
  | .historyRead _ _ tickets | .collected tickets | .read tickets _ => tickets
  | .idle | .started .. | .marked .. => []

/-- The tickets that the tick has read. -/
def Poll.seen : Poll Content → Option (Table ℕ Content)
  | .read _ seen => some seen
  | .idle | .started .. | .marked .. | .historyRead .. | .collected _ => none

def Drain.rows : Drain Content → List OutboxRow
  | .selected rows | .read rows _ | .written rows => rows
  | .idle => []

/-- The tickets of the tick that are still to be written. -/
def Drain.tickets : Drain Content → List ℕ
  | .selected rows | .read rows _ => drainTickets rows
  | .idle | .written _ => []

def Drain.seen : Drain Content → Option (Table ℕ Content)
  | .read _ seen => some seen
  | .idle | .selected _ | .written _ => none

variable (isolation : Isolation) (build : Content → Doc)

/-- A poll tick will pick up the ticket of the row: it is above the watermark, and the tick under
way reads it or saves a lower watermark. -/
def RowDue (s : SearchState Content Doc) (r : Row) : Prop :=
  s.marks.get r.feed < r.id ∧
    ∀ p ∈ s.poll.reach isolation s.rows r.feed, r ∈ p.1 ∨ p.2 < r.id

/-- The poll tick under way will write the committed ticket: it has picked it up, and has not read
it yet or has read what is committed. -/
def PollDue (s : SearchState Content Doc) (ticketId : ℕ) : Prop :=
  ticketId ∈ s.poll.tickets ∧
    ∀ seen ∈ s.poll.seen, (seen.find ticketId).map build = s.document build ticketId

/-- The same of the drain tick under way, or a row waits in the outbox. -/
def DrainDue (s : SearchState Content Doc) (ticketId : ℕ) : Prop :=
  (∃ o ∈ s.outbox, o.ticketId = ticketId ∧ o.processed = false ∧
      o.id ∉ s.drain.rows.map (·.id)) ∨
    ticketId ∈ s.drain.tickets ∧
      ∀ seen ∈ s.drain.seen, (seen.find ticketId).map build = s.document build ticketId

def FeedDue (s : SearchState Content Doc) (ticketId : ℕ) : Prop :=
  (∃ r ∈ s.rows, r.ticketId = ticketId ∧ RowDue isolation s r) ∨ PollDue build s ticketId

def Due (s : SearchState Content Doc) (ticketId : ℕ) : Prop :=
  FeedDue isolation build s ticketId ∨ DrainDue build s ticketId

/-- The step leaves no ticket behind: a transaction commits with a row above the watermark or an
outbox row for each ticket, a poll tick fails without a ticket that nothing else brings up to date,
and a write brings no older document of a ticket that is not due again. -/
def LeavesNone (s : SearchState Content Doc) : SearchAction Content → Prop
  | .commit transaction writes outbox => ∀ rows ∈ s.pending.find transaction, ∀ w ∈ writes,
      Due isolation build (s.committed transaction rows writes outbox) w.1
  | .pollFail => ∀ ticketId ∈ s.poll.tickets,
      s.index.find ticketId = s.document build ticketId ∨
        Due isolation build { s with poll := .idle } ticketId
  | .pollWrite => ∀ ticketId ∈ s.poll.tickets, ∀ seen ∈ s.poll.seen,
      (seen.find ticketId).map build = s.document build ticketId ∨
        Due isolation build { s with poll := .idle } ticketId
  | .drainWrite => ∀ ticketId ∈ s.drain.tickets, ∀ seen ∈ s.drain.seen,
      (seen.find ticketId).map build = s.document build ticketId ∨
        Due isolation build { s with drain := .written s.drain.rows } ticketId
  | _ => True

section Decidable

variable [DecidableEq Doc] (s : SearchState Content Doc) (ticketId : ℕ)

instance (r : Row) : Decidable (RowDue isolation s r) := inferInstanceAs (Decidable (_ ∧ _))

instance : Decidable (PollDue build s ticketId) := inferInstanceAs (Decidable (_ ∧ _))

instance : Decidable (DrainDue build s ticketId) := inferInstanceAs (Decidable (_ ∨ _))

instance : Decidable (FeedDue isolation build s ticketId) := inferInstanceAs (Decidable (_ ∨ _))

instance : Decidable (Due isolation build s ticketId) := inferInstanceAs (Decidable (_ ∨ _))

instance : (a : SearchAction Content) → Decidable (LeavesNone isolation build s a)
  | .commit transaction writes outbox => inferInstanceAs (Decidable
      (∀ rows ∈ s.pending.find transaction, ∀ w ∈ writes,
        Due isolation build (s.committed transaction rows writes outbox) w.1))
  | .pollFail => inferInstanceAs (Decidable (∀ _ ∈ _, _ ∨ _))
  | .pollWrite => inferInstanceAs (Decidable (∀ _ ∈ _, ∀ _ ∈ _, _ ∨ _))
  | .drainWrite => inferInstanceAs (Decidable (∀ _ ∈ _, ∀ _ ∈ _, _ ∨ _))
  | .insertRow .. | .rollback _ | .pollStart | .readMaxArticle | .readHistory | .readArticles
  | .pollReadTickets | .drainStart | .drainReadTickets | .drainMark | .drainFail =>
    inferInstanceAs (Decidable True)

end Decidable

variable {isolation build} {s t : SearchState Content Doc} {rows : List Row}
variable {view : Option (List Row)}

/-- Up to date or due. -/
def Kept (isolation : Isolation) (build : Content → Doc) (s : SearchState Content Doc)
    (ticketId : ℕ) : Prop :=
  s.index.find ticketId = s.document build ticketId ∨ Due isolation build s ticketId

/-- What a tick that began after the last commit has read. -/
def Clean (s : SearchState Content Doc) : Prop :=
  match s.poll with
  | .idle => True
  | .started view maxHist => view = s.rows ∧ ∀ r ∈ s.rows, r.feed = .history → r.id ≤ maxHist
  | .marked view maxHist maxArt => view = s.rows ∧
      (∀ r ∈ s.rows, r.feed = .history → r.id ≤ maxHist) ∧
        ∀ r ∈ s.rows, r.feed = .article → r.id ≤ maxArt
  | .historyRead view maxArt _ => (∀ v ∈ view, v = s.rows) ∧
      (∀ r ∈ s.rows, r.feed = .history → r.id ≤ s.marks.history) ∧
        ∀ r ∈ s.rows, r.feed = .article → r.id ≤ maxArt
  | .collected _ | .read .. => ∀ r ∈ s.rows, r.id ≤ s.marks.get r.feed

structure Following (isolation : Isolation) (build : Content → Doc) (s : SearchState Content Doc) :
    Prop where
  kept : ∀ ticketId ∈ s.written, Kept isolation build s ticketId
  ids : (s.outbox.map (·.id)).Nodup
  drain : ∀ o ∈ s.drain.rows, o ∈ s.outbox ∧ o.processed = false
  clean : s.clean = true → Clean s
  polled : s.polled = true → s.clean = true ∧ (∀ r ∈ s.rows, r.id ≤ s.marks.get r.feed) ∧
    s.poll.tickets = []
  drained : s.drained = true → (∀ o ∈ s.outbox, o.processed = true) ∧ s.drain = .idle

theorem le_maxId {feed : Feed} {r : Row} (hr : r ∈ rows) (hfeed : r.feed = feed) :
    r.id ≤ maxId feed rows := by
  have hfold : ∀ xs : List ℕ, ∀ x ∈ xs, x ≤ xs.foldr max 0 := by
    intro xs
    induction xs with
    | nil => exact nofun
    | cons y ys ih =>
      rw [List.forall_mem_cons]
      exact ⟨Nat.le_max_left _ _, fun x hx ↦ (ih x hx).trans (Nat.le_max_right _ _)⟩
  exact hfold _ _ (List.mem_map_of_mem (List.mem_filter.2 ⟨hr, decide_eq_true hfeed⟩))

theorem mem_touched {feed : Feed} {mark : ℕ} {r : Row} (hr : r ∈ rows) (hfeed : r.feed = feed)
    (hlt : mark < r.id) : r.ticketId ∈ touched feed mark rows :=
  List.mem_map_of_mem (List.mem_filter.2 ⟨hr, decide_eq_true ⟨hfeed, hlt⟩⟩)

theorem indexTickets_find {index : Table ℕ Doc} {tickets : List ℕ} {seen : Table ℕ Content}
    (ticketId : ℕ) : (indexTickets build index tickets seen).find ticketId =
      if ticketId ∈ tickets then (seen.find ticketId).map build else index.find ticketId := by
  induction tickets generalizing index with
  | nil => rfl
  | cons x xs ih =>
    rw [indexTickets, List.foldl_cons, ← indexTickets, ih]
    by_cases hmem : ticketId ∈ xs
    · rw [if_pos hmem, if_pos (List.mem_cons_of_mem x hmem)]
    · rw [if_neg hmem]
      by_cases heq : ticketId = x
      · rw [heq, Table.find_set_self, if_pos List.mem_cons_self]
      · rw [Table.find_set_of_ne heq, if_neg fun h ↦ (List.mem_cons.1 h).elim heq hmem]

theorem mem_sees (r : Row) (hr : r ∈ rows) (hview : ∀ v ∈ view, r ∈ v) :
    r ∈ sees isolation view rows := by
  cases isolation with
  | readCommitted => exact hr
  | snapshot =>
    cases view with
    | none => exact hr
    | some v => exact hview v rfl

theorem not_pollDue {ticketId : ℕ} (h : s.poll.tickets = []) : ¬ PollDue build s ticketId := by
  rintro ⟨hmem, -⟩
  rw [h] at hmem
  cases hmem

/-- A step of the poll tick that does not write. -/
theorem Kept.poll {ticketId : ℕ} {poll : Poll Content} {marks : Marks} {clean : Bool}
    (h : Kept isolation build s ticketId)
    (hfeed : FeedDue isolation build s ticketId →
      FeedDue isolation build { s with poll, marks, clean } ticketId) :
    Kept isolation build { s with poll, marks, clean } ticketId := by
  rcases h with hcurrent | hdue | hdrain
  · exact .inl hcurrent
  · exact .inr (.inl (hfeed hdue))
  · exact .inr (.inr hdrain)

/-- A step of the drain tick that does not write. -/
theorem Kept.drain {ticketId : ℕ} {drain : Drain Content} {outbox : List OutboxRow}
    (h : Kept isolation build s ticketId)
    (hdrain : DrainDue build s ticketId → DrainDue build { s with drain, outbox } ticketId) :
    Kept isolation build { s with drain, outbox } ticketId := by
  rcases h with hcurrent | hdue | hdue
  · exact .inl hcurrent
  · exact .inr (.inl hdue)
  · exact .inr (.inr (hdrain hdue))

theorem pollStart_feedDue {ticketId : ℕ} {clean : Bool} (hpoll : s.poll = .idle)
    (h : FeedDue isolation build s ticketId) :
    FeedDue isolation build
      { s with poll := .started s.rows (maxId .history s.rows), clean } ticketId := by
  rcases h with ⟨r, hr, hticket, hmark, -⟩ | hdue
  · refine .inl ⟨r, hr, hticket, hmark, fun p hp ↦ .inl ?_⟩
    have hsees : r ∈ sees isolation (some s.rows) s.rows := by
      refine mem_sees r hr fun v hv ↦ ?_
      cases hv
      exact hr
    cases hfeed : r.feed with
    | history =>
      rw [hfeed] at hp
      cases hp
      exact hsees
    | article =>
      rw [hfeed] at hp
      cases hp
      exact hsees
  · refine absurd hdue (not_pollDue ?_)
    rw [hpoll]
    rfl

theorem readMaxArticle_feedDue {ticketId maxHist : ℕ} {view : List Row}
    (hpoll : s.poll = .started view maxHist) (h : FeedDue isolation build s ticketId) :
    FeedDue isolation build { s with
      poll := .marked view maxHist (maxId .article (sees isolation (some view) s.rows)) }
      ticketId := by
  rcases h with ⟨r, hr, hticket, hmark, hreach⟩ | hdue
  · refine .inl ⟨r, hr, hticket, hmark, ?_⟩
    rw [hpoll] at hreach
    cases hfeed : r.feed with
    | history =>
      rw [hfeed] at hreach
      exact hreach
    | article =>
      rw [hfeed] at hreach
      exact hreach
  · refine absurd hdue (not_pollDue ?_)
    rw [hpoll]
    rfl

theorem readHistory_feedDue {ticketId maxHist maxArt : ℕ} {view : List Row}
    (hpoll : s.poll = .marked view maxHist maxArt) (hlt : s.marks.history < maxHist)
    (h : FeedDue isolation build s ticketId) :
    FeedDue isolation build { s with
      poll := .historyRead none maxArt
        (touched .history s.marks.history (sees isolation (some view) s.rows))
      marks := s.marks.set .history maxHist } ticketId := by
  rcases h with ⟨r, hr, hticket, hmark, hreach⟩ | hdue
  · rw [hpoll] at hreach
    cases hfeed : r.feed with
    | history =>
      rw [hfeed] at hmark hreach
      rcases hreach _ rfl with hsees | hafter
      · refine .inr ⟨?_, nofun⟩
        rw [← hticket]
        exact mem_touched hsees hfeed hmark
      · refine .inl ⟨r, hr, hticket, ?_, ?_⟩
        · rw [hfeed]
          exact hafter
        · rw [hfeed]
          exact nofun
    | article =>
      rw [hfeed] at hmark hreach
      refine .inl ⟨r, hr, hticket, ?_, ?_⟩
      · rw [hfeed]
        exact hmark
      · rw [hfeed]
        intro p hp
        cases hp
        exact .inl (mem_sees r hr nofun)
  · refine absurd hdue (not_pollDue ?_)
    rw [hpoll]
    rfl

theorem skipHistory_feedDue {ticketId maxHist maxArt : ℕ} {view : List Row}
    (hpoll : s.poll = .marked view maxHist maxArt) (h : FeedDue isolation build s ticketId) :
    FeedDue isolation build { s with poll := .historyRead (some view) maxArt [] } ticketId := by
  rcases h with ⟨r, hr, hticket, hmark, hreach⟩ | hdue
  · refine .inl ⟨r, hr, hticket, hmark, ?_⟩
    rw [hpoll] at hreach
    cases hfeed : r.feed with
    | history => exact nofun
    | article =>
      rw [hfeed] at hreach
      exact hreach
  · refine absurd hdue (not_pollDue ?_)
    rw [hpoll]
    rfl

theorem readArticles_feedDue {ticketId maxArt : ℕ} {tickets : List ℕ}
    (hpoll : s.poll = .historyRead view maxArt tickets) (h : FeedDue isolation build s ticketId) :
    FeedDue isolation build { s with
      poll := .collected
        (tickets ++ touched .article s.marks.article (sees isolation view s.rows))
      marks := s.marks.set .article maxArt } ticketId := by
  rcases h with ⟨r, hr, hticket, hmark, hreach⟩ | ⟨hmem, -⟩
  · rw [hpoll] at hreach
    cases hfeed : r.feed with
    | history =>
      rw [hfeed] at hmark
      refine .inl ⟨r, hr, hticket, ?_, nofun⟩
      rw [hfeed]
      exact hmark
    | article =>
      rw [hfeed] at hmark hreach
      rcases hreach _ rfl with hsees | hafter
      · refine .inr ⟨List.mem_append_right _ ?_, nofun⟩
        rw [← hticket]
        exact mem_touched hsees hfeed hmark
      · refine .inl ⟨r, hr, hticket, ?_, nofun⟩
        rw [hfeed]
        exact hafter
  · rw [hpoll] at hmem
    exact .inr ⟨List.mem_append_left _ hmem, nofun⟩

theorem skipArticles_feedDue {ticketId maxArt : ℕ} {tickets : List ℕ}
    (hpoll : s.poll = .historyRead view maxArt tickets) (h : FeedDue isolation build s ticketId) :
    FeedDue isolation build { s with poll := .collected tickets } ticketId := by
  rcases h with ⟨r, hr, hticket, hmark, -⟩ | ⟨hmem, -⟩
  · exact .inl ⟨r, hr, hticket, hmark, nofun⟩
  · rw [hpoll] at hmem
    exact .inr ⟨hmem, nofun⟩

theorem pollReadTickets_feedDue {ticketId : ℕ} {tickets : List ℕ}
    (hpoll : s.poll = .collected tickets) (h : FeedDue isolation build s ticketId) :
    FeedDue isolation build { s with poll := .read (sortedSet tickets) s.tickets } ticketId := by
  rcases h with ⟨r, hr, hticket, hmark, -⟩ | ⟨hmem, -⟩
  · exact .inl ⟨r, hr, hticket, hmark, nofun⟩
  · rw [hpoll] at hmem
    refine .inr ⟨mem_sortedSet.2 hmem, fun seen hseen ↦ ?_⟩
    cases hseen
    rfl

/-- A tick that ends leaves the tickets that it has not picked up as they were. -/
theorem idle_due {ticketId : ℕ} (hnot : ticketId ∉ s.poll.tickets) (h : Due isolation build s ticketId) :
    Due isolation build { s with poll := .idle } ticketId := by
  rcases h with (⟨r, hr, hticket, hmark, -⟩ | hdue) | hdrain
  · exact .inl (.inl ⟨r, hr, hticket, hmark, nofun⟩)
  · exact absurd hdue.1 hnot
  · exact .inr hdrain

/-- A write of the poll tick: the tickets that it brings up to date, and the others. -/
theorem pollWrite_kept {ticketId : ℕ} {tickets : List ℕ} {seen : Table ℕ Content} {polled : Bool}
    (hpoll : s.poll = .read tickets seen) (hleaves : LeavesNone isolation build s .pollWrite)
    (h : Kept isolation build s ticketId) :
    Kept isolation build { s with
      index := indexTickets build s.index tickets seen, poll := .idle, polled } ticketId := by
  by_cases hmem : ticketId ∈ tickets
  · unfold LeavesNone at hleaves
    rw [hpoll] at hleaves
    rcases hleaves ticketId hmem seen rfl with hdoc | hdue
    · refine .inl ?_
      dsimp only
      rw [indexTickets_find, if_pos hmem]
      exact hdoc
    · exact .inr hdue
  · rcases h with hcurrent | hdue
    · refine .inl ?_
      dsimp only
      rw [indexTickets_find, if_neg hmem]
      exact hcurrent
    · have hnot : ticketId ∉ s.poll.tickets := by
        rw [hpoll]
        exact hmem
      exact .inr (idle_due hnot hdue)

theorem pollFail_kept {ticketId : ℕ} (hleaves : LeavesNone isolation build s .pollFail)
    (h : Kept isolation build s ticketId) :
    Kept isolation build { s with poll := .idle } ticketId := by
  by_cases hmem : ticketId ∈ s.poll.tickets
  · exact hleaves ticketId hmem
  · exact h.imp_right (idle_due hmem)

theorem not_mem_drain {ticketId : ℕ} (hdrain : s.drain.tickets = []) :
    ¬ (ticketId ∈ s.drain.tickets ∧
      ∀ seen ∈ s.drain.seen, (seen.find ticketId).map build = s.document build ticketId) := by
  rintro ⟨hmem, -⟩
  rw [hdrain] at hmem
  cases hmem

theorem unprocessed_spec {outbox : List OutboxRow} {o : OutboxRow} (h : o ∈ unprocessed outbox) :
    o ∈ outbox ∧ o.processed = false := by
  have hmem := List.mem_mergeSort.1 (List.mem_of_mem_take h)
  rw [List.mem_filter, Bool.not_eq_true'] at hmem
  exact hmem

theorem unprocessed_nil {outbox : List OutboxRow} (h : unprocessed outbox = []) :
    ∀ o ∈ outbox, o.processed = true := by
  intro o ho
  have hsorted := (List.take_eq_nil_iff.1 h).resolve_left nofun
  have hfilter := (List.mergeSort_perm (outbox.filter fun o ↦ !o.processed)
    fun o o' ↦ o.id ≤ o'.id).length_eq
  rw [hsorted] at hfilter
  have hnone := List.filter_eq_nil_iff.1 (List.eq_nil_of_length_eq_zero hfilter.symm) o ho
  rw [Bool.not_eq_true', Bool.not_eq_false] at hnone
  exact hnone

theorem drainStart_due {ticketId : ℕ} (hids : (s.outbox.map (·.id)).Nodup) (hidle : s.drain = .idle)
    (h : DrainDue build s ticketId) :
    DrainDue build { s with drain := .selected (unprocessed s.outbox) } ticketId := by
  rcases h with ⟨o, ho, hticket, hprocessed, -⟩ | hdue
  · by_cases hmem : o.id ∈ (unprocessed s.outbox).map (·.id)
    · obtain ⟨o', ho', hid⟩ := List.mem_map.1 hmem
      have hsame : o' = o := List.inj_on_of_nodup_map hids (unprocessed_spec ho').1 ho hid
      rw [hsame] at ho'
      refine .inr ⟨?_, nofun⟩
      rw [← hticket]
      exact mem_sortedSet.2 (List.mem_map_of_mem ho')
    · exact .inl ⟨o, ho, hticket, hprocessed, hmem⟩
  · refine absurd hdue (not_mem_drain ?_)
    rw [hidle]
    rfl

theorem drainReadTickets_due {ticketId : ℕ} {rows : List OutboxRow} (hdrain : s.drain = .selected rows)
    (h : DrainDue build s ticketId) :
    DrainDue build { s with drain := .read rows s.tickets } ticketId := by
  rcases h with hwaits | ⟨hmem, -⟩
  · rw [hdrain] at hwaits
    exact .inl hwaits
  · rw [hdrain] at hmem
    refine .inr ⟨hmem, fun seen hseen ↦ ?_⟩
    cases hseen
    rfl

theorem drainWrite_kept {ticketId : ℕ} {rows : List OutboxRow} {seen : Table ℕ Content}
    (hdrain : s.drain = .read rows seen) (hleaves : LeavesNone isolation build s .drainWrite)
    (h : Kept isolation build s ticketId) :
    Kept isolation build { s with
      index := indexTickets build s.index (drainTickets rows) seen, drain := .written rows }
      ticketId := by
  by_cases hmem : ticketId ∈ drainTickets rows
  · unfold LeavesNone at hleaves
    rw [hdrain] at hleaves
    rcases hleaves ticketId hmem seen rfl with hdoc | hdue
    · refine .inl ?_
      dsimp only
      rw [indexTickets_find, if_pos hmem]
      exact hdoc
    · exact .inr hdue
  · rcases h with hcurrent | hfeed | hwaits | hdue
    · refine .inl ?_
      dsimp only
      rw [indexTickets_find, if_neg hmem]
      exact hcurrent
    · exact .inr (.inl hfeed)
    · rw [hdrain] at hwaits
      exact .inr (.inr (.inl hwaits))
    · rw [hdrain] at hdue
      exact absurd hdue.1 hmem

theorem drainMark_due {ticketId : ℕ} {rows : List OutboxRow} (hdrain : s.drain = .written rows)
    (h : DrainDue build s ticketId) :
    DrainDue build { s with
      outbox := s.outbox.map fun o ↦ { o with processed := o.processed || o.id ∈ rows.map (·.id) }
      drain := .idle } ticketId := by
  rcases h with ⟨o, ho, hticket, hprocessed, hid⟩ | hdue
  · rw [hdrain] at hid
    refine .inl ⟨_, List.mem_map_of_mem ho, hticket, ?_, List.not_mem_nil⟩
    dsimp only
    rw [hprocessed, Bool.false_or]
    exact decide_eq_false hid
  · refine absurd hdue (not_mem_drain ?_)
    rw [hdrain]
    rfl

theorem drainFail_due {ticketId : ℕ}
    (hrows : ∀ o ∈ s.drain.rows, o ∈ s.outbox ∧ o.processed = false)
    (h : DrainDue build s ticketId) : DrainDue build { s with drain := .idle } ticketId := by
  rcases h with ⟨o, ho, hticket, hprocessed, -⟩ | ⟨hmem, -⟩
  · exact .inl ⟨o, ho, hticket, hprocessed, List.not_mem_nil⟩
  · have hrow : ∃ o ∈ s.drain.rows, o.ticketId = ticketId := by
      cases hdrain : s.drain with
      | idle =>
        rw [hdrain] at hmem
        cases hmem
      | selected rows =>
        rw [hdrain] at hmem
        exact List.mem_map.1 (mem_sortedSet.1 hmem)
      | read rows seen =>
        rw [hdrain] at hmem
        exact List.mem_map.1 (mem_sortedSet.1 hmem)
      | written rows =>
        rw [hdrain] at hmem
        cases hmem
    obtain ⟨o, ho, hticket⟩ := hrow
    exact .inl ⟨o, (hrows o ho).1, hticket, (hrows o ho).2, List.not_mem_nil⟩

theorem committed_document {transaction ticketId : ℕ} {writes : List (ℕ × Option Content)}
    {outbox : List (ℕ × ℕ)} (hnot : ticketId ∉ writes.map (·.1)) :
    (s.committed transaction rows writes outbox).document build ticketId =
      s.document build ticketId := by
  have hfold : ∀ tickets : Table ℕ Content,
      (writes.foldl (fun tickets w ↦ tickets.set w.1 w.2) tickets).find ticketId =
        tickets.find ticketId := by
    induction writes with
    | nil => exact fun _ ↦ rfl
    | cons w ws ih =>
      intro tickets
      rw [List.map_cons, List.mem_cons, not_or] at hnot
      rw [List.foldl_cons, ih hnot.2, Table.find_set_of_ne hnot.1]
  rw [SearchState.document, SearchState.document, SearchState.committed, hfold]

theorem sees_append {r : Row} (new : List Row) (hr : r ∈ sees isolation view rows) :
    r ∈ sees isolation view (rows ++ new) := by
  cases isolation with
  | readCommitted => exact List.mem_append_left _ hr
  | snapshot =>
    cases view with
    | none => exact List.mem_append_left _ hr
    | some v => exact hr

/-- A row that the tick under way reads or leaves above its mark stays so when others come. -/
theorem committed_reach {poll : Poll Content} {r : Row} (hr : r ∈ rows) (new : List Row)
    (hreach : ∀ p ∈ poll.reach isolation rows r.feed, r ∈ p.1 ∨ p.2 < r.id) :
    ∀ p ∈ poll.reach isolation (rows ++ new) r.feed, r ∈ p.1 ∨ p.2 < r.id := by
  intro p hp
  cases poll with
  | idle => cases hp
  | started v maxHist =>
    cases hfeed : r.feed with
    | history =>
      rw [hfeed] at hp hreach
      cases hp
      exact (hreach _ rfl).imp_left (sees_append new)
    | article =>
      rw [hfeed] at hp hreach
      cases hp
      cases isolation with
      | readCommitted => exact .inl (List.mem_append_left _ hr)
      | snapshot => exact hreach _ rfl
  | marked v maxHist maxArt =>
    cases hfeed : r.feed with
    | history =>
      rw [hfeed] at hp hreach
      cases hp
      exact (hreach _ rfl).imp_left (sees_append new)
    | article =>
      rw [hfeed] at hp hreach
      cases hp
      exact (hreach _ rfl).imp_left (sees_append new)
  | historyRead v maxArt tickets =>
    cases hfeed : r.feed with
    | history =>
      rw [hfeed] at hp
      cases hp
    | article =>
      rw [hfeed] at hp hreach
      cases hp
      exact (hreach _ rfl).imp_left (sees_append new)
  | collected tickets => cases hp
  | read tickets seen => cases hp

/-- A commit leaves a ticket that it does not write as it was. -/
theorem committed_kept {transaction ticketId : ℕ} {writes : List (ℕ × Option Content)}
    {outbox : List (ℕ × ℕ)} (hnot : ticketId ∉ writes.map (·.1))
    (h : Kept isolation build s ticketId) :
    Kept isolation build (s.committed transaction rows writes outbox) ticketId := by
  have hdocument : (s.committed transaction rows writes outbox).document build ticketId =
      s.document build ticketId := committed_document hnot
  rcases h with hcurrent | (⟨r, hr, hticket, hmark, hreach⟩ | ⟨hmem, hseen⟩) | hwaits | ⟨hmem, hseen⟩
  · refine .inl ?_
    rw [hdocument]
    exact hcurrent
  · refine .inr (.inl (.inl ⟨r, List.mem_append_left _ hr, hticket, hmark, fun p hp ↦ ?_⟩))
    exact committed_reach hr rows hreach p hp
  · refine .inr (.inl (.inr ⟨hmem, ?_⟩))
    rw [hdocument]
    exact hseen
  · obtain ⟨o, ho, hrest⟩ := hwaits
    exact .inr (.inr (.inl ⟨o, List.mem_append_left _ ho, hrest⟩))
  · refine .inr (.inr (.inr ⟨hmem, ?_⟩))
    rw [hdocument]
    exact hseen

theorem sees_current (hview : ∀ v ∈ view, v = rows) : sees isolation view rows = rows := by
  have hgetD : view.getD rows = rows := by
    cases view with
    | none => rfl
    | some v => exact hview v rfl
  rw [sees, hgetD]
  cases isolation with
  | readCommitted => rfl
  | snapshot => rfl

theorem touched_nil {feed : Feed} {mark : ℕ} (h : ∀ r ∈ rows, r.feed = feed → r.id ≤ mark) :
    touched feed mark rows = [] := by
  rw [touched, List.map_eq_nil_iff, List.filter_eq_nil_iff]
  intro r hr hmark
  obtain ⟨hfeed, hlt⟩ := of_decide_eq_true hmark
  exact absurd (h r hr hfeed) (Nat.not_le.2 hlt)

/-- A step of the poll tick that does not write. -/
theorem Following.poll {poll : Poll Content} {marks : Marks} {clean : Bool}
    (h : Following isolation build s)
    (hfeed : ∀ ticketId, FeedDue isolation build s ticketId →
      FeedDue isolation build { s with poll, marks, clean } ticketId)
    (hclean : clean = true → Clean { s with poll, marks, clean })
    (hpolled : s.polled = true → clean = true ∧ (∀ r ∈ s.rows, r.id ≤ marks.get r.feed) ∧
      poll.tickets = []) :
    Following isolation build { s with poll, marks, clean } where
  kept ticketId hwritten := (h.kept ticketId hwritten).poll (hfeed ticketId)
  ids := h.ids
  drain := h.drain
  clean := hclean
  polled := hpolled
  drained := h.drained

theorem pollStart_following (h : Following isolation build s) (hpoll : s.poll = .idle) :
    Following isolation build
      { s with poll := .started s.rows (maxId .history s.rows), clean := true } :=
  h.poll (fun _ ↦ pollStart_feedDue hpoll) (fun _ ↦ ⟨rfl, fun _ ↦ le_maxId⟩)
    fun hpolled ↦ ⟨rfl, (h.polled hpolled).2.1, rfl⟩

theorem readMaxArticle_following {maxHist : ℕ} {view : List Row} (h : Following isolation build s)
    (hpoll : s.poll = .started view maxHist) :
    Following isolation build { s with
      poll := .marked view maxHist (maxId .article (sees isolation (some view) s.rows)) } := by
  refine h.poll (fun _ ↦ readMaxArticle_feedDue hpoll) (fun hclean ↦ ?_) fun hpolled ↦ ?_
  · have hread := h.clean hclean
    rw [Clean, hpoll] at hread
    refine ⟨hread.1, hread.2, fun r hr hfeed ↦ ?_⟩
    rw [sees_current fun v hv ↦ (Option.some.inj hv).symm.trans hread.1]
    exact le_maxId hr hfeed
  · exact ⟨(h.polled hpolled).1, (h.polled hpolled).2.1, rfl⟩

theorem readHistory_following {maxHist maxArt : ℕ} {view : List Row}
    (h : Following isolation build s) (hpoll : s.poll = .marked view maxHist maxArt)
    (hlt : s.marks.history < maxHist) :
    Following isolation build { s with
      poll := .historyRead none maxArt
        (touched .history s.marks.history (sees isolation (some view) s.rows))
      marks := s.marks.set .history maxHist } := by
  refine h.poll (fun _ ↦ readHistory_feedDue hpoll hlt) (fun hclean ↦ ?_) fun hpolled ↦ ?_
  · have hread := h.clean hclean
    rw [Clean, hpoll] at hread
    exact ⟨nofun, hread.2⟩
  · obtain ⟨hclean, hmarks, -⟩ := h.polled hpolled
    have hread := h.clean hclean
    rw [Clean, hpoll] at hread
    refine ⟨hclean, fun r hr ↦ ?_, ?_⟩
    · have hmark := hmarks r hr
      cases hfeed : r.feed with
      | history => exact hread.2.1 r hr hfeed
      | article =>
        rw [hfeed] at hmark
        exact hmark
    · rw [sees_current fun v hv ↦ (Option.some.inj hv).symm.trans hread.1]
      refine touched_nil fun r hr hfeed ↦ ?_
      have hmark := hmarks r hr
      rw [hfeed] at hmark
      exact hmark

theorem skipHistory_following {maxHist maxArt : ℕ} {view : List Row}
    (h : Following isolation build s) (hpoll : s.poll = .marked view maxHist maxArt)
    (hle : maxHist ≤ s.marks.history) :
    Following isolation build { s with poll := .historyRead (some view) maxArt [] } := by
  refine h.poll (fun _ ↦ skipHistory_feedDue hpoll) (fun hclean ↦ ?_) fun hpolled ↦ ?_
  · have hread := h.clean hclean
    rw [Clean, hpoll] at hread
    refine ⟨fun v hv ↦ (Option.some.inj hv).symm.trans hread.1, fun r hr hfeed ↦ ?_, hread.2.2⟩
    exact (hread.2.1 r hr hfeed).trans hle
  · exact ⟨(h.polled hpolled).1, (h.polled hpolled).2.1, rfl⟩

theorem readArticles_following {maxArt : ℕ} {tickets : List ℕ} (h : Following isolation build s)
    (hpoll : s.poll = .historyRead view maxArt tickets) (hlt : s.marks.article < maxArt) :
    Following isolation build { s with
      poll := .collected
        (tickets ++ touched .article s.marks.article (sees isolation view s.rows))
      marks := s.marks.set .article maxArt } := by
  refine h.poll (fun _ ↦ readArticles_feedDue hpoll) (fun hclean ↦ ?_) fun hpolled ↦ ?_
  · have hread := h.clean hclean
    rw [Clean, hpoll] at hread
    intro r hr
    cases hfeed : r.feed with
    | history => exact hread.2.1 r hr hfeed
    | article => exact hread.2.2 r hr hfeed
  · obtain ⟨hclean, hmarks, htickets⟩ := h.polled hpolled
    have hread := h.clean hclean
    rw [Clean, hpoll] at hread
    rw [hpoll] at htickets
    refine ⟨hclean, fun r hr ↦ ?_, ?_⟩
    · have hmark := hmarks r hr
      cases hfeed : r.feed with
      | history =>
        rw [hfeed] at hmark
        exact hmark
      | article => exact hread.2.2 r hr hfeed
    · have hnone : touched .article s.marks.article (sees isolation view s.rows) = [] := by
        rw [sees_current hread.1]
        refine touched_nil fun r hr hfeed ↦ ?_
        have hmark := hmarks r hr
        rw [hfeed] at hmark
        exact hmark
      rw [hnone, List.append_nil]
      exact htickets

theorem skipArticles_following {maxArt : ℕ} {tickets : List ℕ} (h : Following isolation build s)
    (hpoll : s.poll = .historyRead view maxArt tickets) (hle : maxArt ≤ s.marks.article) :
    Following isolation build { s with poll := .collected tickets } := by
  refine h.poll (fun _ ↦ skipArticles_feedDue hpoll) (fun hclean ↦ ?_) fun hpolled ↦ ?_
  · have hread := h.clean hclean
    rw [Clean, hpoll] at hread
    intro r hr
    cases hfeed : r.feed with
    | history => exact hread.2.1 r hr hfeed
    | article => exact (hread.2.2 r hr hfeed).trans hle
  · obtain ⟨hclean, hmarks, htickets⟩ := h.polled hpolled
    rw [hpoll] at htickets
    exact ⟨hclean, hmarks, htickets⟩

theorem pollReadTickets_following {tickets : List ℕ} (h : Following isolation build s)
    (hpoll : s.poll = .collected tickets) :
    Following isolation build { s with poll := .read (sortedSet tickets) s.tickets } := by
  refine h.poll (fun _ ↦ pollReadTickets_feedDue hpoll) (fun hclean ↦ ?_) fun hpolled ↦ ?_
  · have hread := h.clean hclean
    rw [Clean, hpoll] at hread
    exact hread
  · obtain ⟨hclean, hmarks, htickets⟩ := h.polled hpolled
    rw [hpoll] at htickets
    refine ⟨hclean, hmarks, List.eq_nil_iff_forall_not_mem.2 fun ticketId hmem ↦ ?_⟩
    rw [Poll.tickets] at htickets
    rw [Poll.tickets, mem_sortedSet, htickets] at hmem
    cases hmem

theorem pollWrite_following {tickets : List ℕ} {seen : Table ℕ Content}
    (h : Following isolation build s) (hpoll : s.poll = .read tickets seen)
    (hleaves : LeavesNone isolation build s .pollWrite) :
    Following isolation build { s with
      index := indexTickets build s.index tickets seen, poll := .idle, polled := s.clean } where
  kept ticketId hwritten := pollWrite_kept hpoll hleaves (h.kept ticketId hwritten)
  ids := h.ids
  drain := h.drain
  clean _ := trivial
  polled hclean := by
    have hread := h.clean hclean
    rw [Clean, hpoll] at hread
    exact ⟨hclean, hread, rfl⟩
  drained := h.drained

theorem pollFail_following (h : Following isolation build s)
    (hleaves : LeavesNone isolation build s .pollFail) :
    Following isolation build { s with poll := .idle } where
  kept ticketId hwritten := pollFail_kept hleaves (h.kept ticketId hwritten)
  ids := h.ids
  drain := h.drain
  clean _ := trivial
  polled hpolled := ⟨(h.polled hpolled).1, (h.polled hpolled).2.1, rfl⟩
  drained := h.drained

theorem Following.not_drained {drain : Drain Content} (h : Following isolation build s)
    (hdrain : s.drain = drain) (hbusy : drain ≠ .idle) : ¬ s.drained = true :=
  fun hdrained ↦ hbusy (hdrain.symm.trans (h.drained hdrained).2)

theorem drainStart_following {o : OutboxRow} {rows : List OutboxRow}
    (h : Following isolation build s) (hdrain : s.drain = .idle)
    (hrows : unprocessed s.outbox = o :: rows) :
    Following isolation build { s with drain := .selected (o :: rows) } where
  kept ticketId hwritten := by
    refine (h.kept ticketId hwritten).drain fun hdue ↦ ?_
    rw [← hrows]
    exact drainStart_due h.ids hdrain hdue
  ids := h.ids
  drain o' ho' := by
    rw [← hrows] at ho'
    exact unprocessed_spec ho'
  clean := h.clean
  polled := h.polled
  drained hdrained := by
    have hmem : o ∈ unprocessed s.outbox := by
      rw [hrows]
      exact List.mem_cons_self
    obtain ⟨ho, hprocessed⟩ := unprocessed_spec hmem
    rw [(h.drained hdrained).1 o ho] at hprocessed
    cases hprocessed

theorem drainNothing_following (h : Following isolation build s) (hdrain : s.drain = .idle)
    (hrows : unprocessed s.outbox = []) : Following isolation build { s with drained := true } where
  kept := h.kept
  ids := h.ids
  drain := h.drain
  clean := h.clean
  polled := h.polled
  drained _ := ⟨unprocessed_nil hrows, hdrain⟩

theorem drainReadTickets_following {rows : List OutboxRow} (h : Following isolation build s)
    (hdrain : s.drain = .selected rows) :
    Following isolation build { s with drain := .read rows s.tickets } where
  kept ticketId hwritten := (h.kept ticketId hwritten).drain (drainReadTickets_due hdrain)
  ids := h.ids
  drain o ho := h.drain o (by rw [hdrain]; exact ho)
  clean := h.clean
  polled := h.polled
  drained hdrained := absurd hdrained (h.not_drained hdrain nofun)

theorem drainWrite_following {rows : List OutboxRow} {seen : Table ℕ Content}
    (h : Following isolation build s) (hdrain : s.drain = .read rows seen)
    (hleaves : LeavesNone isolation build s .drainWrite) :
    Following isolation build { s with
      index := indexTickets build s.index (drainTickets rows) seen, drain := .written rows } where
  kept ticketId hwritten := drainWrite_kept hdrain hleaves (h.kept ticketId hwritten)
  ids := h.ids
  drain o ho := h.drain o (by rw [hdrain]; exact ho)
  clean := h.clean
  polled := h.polled
  drained hdrained := absurd hdrained (h.not_drained hdrain nofun)

theorem drainMark_following {rows : List OutboxRow} (h : Following isolation build s)
    (hdrain : s.drain = .written rows) :
    Following isolation build { s with
      outbox := s.outbox.map fun o ↦ { o with processed := o.processed || o.id ∈ rows.map (·.id) }
      drain := .idle } where
  kept ticketId hwritten := (h.kept ticketId hwritten).drain (drainMark_due hdrain)
  ids := by
    rw [List.map_map]
    exact h.ids
  drain := nofun
  clean := h.clean
  polled := h.polled
  drained hdrained := absurd hdrained (h.not_drained hdrain nofun)

theorem drainFail_following (h : Following isolation build s) :
    Following isolation build { s with drain := .idle } where
  kept ticketId hwritten := (h.kept ticketId hwritten).drain (drainFail_due h.drain)
  ids := h.ids
  drain := nofun
  clean := h.clean
  polled := h.polled
  drained hdrained := ⟨(h.drained hdrained).1, rfl⟩

theorem commit_following {transaction : ℕ} {writes : List (ℕ × Option Content)}
    {outbox : List (ℕ × ℕ)} (h : Following isolation build s)
    (hids : (s.outbox.map (·.id) ++ outbox.map (·.1)).Nodup)
    (hleaves : ∀ w ∈ writes,
      Due isolation build (s.committed transaction rows writes outbox) w.1) :
    Following isolation build (s.committed transaction rows writes outbox) where
  kept ticketId hwritten := by
    by_cases hmem : ticketId ∈ writes.map (·.1)
    · obtain ⟨w, hw, rfl⟩ := List.mem_map.1 hmem
      exact .inr (hleaves w hw)
    · exact committed_kept hmem (h.kept ticketId ((List.mem_append.1 hwritten).resolve_right hmem))
  ids := by
    rw [SearchState.committed, List.map_append, List.map_map]
    exact hids
  drain o ho := ⟨List.mem_append_left _ (h.drain o ho).1, (h.drain o ho).2⟩
  clean := nofun
  polled := nofun
  drained := nofun

theorem next_following {a : SearchAction Content} (h : Following isolation build s)
    (hleaves : LeavesNone isolation build s a) (hnext : s.next isolation build a = some t) :
    Following isolation build t := by
  cases a with
  | insertRow transaction feed ticketId =>
    cases hnext
    exact ⟨h.kept, h.ids, h.drain, h.clean, h.polled, h.drained⟩
  | commit transaction writes outbox =>
    rw [SearchState.next] at hnext
    split at hnext
    · rename_i rows hpending
      rw [Option.ite_none_right_eq_some] at hnext
      obtain ⟨⟨-, hids⟩, heq⟩ := hnext
      cases heq
      exact commit_following h hids (hleaves rows hpending)
    · cases hnext
  | rollback transaction =>
    cases hnext
    exact ⟨h.kept, h.ids, h.drain, h.clean, h.polled, h.drained⟩
  | pollStart =>
    rw [SearchState.next] at hnext
    split at hnext
    · rename_i hpoll
      cases hnext
      exact pollStart_following h hpoll
    · cases hnext
  | readMaxArticle =>
    rw [SearchState.next] at hnext
    split at hnext
    · rename_i view maxHist hpoll
      cases hnext
      exact readMaxArticle_following h hpoll
    · cases hnext
  | readHistory =>
    rw [SearchState.next] at hnext
    split at hnext
    · rename_i view maxHist maxArt hpoll
      split at hnext
      · rename_i hlt
        cases hnext
        exact readHistory_following h hpoll hlt
      · rename_i hnot
        cases hnext
        exact skipHistory_following h hpoll (Nat.not_lt.1 hnot)
    · cases hnext
  | readArticles =>
    rw [SearchState.next] at hnext
    split at hnext
    · rename_i view maxArt tickets hpoll
      split at hnext
      · rename_i hlt
        cases hnext
        exact readArticles_following h hpoll hlt
      · rename_i hnot
        cases hnext
        exact skipArticles_following h hpoll (Nat.not_lt.1 hnot)
    · cases hnext
  | pollReadTickets =>
    rw [SearchState.next] at hnext
    split at hnext
    · rename_i tickets hpoll
      cases hnext
      exact pollReadTickets_following h hpoll
    · cases hnext
  | pollWrite =>
    rw [SearchState.next] at hnext
    split at hnext
    · rename_i tickets seen hpoll
      cases hnext
      exact pollWrite_following h hpoll hleaves
    · cases hnext
  | pollFail =>
    cases hnext
    exact pollFail_following h hleaves
  | drainStart =>
    rw [SearchState.next] at hnext
    split at hnext
    · rename_i hdrain
      cases hrows : unprocessed s.outbox with
      | nil =>
        rw [hrows] at hnext
        cases hnext
        exact drainNothing_following h hdrain hrows
      | cons o rows =>
        rw [hrows] at hnext
        cases hnext
        exact drainStart_following h hdrain hrows
    · cases hnext
  | drainReadTickets =>
    rw [SearchState.next] at hnext
    split at hnext
    · rename_i rows hdrain
      cases hnext
      exact drainReadTickets_following h hdrain
    · cases hnext
  | drainWrite =>
    rw [SearchState.next] at hnext
    split at hnext
    · rename_i rows seen hdrain
      cases hnext
      exact drainWrite_following h hdrain hleaves
    · cases hnext
  | drainMark =>
    rw [SearchState.next] at hnext
    split at hnext
    · rename_i rows hdrain
      cases hnext
      exact drainMark_following h hdrain
    · cases hnext
  | drainFail =>
    cases hnext
    exact drainFail_following h

theorem init_following (hs : (searches isolation build).init s) : Following isolation build s := by
  obtain ⟨hpoll, hdrain, hwritten, hpolled, hdrained, hids⟩ := hs
  refine ⟨?_, hids, ?_, fun _ ↦ ?_, fun h ↦ ?_, fun h ↦ ?_⟩
  · rw [hwritten]
    exact nofun
  · rw [hdrain]
    exact nofun
  · rw [Clean, hpoll]
    trivial
  · rw [hpolled] at h
    cases h
  · rw [hdrained] at h
    cases h

/-- What is written and due to no tick is up to date. -/
theorem Following.current (h : Following isolation build s) (hpolled : s.polled = true)
    (hdrained : s.drained = true) :
    ∀ ticketId ∈ s.written, s.index.find ticketId = s.document build ticketId := by
  intro ticketId hticket
  obtain ⟨-, hmarks, htickets⟩ := h.polled hpolled
  obtain ⟨hprocessed, hidle⟩ := h.drained hdrained
  have hdrain : s.drain.tickets = [] := by
    rw [hidle]
    rfl
  rcases h.kept ticketId hticket with hcurrent | (⟨r, hr, -, hmark, -⟩ | hdue) | hwaits | hdue
  · exact hcurrent
  · exact absurd (hmarks r hr) (Nat.not_le.2 hmark)
  · exact absurd hdue (not_pollDue htickets)
  · obtain ⟨o, ho, -, hunprocessed, -⟩ := hwaits
    rw [hprocessed o ho] at hunprocessed
    cases hunprocessed
  · exact absurd hdue (not_mem_drain hdrain)

/-- One ticket that is indexed. -/
def indexed : SearchState ℕ ℕ where
  tickets := ⟨[(7, 10)], by decide⟩
  pending := ⟨[], by decide⟩
  allocated := ⟨1, 0⟩
  rows := [⟨.history, 1, 7⟩]
  outbox := []
  marks := ⟨1, 0⟩
  index := ⟨[(7, 10)], by decide⟩
  poll := .idle
  clean := false
  drain := .idle
  written := []
  polled := false
  drained := false

theorem indexed_init : (searches isolation id).init indexed := by
  refine ⟨rfl, rfl, rfl, rfl, rfl, ?_⟩
  decide

def pollTick : List (SearchAction ℕ) :=
  [.pollStart, .readMaxArticle, .readHistory, .readArticles, .pollReadTickets, .pollWrite]

/-- The drain tick of a commit fails, the next one comes to an end after the poll tick. -/
def drainRetried : List (SearchAction ℕ) :=
  [.insertRow 1 .history 7, .commit 1 [(7, some 11)] [(1, 7)], .drainStart, .drainFail] ++
    pollTick ++ [.drainStart, .drainReadTickets, .drainWrite, .drainMark, .drainStart]

def retried : SearchState ℕ ℕ :=
  (drainRetried.foldlM (SearchState.next .snapshot id) indexed).getD indexed

/-- A poll tick saves its watermark and fails; the next one finds nothing to do. -/
def pollFailed : List (SearchAction ℕ) :=
  [.insertRow 1 .history 7, .commit 1 [(7, some 11)] [], .pollStart, .readMaxArticle, .readHistory,
    .readArticles, .pollReadTickets, .pollFail] ++ pollTick ++ [.drainStart]

def stale : SearchState ℕ ℕ :=
  (pollFailed.foldlM (SearchState.next .snapshot id) indexed).getD indexed

end Tiqora.Worker
