import Tiqora.Webchat.Stream

namespace Tiqora.Webchat

open Foundation

def linesOf (chunks : List Chunk) : List Line := chunks.filterMap Chunk.line

/-- What the client received, and what is on its way to it. -/
def StreamState.flow (s : StreamState) : List Chunk :=
  s.received ++ s.connection.elim [] (·.outgoing)

def Numbered (lines : List Line) : Prop := lines.map (·.seq) = List.range' 1 lines.length

variable {log lines rows view got : List Line} {first cursor n : ℕ} {s t : StreamState}
  {flow flow' : List Chunk} {d d' : Store} {isolation : Isolation}

theorem filter_seq_eq_drop (base : ℕ)
    (h : lines.map (·.seq) = List.range' (base + 1) lines.length) :
    (lines.filter fun l ↦ cursor < l.seq) = lines.drop (cursor - base) := by
  induction lines generalizing base with
  | nil => rw [List.filter_nil, List.drop_nil]
  | cons l ls ih =>
    rw [List.map_cons, List.length_cons, List.range'_succ] at h
    obtain ⟨hseq, htail⟩ := List.cons.inj h
    have ih := ih (base + 1) htail
    by_cases hc : cursor < l.seq
    · have h₀ : cursor - base = 0 := by omega
      have h₁ : cursor - (base + 1) = 0 := by omega
      rw [List.filter_cons_of_pos (by rwa [decide_eq_true_eq]), ih, h₀, h₁, List.drop_zero,
        List.drop_zero]
    · have h₀ : cursor - base = cursor - (base + 1) + 1 := by omega
      rw [List.filter_cons_of_neg (by rwa [decide_eq_true_eq]), ih, h₀, List.drop_succ_cons]

theorem Numbered.filter_seq (h : Numbered lines) :
    (lines.filter fun l ↦ cursor < l.seq) = lines.drop cursor :=
  filter_seq_eq_drop 0 h

theorem Numbered.of_prefix (h : Numbered log) (hpre : lines <+: log) : Numbered lines := by
  have hle := hpre.length_le
  rw [Numbered, List.prefix_iff_eq_take.1 hpre, List.map_take, h, List.length_take,
    List.take_range'_of_length_ge hle, Nat.min_eq_left hle]

theorem Numbered.loadMessagesSince (h : Numbered lines) :
    loadMessagesSince lines cursor page = (lines.drop cursor).take page := by
  have hsorted : (lines.drop cursor).Pairwise fun l l' ↦ decide (l.seq ≤ l'.seq) = true := by
    have hseqs : (lines.map (·.seq)).Pairwise (· < ·) := by
      rw [h]
      exact List.pairwise_lt_range'
    refine ((List.pairwise_map.1 hseqs).sublist (List.drop_sublist _ _)).imp fun hlt ↦ ?_
    exact decide_eq_true (Nat.le_of_lt hlt)
  rw [Webchat.loadMessagesSince, h.filter_seq, List.mergeSort_of_pairwise hsorted]
  rfl

/-- The `seq` of the last of some rows that follow a cursor. -/
theorem Numbered.cursorAfter (h : Numbered log) (hrows : rows <+: log.drop cursor) :
    cursorAfter cursor rows = cursor + rows.length := by
  have hle := hrows.length_le
  have hseqs : rows.map (·.seq) = List.range' (1 + cursor) rows.length := by
    rw [List.prefix_iff_eq_take.1 hrows, List.map_take, List.map_drop, h, List.drop_range',
      Nat.mul_one, List.take_range'_of_length_ge (by rwa [List.length_drop] at hle),
      List.length_take, Nat.min_eq_left hle]
  rcases List.eq_nil_or_concat rows with rfl | ⟨init, last, rfl⟩
  · rfl
  · rw [List.concat_eq_append] at hseqs ⊢
    rw [List.map_append, List.length_append, List.length_singleton, List.range'_concat] at hseqs
    have hlast := List.append_inj_right' hseqs rfl
    rw [List.map_singleton, List.singleton_inj] at hlast
    rw [Webchat.cursorAfter, List.getLast?_append, List.getLast?_singleton, Option.some_or, Option.map_some,
      Option.getD_some, List.length_append, List.length_singleton, hlast]
    omega

/-- What the chunks say: lines of the transcript after the first cursor, and an end after them. -/
structure Told (d : Store) (log : List Line) (first : ℕ) (flow : List Chunk) : Prop where
  lines : linesOf flow <+: log.drop first
  ended : ∀ pre reason, pre ++ [.ended reason] <+: flow → d.chat.purgedAt = none →
    d.chat.status.live = false ∧ linesOf pre = log.drop first

theorem linesOf_append (chunks chunks' : List Chunk) :
    linesOf (chunks ++ chunks') = linesOf chunks ++ linesOf chunks' := List.filterMap_append

theorem linesOf_messages (rows : List Line) : linesOf (rows.map .message) = rows := by
  rw [linesOf, List.filterMap_map]
  exact List.filterMap_some

theorem Told.of_prefix (h : Told d log first flow) (hpre : flow' <+: flow) :
    Told d log first flow' :=
  ⟨(hpre.filterMap Chunk.line).trans h.lines, fun _ _ hp ↦ h.ended _ _ (hp.trans hpre)⟩

/-- A chunk after the others, when an end comes after all lines. -/
theorem Told.push (h : Told d log first flow) {chunk : Chunk}
    (hlines : linesOf (flow ++ [chunk]) <+: log.drop first)
    (hended : ∀ reason, chunk = .ended reason → d.chat.purgedAt = none →
      d.chat.status.live = false ∧ linesOf flow = log.drop first) :
    Told d log first (flow ++ [chunk]) := by
  refine ⟨hlines, fun pre reason hpre hp ↦ ?_⟩
  rcases List.prefix_concat_iff.1 hpre with heq | hpre
  · obtain ⟨rfl, hlast⟩ := List.append_inj' heq rfl
    exact hended reason (List.cons.inj hlast).1.symm hp
  · exact h.ended pre reason hpre hp

theorem Told.push_silent (h : Told d log first flow) {chunk : Chunk} (hline : chunk.line = none)
    (hended : ∀ reason, chunk ≠ .ended reason) : Told d log first (flow ++ [chunk]) := by
  refine h.push ?_ fun reason heq ↦ absurd heq (hended reason)
  rw [linesOf_append, linesOf, linesOf, List.filterMap_cons_none hline, List.filterMap_nil,
    List.append_nil]
  exact h.lines

theorem Told.push_rows (h : Told d log first flow) (hrows : linesOf flow ++ rows <+: log.drop first) :
    Told d log first (flow ++ rows.map .message) := by
  induction rows generalizing flow with
  | nil =>
    rw [List.map_nil, List.append_nil]
    exact h
  | cons l ls ih =>
    have hl : linesOf (flow ++ [.message l]) = linesOf flow ++ [l] := linesOf_append _ _
    rw [List.map_cons, List.append_cons]
    refine ih (h.push ?_ nofun) ?_
    · rw [hl]
      refine List.IsPrefix.trans ⟨ls, ?_⟩ hrows
      rw [List.append_assoc, List.singleton_append]
    · rw [hl, List.append_assoc, List.singleton_append]
      exact hrows

/-- A generator on the way from its cursor. -/
structure Linked (d : Store) (log : List Line) (first : ℕ) (flow : List Chunk) (c : Connection) :
    Prop where
  cursor : c.cursor = first + (linesOf flow).length
  paging : ∀ chat view rows, c.phase = .paging chat view rows → view <+: log ∧
    linesOf flow ++ rows <+: log.drop first ∧
      (d.chat.purgedAt = none → chat.status.live = false → d.chat.status.live = false ∧ view = log)

/-- The transcript up to a purge. -/
structure Logged (s : StreamState) : Prop where
  conversing : Conversing s.chat
  log : s.chat.store.chat.purgedAt = none → s.log = s.chat.store.lines
  numbered : Numbered s.log

structure Streaming (s : StreamState) : Prop extends Logged s where
  told : Told s.chat.store s.log s.first s.flow
  linked : ∀ c ∈ s.connection, Linked s.chat.store s.log s.first s.flow c

theorem Logged.lines_log (h : Logged s) : s.chat.store.lines <+: s.log := by
  by_cases hp : s.chat.store.chat.purgedAt = none
  · exact ⟨[], (List.append_nil _).trans (h.log hp).symm⟩
  · rw [h.conversing.erased hp]
    exact List.nil_prefix

theorem Sound.numbered (h : Sound d) : Numbered d.lines := by
  have hlen : d.lines.length = d.chat.lastSeq := by
    rw [← List.length_map (·.seq), h.seqs, List.length_range']
  rw [Numbered, h.seqs, hlen]

theorem prefix_drop (h : got ++ rows <+: log.drop first) :
    rows <+: log.drop (first + got.length) := by
  obtain ⟨rest, hrest⟩ := h
  refine ⟨rest, ?_⟩
  rw [← List.drop_drop, ← hrest, List.append_assoc, List.drop_left]

/-- The rows after a cursor, of a part of the transcript, go on from there. -/
theorem append_rows (hgot : got <+: log.drop first) (hlines : lines <+: log) :
    got ++ (lines.drop (first + got.length)).take n <+: log.drop first := by
  obtain ⟨rest, hrest⟩ := hgot
  obtain ⟨later, hlater⟩ := hlines
  have hdrop : log.drop (first + got.length) = rest := by
    rw [← List.drop_drop, ← hrest, List.drop_left]
  have hpre : (lines.drop (first + got.length)).take n <+: rest := by
    rw [← hdrop, ← hlater, List.drop_append]
    exact (List.take_prefix _ _).trans (List.prefix_append _ _)
  rw [← hrest]
  exact (List.prefix_append_right_inj _).2 hpre

/-- A short page of the whole transcript is its end. -/
theorem append_rows_last (hgot : got <+: log.drop first)
    (hshort : ((log.drop (first + got.length)).take n).length < n) :
    got ++ (log.drop (first + got.length)).take n = log.drop first := by
  obtain ⟨rest, hrest⟩ := hgot
  have hdrop : log.drop (first + got.length) = rest := by
    rw [← List.drop_drop, ← hrest, List.drop_left]
  rw [hdrop] at hshort ⊢
  rw [List.length_take] at hshort
  rw [List.take_of_length_le (by omega), hrest]

theorem drop_grown (h : log <+: lines) : log.drop first <+: lines.drop first := by
  obtain ⟨later, rfl⟩ := h
  rw [List.drop_append]
  exact List.prefix_append _ _

theorem Linked.of_cursor {c : Connection} (hcursor : c.cursor = first + (linesOf flow).length)
    (hphase : ∀ chat view rows, c.phase ≠ .paging chat view rows) : Linked d log first flow c :=
  ⟨hcursor, fun chat view rows hc ↦ absurd hc (hphase chat view rows)⟩

/-- A generator and what its client gets. -/
structure Played (d : Store) (log : List Line) (first : ℕ) (received : List Chunk)
    (c : Connection) : Prop where
  told : Told d log first (received ++ c.outgoing)
  linked : Linked d log first (received ++ c.outgoing) c

variable {c c' : Connection} {received : List Chunk} {chat : Chat} {agentName botName : Option ℕ}

theorem Played.push_silent (h : Played d log first received c) {chunk : Chunk} {phase : Phase}
    (hline : chunk.line = none) (hended : ∀ reason, chunk ≠ .ended reason)
    (hphase : ∀ chat view rows, phase ≠ .paging chat view rows) :
    Played d log first received { c with phase, outgoing := c.outgoing ++ [chunk] } := by
  have hflow : linesOf (received ++ (c.outgoing ++ [chunk])) = linesOf (received ++ c.outgoing) := by
    rw [← List.append_assoc, linesOf_append, linesOf, linesOf, List.filterMap_cons_none hline,
      List.filterMap_nil, List.append_nil]
  refine ⟨?_, .of_cursor ?_ hphase⟩
  · dsimp only
    rw [← List.append_assoc]
    exact h.told.push_silent hline hended
  · rw [hflow]
    exact h.linked.cursor

theorem Played.of_phase (h : Played d log first received c) {phase : Phase}
    (hphase : ∀ chat view rows, phase ≠ .paging chat view rows) :
    Played d log first received { c with phase } :=
  ⟨h.told, .of_cursor h.linked.cursor hphase⟩

theorem due_ne (chat : Chat) (view rows : List Line) : Phase.due ≠ .paging chat view rows := nofun

theorem waiting_ne (chat : Chat) (view rows : List Line) : Phase.waiting ≠ .paging chat view rows :=
  nofun

theorem closed_ne (chat : Chat) (view rows : List Line) : Phase.closed ≠ .paging chat view rows :=
  nofun

theorem heartbeat_ne (reason : Option EndReason) : Chunk.heartbeat ≠ .ended reason := nofun

theorem typing_ne (bot : Bool) (reason : Option EndReason) : Chunk.typing bot ≠ .ended reason :=
  nofun

theorem readChat_played (h : Played d log first received c) (hlog : d.chat.purgedAt = none →
    log = d.lines) : Played d log first received (c.readChat d) := by
  unfold Connection.readChat
  split
  · next hp =>
    refine ⟨h.told, h.linked.cursor, fun chat view rows hc ↦ ?_⟩
    cases hc
    refine ⟨?_, ?_, fun _ hfinal ↦ ⟨hfinal, (hlog hp).symm⟩⟩
    · exact ⟨[], (List.append_nil _).trans (hlog hp).symm⟩
    · rw [List.append_nil]
      exact h.told.lines
  · next hp =>
    have hflow : linesOf (received ++ (c.outgoing ++ [.ended d.chat.endReason])) =
        linesOf (received ++ c.outgoing) := by
      rw [← List.append_assoc, linesOf_append]
      exact List.append_nil _
    refine ⟨?_, .of_cursor ?_ closed_ne⟩
    · dsimp only
      rw [← List.append_assoc]
      refine h.told.push ?_ fun _ _ hp' ↦ absurd hp' hp
      rw [List.append_assoc, hflow]
      exact h.told.lines
    · rw [hflow]
      exact h.linked.cursor

/-- All rows since the cursor, and after them the end only when they are all. -/
theorem yieldRows_played (h : Played d log first received c)
    (hrows : linesOf (received ++ c.outgoing) ++ rows <+: log.drop first)
    (hcursor : cursor = first + (linesOf (received ++ c.outgoing) ++ rows).length)
    (hall : d.chat.purgedAt = none → chat.status.live = false →
      d.chat.status.live = false ∧ linesOf (received ++ c.outgoing) ++ rows = log.drop first) :
    Played d log first received (c.yieldRows chat rows cursor agentName botName) := by
  have htold := h.told.push_rows hrows
  have hlines : linesOf (received ++ (c.outgoing ++ rows.map .message)) =
      linesOf (received ++ c.outgoing) ++ rows := by
    rw [← List.append_assoc, linesOf_append, linesOf_messages]
  rw [← hlines] at hcursor
  have hplayed : Played d log first received
      ⟨cursor, c.sent, .waiting, c.outgoing ++ rows.map .message⟩ := by
    refine ⟨?_, .of_cursor hcursor waiting_ne⟩
    dsimp only
    rw [← List.append_assoc]
    exact htold
  unfold Connection.yieldRows
  split
  · dsimp only
    split
    · exact ⟨hplayed.told, .of_cursor hplayed.linked.cursor waiting_ne⟩
    · have hended : ∀ reason, Chunk.session (chat.shown agentName botName).1
          (chat.shown agentName botName).2.1 (chat.shown agentName botName).2.2 ≠
          .ended reason := nofun
      have hsilent := hplayed.push_silent rfl hended waiting_ne
      exact ⟨hsilent.told, .of_cursor hsilent.linked.cursor waiting_ne⟩
  · next hfinal =>
    rw [Bool.not_eq_true] at hfinal
    have hflow : linesOf (received ++ (c.outgoing ++ rows.map .message ++ [.ended chat.endReason])) =
        linesOf (received ++ (c.outgoing ++ rows.map .message)) := by
      rw [← List.append_assoc, linesOf_append]
      exact List.append_nil _
    refine ⟨?_, .of_cursor ?_ closed_ne⟩
    · dsimp only
      rw [← List.append_assoc]
      refine hplayed.told.push ?_ fun reason _ hp ↦ ?_
      · rw [List.append_assoc, hflow]
        exact hplayed.told.lines
      · obtain ⟨hd, hdone⟩ := hall hp hfinal
        exact ⟨hd, hlines.trans hdone⟩
    · rw [hflow]
      exact hcursor

theorem readPage_played (h : Played d log first received c) (hnumbered : Numbered log)
    (hpart : d.lines <+: log) (hlog : d.chat.purgedAt = none → log = d.lines)
    (hpage : c.readPage isolation d.lines agentName botName = some c') :
    Played d log first received c' := by
  unfold Connection.readPage at hpage
  split at hpage
  · next chat view rows hphase =>
    obtain ⟨hview, hrows, hfinal⟩ := h.linked.paging chat view rows hphase
    have hsrc : isolation.visible view d.lines <+: log := by
      cases isolation with
      | readCommitted => exact hpart
      | snapshot => exact hview
    have hsrc_all : d.chat.purgedAt = none → chat.status.live = false →
        isolation.visible view d.lines = log := by
      intro hp hlive
      cases isolation with
      | readCommitted => exact (hlog hp).symm
      | snapshot => exact (hfinal hp hlive).2
    have hafter : ∀ rows, linesOf (received ++ c.outgoing) ++ rows <+: log.drop first →
        cursorAfter c.cursor rows = first + (linesOf (received ++ c.outgoing) ++ rows).length := by
      intro rows hrows
      have hlast := prefix_drop hrows
      rw [← h.linked.cursor] at hlast
      rw [hnumbered.cursorAfter hlast, h.linked.cursor, List.length_append, Nat.add_assoc]
    have hfound : loadMessagesSince (isolation.visible view d.lines) (cursorAfter c.cursor rows)
        page = ((isolation.visible view d.lines).drop (cursorAfter c.cursor rows)).take page :=
      (hnumbered.of_prefix hsrc).loadMessagesSince
    dsimp only at hpage
    generalize loadMessagesSince (isolation.visible view d.lines) (cursorAfter c.cursor rows) page =
      found at hpage hfound
    rw [hafter rows hrows] at hfound
    have happend : linesOf (received ++ c.outgoing) ++ (rows ++ found) <+: log.drop first := by
      rw [← List.append_assoc, hfound]
      exact append_rows hrows hsrc
    split at hpage
    · next hshort =>
      cases hpage
      refine yieldRows_played h happend (hafter _ happend) fun hp hlive ↦ ⟨(hfinal hp hlive).1, ?_⟩
      rw [hsrc_all hp hlive] at hfound
      rw [hfound] at hshort
      rw [← List.append_assoc, hfound]
      exact append_rows_last hrows hshort
    · cases hpage
      refine ⟨h.told, h.linked.cursor, fun chat' view' rows' hc ↦ ?_⟩
      cases hc
      exact ⟨hview, happend, hfinal⟩
  · cases hpage

/-- What a transaction makes of the transcript. -/
structure Grown (d d' : Store) (log log' : List Line) : Prop where
  lines : log <+: log'
  store : d'.chat.purgedAt = none → d.chat.purgedAt = none ∧ Extends d d'
  final : d'.chat.purgedAt = none → d.chat.status.live = false → log' = log

variable {log' : List Line}

theorem Grown.final_status (h : Grown d d' log log') (hp : d'.chat.purgedAt = none)
    (hfinal : d.chat.status.live = false) : d'.chat.status.live = false := by
  rw [((h.store hp).2.final hfinal).1]
  exact hfinal

theorem Told.grown (h : Told d log first flow) (hg : Grown d d' log log') :
    Told d' log' first flow := by
  refine ⟨h.lines.trans (drop_grown hg.lines), fun pre reason hpre hp ↦ ?_⟩
  obtain ⟨hfinal, hdone⟩ := h.ended pre reason hpre (hg.store hp).1
  refine ⟨hg.final_status hp hfinal, ?_⟩
  rw [hg.final hp hfinal]
  exact hdone

theorem Linked.grown (h : Linked d log first flow c) (hg : Grown d d' log log') :
    Linked d' log' first flow c := by
  refine ⟨h.cursor, fun chat view rows hc ↦ ?_⟩
  obtain ⟨hview, hrows, hall⟩ := h.paging chat view rows hc
  refine ⟨hview.trans hg.lines, hrows.trans (drop_grown hg.lines), fun hp hlive ↦ ?_⟩
  obtain ⟨hfinal, hdone⟩ := hall (hg.store hp).1 hlive
  refine ⟨hg.final_status hp hfinal, ?_⟩
  rw [hg.final hp hfinal]
  exact hdone

theorem write_grown (h : Logged s) {a : ChatAction} {chat' : ChatState}
    (hnext : s.chat.next a = some chat') :
    Grown s.chat.store chat'.store s.log
      (if chat'.store.chat.purgedAt = none then chat'.store.lines else s.log) := by
  have hstore : chat'.store.chat.purgedAt = none → s.chat.store.chat.purgedAt = none ∧
      Extends s.chat.store chat'.store := by
    intro hp
    obtain ⟨hp', hkept⟩ := next_kept h.conversing hnext hp
    exact ⟨hp', hkept.extends_store⟩
  refine ⟨?_, hstore, fun hp hfinal ↦ ?_⟩
  · split
    · next hp =>
      obtain ⟨hp', hext⟩ := hstore hp
      rw [h.log hp']
      exact hext.lines
    · exact List.prefix_refl _
  · obtain ⟨hp', hext⟩ := hstore hp
    rw [if_pos hp, h.log hp', (hext.final hfinal).2.2.2]

theorem Streaming.played (h : Streaming s) (hc : s.connection = some c) :
    Played s.chat.store s.log s.first s.received c := by
  have hflow : s.flow = s.received ++ c.outgoing := by
    rw [StreamState.flow, hc]
    rfl
  have htold := h.told
  have hlinked := h.linked c hc
  rw [hflow] at htold hlinked
  exact ⟨htold, hlinked⟩

theorem Logged.connected (h : Logged s) (hp : Played s.chat.store s.log s.first s.received c) :
    Streaming { s with connection := some c } := by
  refine ⟨⟨h.conversing, h.log, h.numbered⟩, hp.told, fun c' hc' ↦ ?_⟩
  cases hc'
  exact hp.linked

theorem write_streaming (h : Streaming s) {a : ChatAction} {chat' : ChatState}
    (hnext : s.chat.next a = some chat') :
    Streaming
      { s with
        chat := chat'
        log := if chat'.store.chat.purgedAt = none then chat'.store.lines else s.log } := by
  have hg := write_grown h.toLogged hnext
  have hconversing := next_conversing h.conversing hnext
  refine ⟨⟨hconversing, fun hp ↦ if_pos hp, ?_⟩, h.told.grown hg, fun c hc ↦ (h.linked c hc).grown hg⟩
  dsimp only
  split
  · next hp => exact (hconversing.sound hp).numbered
  · exact h.numbered

theorem connect_streaming (h : Streaming s) (hnone : s.connection = none) :
    Streaming { s with connection := some (.opened s.resume) } := by
  have hflow : s.flow = s.received := by
    rw [StreamState.flow, hnone]
    exact List.append_nil _
  have htold := h.told
  rw [hflow] at htold
  have hopened : s.received ++ (Connection.opened s.resume).outgoing = s.received :=
    List.append_nil _
  refine h.toLogged.connected ⟨?_, ?_⟩
  · rw [hopened]
    exact htold
  · rw [hopened]
    refine ⟨?_, fun chat view rows hc ↦ ?_⟩
    · exact h.numbered.cursorAfter htold.lines
    · cases hc

theorem receive_streaming (h : Streaming s) {chunk : Chunk} {outgoing : List Chunk}
    (hc : s.connection = some c) (hout : c.outgoing = chunk :: outgoing) :
    Streaming
      { s with received := s.received ++ [chunk], connection := some { c with outgoing } } := by
  have hp := h.played hc
  have hflow : s.received ++ [chunk] ++ outgoing = s.received ++ c.outgoing := by
    rw [hout, List.append_assoc, List.singleton_append]
  have hlogged : Logged { s with received := s.received ++ [chunk] } :=
    ⟨h.conversing, h.log, h.numbered⟩
  refine hlogged.connected ⟨?_, ?_⟩
  · dsimp only
    rw [hflow]
    exact hp.told
  · dsimp only
    rw [hflow]
    exact ⟨hp.linked.cursor, hp.linked.paging⟩

theorem next_streaming (h : Streaming s) {a : StreamAction} (hnext : s.next isolation a = some t) :
    Streaming t ∧ t.first = s.first := by
  cases a with
  | write a =>
    rw [StreamState.next, Option.bind_eq_bind, Option.bind_eq_some_iff] at hnext
    obtain ⟨chat', hchat, hnext⟩ := hnext
    cases hnext
    exact ⟨write_streaming h hchat, rfl⟩
  | connect =>
    rw [StreamState.next] at hnext
    split at hnext
    · next hnone =>
      cases hnext
      exact ⟨connect_streaming h hnone, rfl⟩
    · cases hnext
  | readChat =>
    rw [StreamState.next] at hnext
    split at hnext
    · next c hc =>
      split at hnext
      · cases hnext
        exact ⟨h.toLogged.connected (readChat_played (h.played hc) h.log), rfl⟩
      · cases hnext
    · cases hnext
  | readPage agentName botName =>
    rw [StreamState.next, Option.bind_eq_bind, Option.bind_eq_some_iff] at hnext
    obtain ⟨c, hc, hnext⟩ := hnext
    rw [Option.bind_eq_some_iff] at hnext
    obtain ⟨c', hpage, hnext⟩ := hnext
    cases hnext
    exact ⟨h.toLogged.connected
      (readPage_played (h.played hc) h.numbered h.lines_log h.log hpage), rfl⟩
  | wake =>
    rw [StreamState.next] at hnext
    split at hnext
    · next c hc =>
      split at hnext
      · cases hnext
        exact ⟨h.toLogged.connected ((h.played hc).of_phase due_ne), rfl⟩
      · cases hnext
    · cases hnext
  | heartbeat =>
    rw [StreamState.next] at hnext
    split at hnext
    · next c hc =>
      split at hnext
      · cases hnext
        exact ⟨h.toLogged.connected ((h.played hc).push_silent rfl heartbeat_ne due_ne), rfl⟩
      · cases hnext
    · cases hnext
  | typing bot =>
    rw [StreamState.next] at hnext
    split at hnext
    · next c hc =>
      split at hnext
      · next hwaiting =>
        cases hnext
        have hphase : ∀ chat view rows, c.phase ≠ .paging chat view rows := by
          rw [hwaiting]
          exact waiting_ne
        exact ⟨h.toLogged.connected ((h.played hc).push_silent rfl (typing_ne bot) hphase), rfl⟩
      · cases hnext
    · cases hnext
  | close =>
    rw [StreamState.next, Option.map_eq_some_iff] at hnext
    obtain ⟨c, hc, rfl⟩ := hnext
    exact ⟨h.toLogged.connected ((h.played hc).of_phase closed_ne), rfl⟩
  | receive =>
    rw [StreamState.next] at hnext
    split at hnext
    · next c hc =>
      split at hnext
      · next chunk outgoing hout =>
        cases hnext
        exact ⟨receive_streaming h hc hout, rfl⟩
      · cases hnext
    · cases hnext
  | cut =>
    rw [StreamState.next, Option.map_eq_some_iff] at hnext
    obtain ⟨c, hc, rfl⟩ := hnext
    refine ⟨⟨⟨h.conversing, h.log, h.numbered⟩, h.told.of_prefix ?_, fun c' hc' ↦ ?_⟩, rfl⟩
    · rw [StreamState.flow, StreamState.flow]
      dsimp only
      rw [Option.elim_none, List.append_nil]
      exact List.prefix_append _ _
    · cases hc'

/-- The messages received are lines of the transcript after the first cursor, without a gap and
none twice; an end is sent after all of them, unless the session was purged. -/
theorem stream_replays {as : List StreamAction} (hs : (streams isolation).init s)
    (hr : (streams isolation).Run s as t) :
    t.log.map (·.seq) = List.range' 1 t.log.length ∧
      (t.chat.store.chat.purgedAt = none → t.log = t.chat.store.lines) ∧
      t.received.filterMap Chunk.line <+: t.log.filter (fun l ↦ s.first < l.seq) ∧
      ∀ pre reason, pre ++ [.ended reason] <+: t.flow → t.chat.store.chat.purgedAt = none →
        pre.filterMap Chunk.line = t.log.filter fun l ↦ s.first < l.seq := by
  have h : Streaming t ∧ t.first = s.first := by
    refine hr.invariant (I := fun u ↦ Streaming u ∧ u.first = s.first) ?_ ⟨?_, rfl⟩
    · intro u a v hu hst
      obtain ⟨hv, hfirst⟩ := next_streaming hu.1 hst
      exact ⟨hv, hfirst.trans hu.2⟩
    · obtain ⟨hcreated, hlog, hreceived, hconnection⟩ := hs
      have hconversing := created_conversing hcreated
      have hflow : s.flow = [] := by
        rw [StreamState.flow, hreceived, hconnection]
        rfl
      refine ⟨⟨hconversing, fun _ ↦ hlog, ?_⟩, ⟨?_, fun pre reason hpre ↦ ?_⟩, fun c hc ↦ ?_⟩
      · rw [hlog]
        exact (created_sound hcreated).1.numbered
      · rw [hflow]
        exact List.nil_prefix
      · rw [hflow] at hpre
        exact absurd (List.eq_nil_of_prefix_nil hpre) (List.concat_ne_nil _ _)
      · rw [hconnection] at hc
        cases hc
  obtain ⟨h, hfirst⟩ := h
  have hreceived : Told t.chat.store t.log t.first t.received :=
    h.told.of_prefix (List.prefix_append _ _)
  rw [h.numbered.filter_seq, ← hfirst]
  exact ⟨h.numbered, h.log, hreceived.lines,
    fun pre reason hpre hp ↦ (h.told.ended pre reason hpre hp).2⟩

def listening : StreamState := ⟨asked, asked.store.lines, 0, [], none⟩

/-- The first connection is cut off before it hears of the end; the second one replays the rest. -/
def listen : List StreamAction :=
  [.connect, .readChat, .readPage none none, .receive, .write (.execute (.endByVisitor 130) 7),
    .wake, .readChat, .write .commit, .readPage none none, .cut, .connect, .readChat,
    .readPage none none, .receive]

def listened : StreamState := (listen.foldlM (StreamState.next .readCommitted) listening).getD listening

theorem stream_replays_sample :
    listened.received.filterMap (fun chunk ↦ chunk.line.map (·.seq)) = [1, 2] ∧
      listened.received.filterMap Chunk.line <+: listened.log.filter fun l ↦ 0 < l.seq := by
  have hrun : ((streams .readCommitted).restrict fun _ _ ↦ True).Run listening listen listened :=
    Machine.run_of_foldlM listen (by decide +kernel)
  have hinit : (streams .readCommitted).init listening :=
    ⟨⟨rfl, 1, 100, .inl ⟨false, false, false, some 5, by decide⟩⟩, rfl, rfl, rfl⟩
  exact ⟨by decide +kernel, (stream_replays hinit hrun.of_restrict).2.2.1⟩

end Tiqora.Webchat
