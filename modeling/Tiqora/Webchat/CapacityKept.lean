import Tiqora.Webchat.Capacity
import Tiqora.Webchat.TranscriptKept

namespace Tiqora.Webchat

open Foundation

/-- An agent may accept the chat. -/
def Status.acceptable : Status → Bool
  | .waiting | .bot => true
  | .active | .ended | .abandoned => false

/-- A transaction that gives the chat to nobody. -/
structure Stays (d d' : Store) : Prop where
  assigned : d'.chat.assignedUserId = d.chat.assignedUserId
  active : d'.chat.status = .active → d.chat.status = .active
  acceptable : d'.chat.status.acceptable = true → d.chat.status.acceptable = true

variable {d d' d'' : Store} {w : Write} {s t : Desk} {isolation : Isolation}

theorem Stays.of_eq (hassigned : d'.chat.assignedUserId = d.chat.assignedUserId)
    (hstatus : d'.chat.status = d.chat.status) : Stays d d' :=
  ⟨hassigned, fun h ↦ hstatus.symm.trans h, fun h ↦ by rwa [hstatus] at h⟩

theorem Stays.refl (d : Store) : Stays d d := .of_eq rfl rfl

theorem Stays.trans (h : Stays d d') (h' : Stays d' d'') : Stays d d'' :=
  ⟨h'.assigned.trans h.assigned, fun ha ↦ h.active (h'.active ha),
    fun ha ↦ h.acceptable (h'.acceptable ha)⟩

theorem insertMessage_stays {sender : Sender} {code : Option SystemCode}
    {articleId clientId : Option ℕ}
    (h : d.insertMessage sender code articleId clientId w = .ok d') : Stays d d' := by
  obtain ⟨-, rfl⟩ := insertMessage_eq_ok h
  exact .of_eq rfl rfl

theorem addSystemMessage_stays {c : SystemCode} (h : d.addSystemMessage c w = .ok d') :
    Stays d d' := insertMessage_stays h

theorem touchVisitorLastSeen_stays (d : Store) (now : ℕ) : Stays d (d.touchVisitorLastSeen now) := by
  unfold Store.touchVisitorLastSeen
  split
  · exact .of_eq rfl rfl
  · exact .refl d

theorem storeVisitorLine_stays {clientId : Option ℕ} (h : d.storeVisitorLine clientId w = .ok d') :
    Stays d d' := by
  rw [Store.storeVisitorLine] at h
  split at h
  · next d₁ hins =>
    cases h
    have hins : Stays d d₁ := by
      obtain ⟨-, rfl⟩ := insertMessage_eq_ok hins
      exact .of_eq rfl rfl
    refine hins.trans ?_
    unfold Store.markVisitor
    split
    · exact .of_eq rfl rfl
    · exact .refl _
  · split at h
    · cases h
    · split at h
      · cases h
        exact .refl _
      · cases h

theorem postVisitorMessage_stays {clientId : Option ℕ} {view now : ℕ}
    (h : d.postVisitorMessage clientId view now w = .ok d') : Stays d d' := by
  rw [Store.postVisitorMessage] at h
  obtain ⟨-, h⟩ := require_bind_eq_ok.1 h
  split at h
  · cases h
    exact .refl _
  · obtain ⟨-, hstore⟩ := require_bind_eq_ok.1 h
    exact (touchVisitorLastSeen_stays d now).trans (storeVisitorLine_stays hstore)

theorem handOffChat_stays {reason : HandoffReason} {humans note : Bool} {now : ℕ}
    (h : d.handOffChat reason humans note now w = .ok d') : Stays d d' := by
  rw [Store.handOffChat] at h
  split at h
  · next hbot =>
    obtain ⟨d₂, hadd, h⟩ := bind_eq_ok.1 h
    have hrow : Stays d { d with chat := d.chat.handedOff reason humans now } := by
      have hacceptable : d.chat.status.acceptable = true := by
        rw [hbot.2]
        rfl
      refine ⟨?_, fun hactive ↦ ?_, fun _ ↦ hacceptable⟩
      · cases humans <;> rfl
      · cases humans <;> cases hactive
    have hadded : Stays d d₂ := by
      cases note with
      | true =>
        have hnote : Stays { d with chat := d.chat.handedOff reason humans now } d₂ := by
          obtain ⟨-, rfl⟩ := insertMessage_eq_ok hadd
          exact .of_eq rfl rfl
        exact hrow.trans hnote
      | false => exact hrow.trans (addSystemMessage_stays hadd)
    split at h
    · cases h
      exact hadded
    · exact hadded.trans (addSystemMessage_stays h)
  · cases h
    exact .refl _

theorem close_stays {status : Status} (reason : EndReason) (now : ℕ)
    (hstatus : status.live = false) : Stays d (d.close status reason now) := by
  refine ⟨rfl, fun h ↦ ?_, fun h ↦ ?_⟩
  · have hs : status = .active := h
    rw [hs] at hstatus
    cases hstatus
  · have hs : status.acceptable = true := h
    cases status with
    | waiting => cases hstatus
    | bot => cases hstatus
    | active => cases hs
    | ended => cases hs
    | abandoned => cases hs

theorem Op.run_stays {op : Op} (hop : op.isAccept = false) (h : op.run d w = .ok d') :
    Stays d d' := by
  cases op with
  | postVisitorMessage clientId view now => exact postVisitorMessage_stays h
  | storeVisitorAttachment clientId view now => exact postVisitorMessage_stays h
  | acceptSession userId held maxConcurrent allowed allowedNow now => cases hop
  | deliverAgentChatReply =>
    rw [Op.run, Store.deliverAgentChatReply] at h
    obtain ⟨-, h⟩ := require_bind_eq_ok.1 h
    obtain ⟨-, hins⟩ := require_bind_eq_ok.1 h
    obtain ⟨-, rfl⟩ := insertMessage_eq_ok hins
    exact .of_eq rfl rfl
  | deliverBotChatReply =>
    rw [Op.run, Store.deliverBotChatReply] at h
    obtain ⟨-, hins⟩ := require_bind_eq_ok.1 h
    obtain ⟨-, rfl⟩ := insertMessage_eq_ok hins
    exact .of_eq rfl rfl
  | handOffChat reason humans note now => exact handOffChat_stays h
  | endByVisitor now =>
    rw [Op.run, Store.endByVisitor] at h
    obtain ⟨-, h⟩ := require_bind_eq_ok.1 h
    split at h
    · obtain ⟨-, rfl⟩ := insertMessage_eq_ok h
      exact (close_stays .visitor now rfl).trans (.of_eq rfl rfl)
    · cases h
      exact .refl _
  | endSessionByAgent userId mayWrite closeTicket now =>
    rw [Op.run, Store.endSessionByAgent] at h
    obtain ⟨-, h⟩ := require_bind_eq_ok.1 h
    split at h
    · obtain ⟨-, hadd⟩ := require_bind_eq_ok.1 h
      exact (close_stays .agent now rfl).trans (addSystemMessage_stays hadd)
    · cases h
      exact .refl _
  | setContact now =>
    rw [Op.run, Store.setContact] at h
    obtain ⟨-, h⟩ := require_bind_eq_ok.1 h
    obtain ⟨-, h⟩ := require_bind_eq_ok.1 h
    cases h
    have hrow : Stays d { d with chat := { d.chat with hasEmail := true } } := .of_eq rfl rfl
    exact hrow.trans (touchVisitorLastSeen_stays _ now)
  | touch now =>
    cases h
    exact touchVisitorLastSeen_stays d now
  | timeOutWaiting cutoff now =>
    rw [Op.run, Store.timeOutWaiting] at h
    obtain ⟨-, h⟩ := require_bind_eq_ok.1 h
    split at h
    · exact (close_stays .noAgent now rfl).trans (addSystemMessage_stays h)
    · cases h
      exact .refl _
  | abandonIdle now =>
    rw [Op.run, Store.abandonIdle] at h
    obtain ⟨-, h⟩ := require_bind_eq_ok.1 h
    split at h
    · exact (close_stays .idle now rfl).trans (addSystemMessage_stays h)
    · cases h
      exact .refl _
  | purge cutoff now =>
    rw [Op.run, Store.purge] at h
    obtain ⟨-, h⟩ := require_bind_eq_ok.1 h
    split at h
    · cases h
      exact .of_eq rfl rfl
    · cases h
      exact .refl _

/-- An accept takes a chat that waits or that the bot answers. -/
theorem acceptSession_spec {userId held maxConcurrent now : ℕ} {allowed allowedNow : Bool}
    (h : d.acceptSession userId held maxConcurrent allowed allowedNow now w = .ok d') :
    d.chat.status.acceptable = true ∧ held < maxConcurrent ∧
      d'.chat.assignedUserId = some userId ∧ d'.chat.status = .active := by
  rw [Store.acceptSession] at h
  obtain ⟨-, h⟩ := require_bind_eq_ok.1 h
  obtain ⟨-, h⟩ := require_bind_eq_ok.1 h
  obtain ⟨hheld, h⟩ := require_bind_eq_ok.1 h
  obtain ⟨hstatus, h⟩ := require_bind_eq_ok.1 h
  obtain ⟨-, hadd⟩ := require_bind_eq_ok.1 h
  obtain ⟨-, rfl⟩ := insertMessage_eq_ok hadd
  refine ⟨?_, hheld, rfl, rfl⟩
  rcases hstatus with hs | hs
  · rw [hs]
    rfl
  · rw [hs]
    rfl

theorem createSession_status {bot hasEmail identified : Bool} {clientId : Option ℕ} {now : ℕ}
    (h : Store.createSession bot hasEmail identified clientId now w = .ok d) :
    d.chat.status ≠ .active := by
  have hopened : (Store.opened false bot hasEmail identified now w).chat.status ≠ .active := by
    cases bot with
    | true => exact nofun
    | false => exact nofun
  rw [Store.createSession] at h
  obtain ⟨d₁, hins, h⟩ := bind_eq_ok.1 h
  obtain ⟨-, rfl⟩ := insertMessage_eq_ok hins
  split at h
  · obtain ⟨-, rfl⟩ := insertMessage_eq_ok h
    exact hopened
  · cases h
    exact hopened

/-- No two calls hold one row. -/
def Exclusive (row : Call → Option ℕ) (calls : Table ℕ Call) : Prop :=
  ∀ c ∈ calls.rows, ∀ c' ∈ calls.rows, (row c.2).isSome → row c.2 = row c'.2 → c.1 = c'.1

/-- What a call relies on, by the committed sessions. -/
def Call.Holds (sessions : Table ℕ Store) : Call → Prop
  | .stateLocked .. | .setting .. => True
  | .counted userId _ _ held _ | .checked userId _ _ held => activeCount sessions userId ≤ held
  | .accepted userId sessionId maxConcurrent work =>
    activeCount sessions userId < maxConcurrent ∧ work.chat.assignedUserId = some userId ∧
      work.chat.status = .active ∧
      ∃ d, sessions.find sessionId = some d ∧ d.chat.status.acceptable = true
  | .writing sessionId work => ∃ d, sessions.find sessionId = some d ∧ Stays d work

structure Serving (s : Desk) : Prop where
  agentRow : Exclusive Call.agent s.calls
  sessionRow : Exclusive Call.session s.calls
  calls : ∀ c ∈ s.calls.rows, c.2.Holds s.sessions
  within : ∀ a ∈ s.accepts, a.active ≤ a.maxConcurrent
  taken : ∀ a ∈ s.accepts, ∃ d, s.sessions.find a.sessionId = some d ∧
    d.chat.status.acceptable = false
  once : (s.accepts.map (·.sessionId)).Nodup

variable {row : Call → Option ℕ} {calls : Table ℕ Call} {call userId sessionId : ℕ} {x y : Call}
  {S : Table ℕ Store} {work : Store}

theorem mem_enter {c : ℕ × Call} : c ∈ (calls.set call (some x)).rows ↔
    (c ∈ calls.rows ∧ c.1 ≠ call) ∨ (c.1 = call ∧ c.2 = x) := by
  obtain ⟨k, y⟩ := c
  rw [Table.mem_set, Option.some_inj]
  exact or_congr_right (and_congr_right fun _ ↦ eq_comm)

theorem mem_leave {c : ℕ × Call} :
    c ∈ (calls.set call none).rows ↔ c ∈ calls.rows ∧ c.1 ≠ call := by
  obtain ⟨k, y⟩ := c
  rw [Table.mem_set]
  exact or_iff_left nofun

theorem Exclusive.leave (h : Exclusive row calls) : Exclusive row (calls.set call none) :=
  fun _ hc _ hc' ↦ h _ (mem_leave.1 hc).1 _ (mem_leave.1 hc').1

theorem Exclusive.enter (h : Exclusive row calls)
    (hfree : ∀ c ∈ calls.rows, c.1 ≠ call → (row x).isSome → row c.2 ≠ row x) :
    Exclusive row (calls.set call (some x)) := by
  intro c hc c' hc' hsome heq
  rcases mem_enter.1 hc with ⟨hc, hne⟩ | ⟨hcall, hx⟩
  · rcases mem_enter.1 hc' with ⟨hc', -⟩ | ⟨-, hx'⟩
    · exact h c hc c' hc' hsome heq
    · rw [hx'] at heq
      rw [heq] at hsome
      exact absurd heq (hfree c hc hne hsome)
  · rcases mem_enter.1 hc' with ⟨hc', hne'⟩ | ⟨hcall', -⟩
    · rw [hx] at heq hsome
      exact absurd heq.symm (hfree c' hc' hne' hsome)
    · rw [hcall, hcall']

/-- The call that goes on holds the row already. -/
theorem Exclusive.goes_on (h : Exclusive row calls) (hy : (call, y) ∈ calls.rows)
    (heq : row x = row y) : Exclusive row (calls.set call (some x)) := by
  refine h.enter fun c hc hne hsome hrow ↦ hne ?_
  refine h c hc (call, y) hy ?_ (hrow.trans heq)
  rw [hrow]
  exact hsome

theorem Exclusive.without (h : Exclusive row calls) (hnone : row x = none) :
    Exclusive row (calls.set call (some x)) := by
  refine h.enter fun c _ _ hsome ↦ ?_
  rw [hnone] at hsome
  cases hsome

theorem Exclusive.takes (h : Exclusive row calls) {k : ℕ} (hrow : row x = some k)
    (hfree : ∀ c ∈ calls.rows, row c.2 ≠ some k) : Exclusive row (calls.set call (some x)) := by
  refine h.enter fun c hc _ _ ↦ ?_
  rw [hrow]
  exact hfree c hc

theorem Serving.enter (h : Serving s) (hagent : Exclusive Call.agent (s.calls.set call (some x)))
    (hsession : Exclusive Call.session (s.calls.set call (some x))) (hx : x.Holds s.sessions) :
    Serving (s.enter call x) := by
  refine ⟨hagent, hsession, fun c hc ↦ ?_, h.within, h.taken, h.once⟩
  rcases mem_enter.1 hc with ⟨hc, -⟩ | ⟨-, heq⟩
  · exact h.calls c hc
  · rw [heq]
    exact hx

theorem Serving.leave (h : Serving s) : Serving (s.leave call) :=
  ⟨h.agentRow.leave, h.sessionRow.leave, fun c hc ↦ h.calls c (mem_leave.1 hc).1, h.within, h.taken,
    h.once⟩

theorem serves_iff : d.serves userId = true ↔
    d.chat.assignedUserId = some userId ∧ d.chat.status = .active := by
  rw [Store.serves, Bool.and_eq_true, decide_eq_true_eq, decide_eq_true_eq]

theorem activeCount_set_le (hfind : S.find sessionId = some d)
    (hserves : work.serves userId = true → d.serves userId = true) :
    activeCount (S.set sessionId (some work)) userId ≤ activeCount S userId := by
  have hcount : (S.set sessionId (some work)).rows.countP (fun r ↦ r.2.serves userId) +
      (if d.serves userId then 1 else 0) = S.rows.countP (fun r ↦ r.2.serves userId) +
      (if work.serves userId then 1 else 0) := Table.countP_set (Store.serves userId) hfind
  rw [activeCount, activeCount]
  cases hw : work.serves userId with
  | true =>
    rw [hserves hw, hw] at hcount
    omega
  | false =>
    rw [hw, if_neg Bool.false_ne_true] at hcount
    omega

/-- A commit on a session row leaves the other calls what they rely on. -/
theorem Call.Holds.set (h : x.Holds S) (hfind : S.find sessionId = some d)
    (hsession : x.session ≠ some sessionId)
    (hserves : ∀ u ∈ x.agent, work.serves u = true → d.serves u = true) :
    x.Holds (S.set sessionId (some work)) := by
  cases x with
  | stateLocked userId sid maxConcurrent => trivial
  | setting userId maxConcurrent => trivial
  | counted userId sid maxConcurrent held view =>
    have hle := activeCount_set_le hfind (hserves userId rfl)
    exact hle.trans h
  | checked userId sid maxConcurrent held =>
    have hle := activeCount_set_le hfind (hserves userId rfl)
    exact hle.trans h
  | accepted userId sid maxConcurrent work' =>
    obtain ⟨hlt, hassigned, hactive, d', hfind', hacceptable⟩ := h
    have hne : sid ≠ sessionId := fun heq ↦ hsession (congrArg some heq)
    refine ⟨(activeCount_set_le hfind (hserves userId rfl)).trans_lt hlt, hassigned, hactive, d', ?_,
      hacceptable⟩
    rw [Table.find_set_of_ne hne]
    exact hfind'
  | writing sid work' =>
    obtain ⟨d', hfind', hstays⟩ := h
    have hne : sid ≠ sessionId := fun heq ↦ hsession (congrArg some heq)
    refine ⟨d', ?_, hstays⟩
    rw [Table.find_set_of_ne hne]
    exact hfind'

theorem commit_writing_serving (h : Serving s) (hc : (call, .writing sessionId work) ∈ s.calls.rows) :
    Serving { s.leave call with sessions := s.sessions.set sessionId (some work) } := by
  obtain ⟨d, hfind, hstays⟩ := h.calls _ hc
  have hserves : ∀ u, work.serves u = true → d.serves u = true := by
    intro u hu
    obtain ⟨hassigned, hactive⟩ := serves_iff.1 hu
    exact serves_iff.2 ⟨hstays.assigned.symm.trans hassigned, hstays.active hactive⟩
  refine ⟨h.agentRow.leave, h.sessionRow.leave, fun c hc' ↦ ?_, h.within, fun a ha ↦ ?_, h.once⟩
  · obtain ⟨hc', hne⟩ := mem_leave.1 hc'
    refine (h.calls c hc').set hfind (fun hsession ↦ hne ?_) fun u _ ↦ hserves u
    refine h.sessionRow c hc' _ hc ?_ hsession
    rw [hsession]
    rfl
  · obtain ⟨d', hfind', htaken⟩ := h.taken a ha
    by_cases heq : a.sessionId = sessionId
    · rw [heq] at hfind' ⊢
      cases hfind.symm.trans hfind'
      refine ⟨work, Table.find_set_self, ?_⟩
      cases hwork : work.chat.status.acceptable with
      | false => rfl
      | true =>
        rw [hstays.acceptable hwork] at htaken
        cases htaken
    · refine ⟨d', ?_, htaken⟩
      rw [← hfind']
      exact Table.find_set_of_ne heq

theorem commit_accepted_serving (h : Serving s) {maxConcurrent : ℕ}
    (hc : (call, .accepted userId sessionId maxConcurrent work) ∈ s.calls.rows) :
    Serving { s.leave call with
      sessions := s.sessions.set sessionId (some work)
      accepts := s.accepts ++ [⟨sessionId, userId, maxConcurrent,
        activeCount (s.sessions.set sessionId (some work)) userId⟩] } := by
  obtain ⟨hlt, hassigned, hactive, d, hfind, hacceptable⟩ := h.calls _ hc
  have hother : ∀ a ∈ s.accepts, a.sessionId ≠ sessionId := by
    intro a ha heq
    obtain ⟨d', hfind', htaken⟩ := h.taken a ha
    rw [heq, hfind] at hfind'
    cases hfind'
    rw [hacceptable] at htaken
    cases htaken
  have hidle : d.serves userId = false := by
    cases hd : d.serves userId with
    | false => rfl
    | true =>
      rw [(serves_iff.1 hd).2] at hacceptable
      cases hacceptable
  have hcount : activeCount (s.sessions.set sessionId (some work)) userId =
      activeCount s.sessions userId + 1 := by
    have hset : (s.sessions.set sessionId (some work)).rows.countP (fun r ↦ r.2.serves userId) +
        (if d.serves userId then 1 else 0) = s.sessions.rows.countP (fun r ↦ r.2.serves userId) +
        (if work.serves userId then 1 else 0) := Table.countP_set (Store.serves userId) hfind
    rw [hidle, serves_iff.2 ⟨hassigned, hactive⟩] at hset
    exact hset
  refine ⟨h.agentRow.leave, h.sessionRow.leave, fun c hc' ↦ ?_, fun a ha ↦ ?_, fun a ha ↦ ?_, ?_⟩
  · obtain ⟨hc', hne⟩ := mem_leave.1 hc'
    refine (h.calls c hc').set hfind (fun hsession ↦ hne ?_) fun u hu hserves ↦ absurd ?_ hne
    · refine h.sessionRow c hc' _ hc ?_ hsession
      rw [hsession]
      rfl
    · have hu' : some userId = some u := hassigned.symm.trans (serves_iff.1 hserves).1
      refine h.agentRow c hc' _ hc ?_ ?_
      · rw [hu]
        rfl
      · exact hu.trans hu'.symm
  · rcases List.mem_append.1 ha with ha | ha
    · exact h.within a ha
    · cases List.mem_singleton.1 ha
      dsimp only
      omega
  · rcases List.mem_append.1 ha with ha | ha
    · obtain ⟨d', hfind', htaken⟩ := h.taken a ha
      refine ⟨d', ?_, htaken⟩
      rw [← hfind']
      exact Table.find_set_of_ne (hother a ha)
    · cases List.mem_singleton.1 ha
      refine ⟨work, Table.find_set_self, ?_⟩
      rw [hactive]
      rfl
  · dsimp only
    rw [List.map_append]
    refine h.once.append (List.nodup_singleton _) ?_
    intro sid hsid hnew
    obtain ⟨a, ha, rfl⟩ := List.mem_map.1 hsid
    exact hother a ha (List.mem_singleton.1 hnew)

/-- A new chat is nobody's. -/
theorem createSession_serving (h : Serving s) (hnew : s.sessions.find sessionId = none)
    (hstatus : d.chat.status ≠ .active) (transactions : ℕ) :
    Serving { s with sessions := s.sessions.set sessionId (some d), transactions } := by
  have hfind : ∀ sid d', s.sessions.find sid = some d' →
      (s.sessions.set sessionId (some d)).find sid = some d' := by
    intro sid d' hd'
    rw [← hd']
    refine Table.find_set_of_ne fun heq ↦ ?_
    rw [heq, hnew] at hd'
    cases hd'
  have hcount : ∀ u, activeCount (s.sessions.set sessionId (some d)) u =
      activeCount s.sessions u := by
    intro u
    have hset : (s.sessions.set sessionId (some d)).rows.countP (fun r ↦ r.2.serves u) =
        s.sessions.rows.countP (fun r ↦ r.2.serves u) + (if d.serves u then 1 else 0) :=
      Table.countP_set_new (Store.serves u) hnew
    rw [if_neg fun hserves ↦ hstatus (serves_iff.1 hserves).2] at hset
    exact hset
  refine ⟨h.agentRow, h.sessionRow, fun c hc ↦ ?_, h.within, fun a ha ↦ ?_, h.once⟩
  · have hholds := h.calls c hc
    obtain ⟨k, x⟩ := c
    cases x with
    | stateLocked userId sid maxConcurrent => trivial
    | setting userId maxConcurrent => trivial
    | counted userId sid maxConcurrent held view => exact (hcount userId).trans_le hholds
    | checked userId sid maxConcurrent held => exact (hcount userId).trans_le hholds
    | accepted userId sid maxConcurrent work =>
      obtain ⟨hlt, hassigned, hactive, d', hd', hacceptable⟩ := hholds
      exact ⟨(hcount userId).trans_lt hlt, hassigned, hactive, d', hfind sid d' hd', hacceptable⟩
    | writing sid work =>
      obtain ⟨d', hd', hstays⟩ := hholds
      exact ⟨d', hfind sid d' hd', hstays⟩
  · obtain ⟨d', hd', htaken⟩ := h.taken a ha
    exact ⟨d', hfind a.sessionId d' hd', htaken⟩

theorem next_serving (h : Serving s) {a : DeskAction} (hnext : s.next isolation a = some t) :
    Serving t := by
  cases a with
  | lockAgentState call userId sessionId =>
    rw [Desk.next] at hnext
    split at hnext
    · next hfree =>
      split at hnext
      · cases hnext
        exact h.enter (h.agentRow.takes rfl hfree.2) (h.sessionRow.without rfl) trivial
      · cases hnext
        exact h
    · cases hnext
  | activeCount call =>
    rw [Desk.next] at hnext
    split at hnext
    · next hc =>
      cases hnext
      have hc := Table.find_eq_some.1 hc
      exact h.enter (h.agentRow.goes_on hc rfl) (h.sessionRow.without rfl) (Nat.le_refl _)
    · cases hnext
  | getChatSession call allowed =>
    rw [Desk.next] at hnext
    split at hnext
    · next hc =>
      have hc := Table.find_eq_some.1 hc
      split at hnext
      · split at hnext
        · cases hnext
          exact h.enter (h.agentRow.goes_on hc rfl) (h.sessionRow.without rfl) (h.calls _ hc)
        · cases hnext
          exact h.leave
      · cases hnext
        exact h.leave
    · cases hnext
  | lockSession call allowedNow now articleId =>
    rw [Desk.next] at hnext
    split at hnext
    · next userId sessionId maxConcurrent held hc =>
      have hc := Table.find_eq_some.1 hc
      have hheld : activeCount s.sessions userId ≤ held := h.calls _ hc
      split at hnext
      · next hfree =>
        split at hnext
        · next d hd =>
          split at hnext
          · next work hwork =>
            cases hnext
            obtain ⟨hacceptable, hlt, hassigned, hactive⟩ := acceptSession_spec hwork
            have hentered : Serving (s.enter call (.accepted userId sessionId maxConcurrent work)) :=
              h.enter (h.agentRow.goes_on hc rfl) (h.sessionRow.takes rfl hfree)
                ⟨hheld.trans_lt hlt, hassigned, hactive, d, hd, hacceptable⟩
            exact ⟨hentered.agentRow, hentered.sessionRow, hentered.calls, hentered.within,
              hentered.taken, hentered.once⟩
          · cases hnext
            exact h.leave
        · cases hnext
          exact h.leave
      · cases hnext
    · cases hnext
  | setAgentState call userId maxConcurrent =>
    rw [Desk.next] at hnext
    split at hnext
    · next hfree =>
      cases hnext
      exact h.enter (h.agentRow.takes rfl hfree.2.1) (h.sessionRow.without rfl) trivial
    · cases hnext
  | createSession sessionId bot hasEmail identified clientId now articleId =>
    rw [Desk.next] at hnext
    split at hnext
    · next hnew =>
      split at hnext
      · next d hcreate =>
        cases hnext
        exact createSession_serving h hnew (createSession_status hcreate) _
      · cases hnext
    · cases hnext
  | execute call sessionId op articleId =>
    rw [Desk.next] at hnext
    split at hnext
    · next hfree =>
      split at hnext
      · next d hd =>
        split at hnext
        · next work hwork =>
          cases hnext
          have hentered : Serving (s.enter call (.writing sessionId work)) :=
            h.enter (h.agentRow.without rfl) (h.sessionRow.takes rfl hfree.2.1)
              ⟨d, hd, Op.run_stays hfree.2.2 hwork⟩
          exact ⟨hentered.agentRow, hentered.sessionRow, hentered.calls, hentered.within,
            hentered.taken, hentered.once⟩
        · cases hnext
          exact h
      · cases hnext
        exact h
    · cases hnext
  | commit call =>
    rw [Desk.next] at hnext
    split at hnext
    · next hc =>
      cases hnext
      exact commit_accepted_serving h (Table.find_eq_some.1 hc)
    · cases hnext
      exact ⟨h.agentRow.leave, h.sessionRow.leave, fun c hc ↦ h.calls c (mem_leave.1 hc).1, h.within,
        h.taken, h.once⟩
    · next hc =>
      cases hnext
      exact commit_writing_serving h (Table.find_eq_some.1 hc)
    · cases hnext
  | rollback call =>
    rw [Desk.next] at hnext
    split at hnext
    · cases hnext
      exact h.leave
    · cases hnext

/-- No accept takes an agent over the limit that it read, and no session is accepted twice. -/
theorem accepts_within {as : List DeskAction} (hs : (desks isolation).init s)
    (hr : (desks isolation).Run s as t) :
    (∀ a ∈ t.accepts, a.active ≤ a.maxConcurrent) ∧ (t.accepts.map (·.sessionId)).Nodup := by
  have h : Serving t := by
    refine hr.invariant (I := Serving) ?_ ?_
    · intro u a v hu hst
      exact next_serving hu hst
    · obtain ⟨hcalls, haccepts⟩ := hs
      refine ⟨fun c hc ↦ ?_, fun c hc ↦ ?_, fun c hc ↦ ?_, fun a ha ↦ ?_, fun a ha ↦ ?_, ?_⟩
      · rw [hcalls] at hc
        cases hc
      · rw [hcalls] at hc
        cases hc
      · rw [hcalls] at hc
        cases hc
      · rw [haccepts] at ha
        cases ha
      · rw [haccepts] at ha
        cases ha
      · rw [haccepts]
        exact List.nodup_nil
  exact ⟨h.within, h.once⟩

def emptyDesk : Desk := ⟨⟨[(7, 1), (8, 2)], by decide⟩, .empty, .empty, 0, []⟩

/-- Agent 7 may hold one chat: of its accepts of two chats the second waits for the first and is
refused, and agent 8 takes that chat. -/
def twoChats : List DeskAction :=
  [.createSession 1 false false false none 100 1, .createSession 2 true false false none 100 2,
    .lockAgentState 1 7 1, .activeCount 1, .getChatSession 1 true, .lockSession 1 true 110 3,
    .commit 1, .lockAgentState 2 7 2, .activeCount 2, .getChatSession 2 true, .lockAgentState 3 8 2,
    .activeCount 3, .getChatSession 3 true, .lockSession 3 true 120 4, .commit 3]

def servedDesk : Desk := (twoChats.foldlM (Desk.next .snapshot) emptyDesk).getD emptyDesk

theorem accepts_within_sample : servedDesk.accepts = [⟨1, 7, 1, 1⟩, ⟨2, 8, 2, 1⟩] ∧
    ∀ a ∈ servedDesk.accepts, a.active ≤ a.maxConcurrent := by
  have hrun : ((desks .snapshot).restrict fun _ _ ↦ True).Run emptyDesk twoChats servedDesk :=
    Machine.run_of_foldlM twoChats (by decide +kernel)
  exact ⟨by decide +kernel, (accepts_within ⟨rfl, rfl⟩ hrun.of_restrict).1⟩

end Tiqora.Webchat
