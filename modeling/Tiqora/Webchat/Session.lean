import Tiqora.Foundation.Guarded
import Tiqora.Foundation.Tables
import Mathlib.Data.List.Nodup

namespace Tiqora.Webchat

open Foundation

inductive Status
  | waiting | active | bot | ended | abandoned
  deriving DecidableEq

/-- `LIVE_STATUSES`. -/
def Status.live : Status → Bool
  | .bot | .waiting | .active => true
  | .ended | .abandoned => false

inductive Sender
  | visitor | agent | bot | system
  deriving DecidableEq

/-- The bodies of system lines. -/
inductive SystemCode
  | botIntro | agentJoined | visitorLeft | chatEnded | noAgent | idleClosed | handoff
  deriving DecidableEq

inductive EndReason
  | offlineForm | visitor | agent | noAgent | idle
  deriving DecidableEq

inductive HandoffReason
  | visitor | ai | limit | error | unavailable | takeover
  deriving DecidableEq

inductive BotOutcome
  | replied | handoff
  deriving DecidableEq

/-- A row of `tiqora_chat_session`; `transaction` of a line or an article is the one that stored
it. -/
structure Chat where
  status : Status
  endReason : Option EndReason
  endedAt : Option ℕ
  assignedUserId : Option ℕ
  acceptedAt : Option ℕ
  waitingSince : Option ℕ
  visitorLastSeen : ℕ
  hasEmail : Bool
  identified : Bool
  lastSeq : ℕ
  lastVisitorSeq : ℕ
  botAnsweredSeq : ℕ
  botClaimedAt : Option ℕ
  botClaimOwner : Option ℕ
  botAttempts : ℕ
  botOutcome : Option BotOutcome
  handoffAt : Option ℕ
  handoffReason : Option HandoffReason
  purgedAt : Option ℕ
  deriving DecidableEq

structure Line where
  seq : ℕ
  sender : Sender
  code : Option SystemCode
  articleId : Option ℕ
  clientId : Option ℕ
  transaction : ℕ
  deriving DecidableEq

structure Article where
  id : ℕ
  customer : Bool
  transaction : ℕ
  deriving DecidableEq

/-- What the database holds of one session. -/
structure Store where
  chat : Chat
  lines : List Line
  articles : List Article
  deriving DecidableEq

inductive ChatError
  | notFound | sessionClosed | forbidden | atCapacity | alreadyTaken | notWaiting
  | contactNotAllowed | chatNotLive | chatNotAccepted | takenOver | integrity
  deriving DecidableEq

/-- The transaction: its number, and the id that the server gives its article. -/
structure Write where
  transaction : ℕ
  articleId : ℕ
  deriving DecidableEq

def lastSeenThrottleSeconds : ℕ := 60

def contactWindowSeconds : ℕ := 7200

def waitingIdleSeconds : ℕ := 120

def activeIdleSeconds : ℕ := 900

/-- The columns that `accept_session` sets; a bot's chat is taken over. -/
def Chat.accepted (chat : Chat) (userId now : ℕ) : Chat :=
  let chat :=
    if chat.status = .bot then
      { chat with handoffAt := some now, handoffReason := some .takeover }
    else chat
  { chat with status := .active, assignedUserId := some userId, acceptedAt := some now }

/-- The columns that `hand_off_chat` sets; `humans` says that someone may take the chat. -/
def Chat.handedOff (chat : Chat) (reason : HandoffReason) (humans : Bool) (now : ℕ) : Chat :=
  let chat :=
    { chat with
      handoffAt := some now, handoffReason := some reason, botOutcome := some .handoff }
  if humans then { chat with status := .waiting, waitingSince := some now }
  else { chat with status := .ended, endReason := some .noAgent, endedAt := some now }

namespace Store

/-- `insert_message`, with `allocate_seq`; the unique keys are `(session_id, seq)` and
`(session_id, client_id)`. -/
def insertMessage (d : Store) (sender : Sender) (code : Option SystemCode)
    (articleId clientId : Option ℕ) (w : Write) : Except ChatError Store := do
  let seq := d.chat.lastSeq + 1
  require (∀ l ∈ d.lines, l.seq ≠ seq ∧ (clientId.isSome → l.clientId ≠ clientId)) .integrity
  pure
    { d with
      chat := { d.chat with lastSeq := seq }
      lines := d.lines ++ [⟨seq, sender, code, articleId, clientId, w.transaction⟩] }

def addSystemMessage (d : Store) (code : SystemCode) (w : Write) : Except ChatError Store :=
  d.insertMessage .system (some code) none none w

def addArticle (d : Store) (customer : Bool) (w : Write) : Store :=
  { d with articles := d.articles ++ [⟨w.articleId, customer, w.transaction⟩] }

def findByClientId (lines : List Line) (clientId : ℕ) : Option Line :=
  lines.find? fun l ↦ l.clientId = some clientId

/-- Only a stored new line moves the bot's pending marker, and only upward. -/
def markVisitor (d : Store) : Store :=
  if d.chat.lastVisitorSeq < d.chat.lastSeq then
    { d with chat := { d.chat with lastVisitorSeq := d.chat.lastSeq } }
  else d

/-- `_store_visitor_line`. A duplicate key takes back the article and the counter with the
savepoint, and a line that another request has stored by then is the answer. -/
def storeVisitorLine (d : Store) (clientId : Option ℕ) (w : Write) : Except ChatError Store :=
  match (d.addArticle true w).insertMessage .visitor none (some w.articleId) clientId w with
  | .ok d' => .ok d'.markVisitor
  | .error e =>
    match clientId with
    | none => .error e
    | some c => if (findByClientId d.lines c).isSome then .ok d else .error e

def touchVisitorLastSeen (d : Store) (now : ℕ) : Store :=
  if d.chat.visitorLastSeen + lastSeenThrottleSeconds ≤ now then
    { d with chat := { d.chat with visitorLastSeen := now } }
  else d

/-- The session row is there and not purged. -/
def lockSession (d : Store) : Except ChatError Unit := require (d.chat.purgedAt = none) .notFound

def close (d : Store) (status : Status) (reason : EndReason) (now : ℕ) : Store :=
  { d with chat := { d.chat with status, endReason := some reason, endedAt := some now } }

/-- `view` is how much of the transcript the plain read of `find_by_client_id` shows: a snapshot
may be older than the lock. -/
def postVisitorMessage (d : Store) (clientId : Option ℕ) (view now : ℕ) (w : Write) :
    Except ChatError Store := do
  d.lockSession
  if (clientId.bind (findByClientId (d.lines.take view))).isSome then pure d
  else
    require (d.chat.status.live = true) .sessionClosed
    (d.touchVisitorLastSeen now).storeVisitorLine clientId w

/-- The upload itself is checked before the lock. -/
def storeVisitorAttachment (d : Store) (clientId : Option ℕ) (view now : ℕ) (w : Write) :
    Except ChatError Store :=
  d.postVisitorMessage clientId view now w

/-- `held` is the count of the agent's active chats; `rw` is checked on the queue that a plain
read shows and on that of the locked ticket. -/
def acceptSession (d : Store) (userId held maxConcurrent : ℕ) (allowed allowedNow : Bool)
    (now : ℕ) (w : Write) : Except ChatError Store := do
  d.lockSession
  require (allowed = true) .forbidden
  require (held < maxConcurrent) .atCapacity
  require (d.chat.status = .waiting ∨ d.chat.status = .bot)
    (if d.chat.status = .active then .alreadyTaken else .notWaiting)
  require (allowedNow = true) .forbidden
  { d with chat := d.chat.accepted userId now }.addSystemMessage .agentJoined w

def deliverAgentChatReply (d : Store) (w : Write) : Except ChatError Store := do
  require (d.chat.purgedAt = none ∧ d.chat.status.live = true) .chatNotLive
  require (d.chat.status = .active) .chatNotAccepted
  (d.addArticle false w).insertMessage .agent none (some w.articleId) none w

def deliverBotChatReply (d : Store) (w : Write) : Except ChatError Store := do
  require (d.chat.purgedAt = none ∧ d.chat.status = .bot) .takenOver
  (d.addArticle false w).insertMessage .bot none (some w.articleId) none w

/-- `noop` is the transaction that changes nothing. -/
def handOffChat (d : Store) (reason : HandoffReason) (humans note : Bool) (now : ℕ) (w : Write) :
    Except ChatError Store := do
  if d.chat.purgedAt = none ∧ d.chat.status = .bot then
    let d := { d with chat := d.chat.handedOff reason humans now }
    let d := if note then d.addArticle false w else d
    let d ← d.addSystemMessage .handoff w
    if humans then pure d else d.addSystemMessage .noAgent w
  else pure d

def endByVisitor (d : Store) (now : ℕ) (w : Write) : Except ChatError Store := do
  d.lockSession
  if d.chat.status.live then
    let d := d.close .ended .visitor now
    { d with chat := { d.chat with visitorLastSeen := now } }.addSystemMessage .visitorLeft w
  else pure d

/-- `mayWrite` is `rw` on the ticket's queue. -/
def endSessionByAgent (d : Store) (userId : ℕ) (mayWrite closeTicket : Bool) (now : ℕ)
    (w : Write) : Except ChatError Store := do
  d.lockSession
  if d.chat.status.live then
    require (mayWrite = true ∨ (d.chat.status = .active ∧ d.chat.assignedUserId = some userId) ∧
      closeTicket = false) .forbidden
    (d.close .ended .agent now).addSystemMessage .chatEnded w
  else pure d

def contactAllowed (d : Store) (now : ℕ) : Bool :=
  !d.chat.status.live &&
    (d.chat.endReason = some .noAgent || d.chat.endReason = some .idle ||
      d.chat.endReason = some .visitor) &&
    d.chat.endedAt.any (fun endedAt ↦ now - endedAt < contactWindowSeconds) &&
    !d.chat.hasEmail && !d.chat.identified

def setContact (d : Store) (now : ℕ) : Except ChatError Store := do
  d.lockSession
  require (d.contactAllowed now = true) .contactNotAllowed
  pure ({ d with chat := { d.chat with hasEmail := true } }.touchVisitorLastSeen now)

/-- The step of `_time_out_waiting` on one session. -/
def timeOutWaiting (d : Store) (cutoff now : ℕ) (w : Write) : Except ChatError Store := do
  d.lockSession
  if d.chat.status = .waiting ∧ d.chat.waitingSince.any (· ≤ cutoff) then
    (d.close .ended .noAgent now).addSystemMessage .noAgent w
  else pure d

def idleSeconds (status : Status) : ℕ :=
  if status = .waiting then waitingIdleSeconds else activeIdleSeconds

/-- The step of `_abandon_idle` on one session. -/
def abandonIdle (d : Store) (now : ℕ) (w : Write) : Except ChatError Store := do
  d.lockSession
  if d.chat.status.live ∧ d.chat.visitorLastSeen + idleSeconds d.chat.status < now then
    (d.close .abandoned .idle now).addSystemMessage .idleClosed w
  else pure d

/-- The step of `_purge_expired` on one session. -/
def purge (d : Store) (cutoff now : ℕ) : Except ChatError Store := do
  d.lockSession
  if d.chat.status.live = false ∧ d.chat.endedAt.any (· ≤ cutoff) then
    pure { d with chat := { d.chat with hasEmail := false, purgedAt := some now }, lines := [] }
  else pure d

/-- The row that `_open_ticket_and_session` inserts, and its article. -/
def opened (offline bot hasEmail identified : Bool) (now : ℕ) (w : Write) : Store where
  chat :=
    { status := if offline then .ended else if bot then .bot else .waiting
      endReason := if offline then some .offlineForm else none
      endedAt := if offline then some now else none
      assignedUserId := none
      acceptedAt := none
      waitingSince := if offline || bot then none else some now
      visitorLastSeen := now
      hasEmail
      identified
      lastSeq := 0
      lastVisitorSeq := 0
      botAnsweredSeq := 0
      botClaimedAt := none
      botClaimOwner := none
      botAttempts := 0
      botOutcome := none
      handoffAt := none
      handoffReason := none
      purgedAt := none }
  lines := []
  articles := [⟨w.articleId, true, w.transaction⟩]

/-- `create_session`, after its refusals. -/
def createSession (bot hasEmail identified : Bool) (clientId : Option ℕ) (now : ℕ) (w : Write) :
    Except ChatError Store := do
  let d ← (opened false bot hasEmail identified now w).insertMessage .visitor none
    (some w.articleId) clientId w
  let d := { d with chat := { d.chat with lastVisitorSeq := d.chat.lastSeq } }
  if bot then d.addSystemMessage .botIntro w else pure d

def submitOffline (now : ℕ) (w : Write) : Store := opened true false true false now w

end Store

/-- The transactions that lock the row of one session. -/
inductive Op
  | postVisitorMessage (clientId : Option ℕ) (view now : ℕ)
  | storeVisitorAttachment (clientId : Option ℕ) (view now : ℕ)
  | acceptSession (userId held maxConcurrent : ℕ) (allowed allowedNow : Bool) (now : ℕ)
  | deliverAgentChatReply
  | deliverBotChatReply
  | handOffChat (reason : HandoffReason) (humans note : Bool) (now : ℕ)
  | endByVisitor (now : ℕ)
  | endSessionByAgent (userId : ℕ) (mayWrite closeTicket : Bool) (now : ℕ)
  | setContact (now : ℕ)
  | touch (now : ℕ)
  | timeOutWaiting (cutoff now : ℕ)
  | abandonIdle (now : ℕ)
  | purge (cutoff now : ℕ)
  deriving DecidableEq

def Op.run (d : Store) (w : Write) : Op → Except ChatError Store
  | .postVisitorMessage clientId view now => d.postVisitorMessage clientId view now w
  | .storeVisitorAttachment clientId view now => d.storeVisitorAttachment clientId view now w
  | .acceptSession userId held maxConcurrent allowed allowedNow now =>
    d.acceptSession userId held maxConcurrent allowed allowedNow now w
  | .deliverAgentChatReply => d.deliverAgentChatReply w
  | .deliverBotChatReply => d.deliverBotChatReply w
  | .handOffChat reason humans note now => d.handOffChat reason humans note now w
  | .endByVisitor now => d.endByVisitor now w
  | .endSessionByAgent userId mayWrite closeTicket now =>
    d.endSessionByAgent userId mayWrite closeTicket now w
  | .setContact now => d.setContact now
  | .touch now => .ok (d.touchVisitorLastSeen now)
  | .timeOutWaiting cutoff now => d.timeOutWaiting cutoff now w
  | .abandonIdle now => d.abandonIdle now w
  | .purge cutoff now => d.purge cutoff now

end Tiqora.Webchat
