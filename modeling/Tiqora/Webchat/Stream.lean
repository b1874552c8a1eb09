import Mathlib.Data.List.Sort
import Tiqora.Webchat.Conversation

namespace Tiqora.Webchat

open Foundation

/-- The frames of the visitor's stream. A reason that the row does not have reads `ended`. -/
inductive Chunk
  | message (line : Line)
  | session (status : Status) (agentName botName : Option ℕ)
  | typing (bot : Bool)
  | heartbeat
  | ended (reason : Option EndReason)
  deriving DecidableEq

def Chunk.line : Chunk → Option Line
  | .message line => some line
  | .session .. | .typing _ | .heartbeat | .ended _ => none

def page : ℕ := 200

def loadMessagesSince (lines : List Line) (afterSeq limit : ℕ) : List Line :=
  ((lines.filter fun l ↦ afterSeq < l.seq).mergeSort fun l l' ↦ l.seq ≤ l'.seq).take
    (max 1 (min limit 200))

/-- The cursor after some rows. -/
def cursorAfter (cursor : ℕ) (rows : List Line) : ℕ :=
  ((rows.getLast?).map (·.seq)).getD cursor

/-- Where the generator stands: before `_read`, between two of its statements with the row and the
rows that it has, at the wait for the hub, or returned. -/
inductive Phase
  | due
  | paging (chat : Chat) (view : List Line) (rows : List Line)
  | waiting
  | closed
  deriving DecidableEq

/-- `outgoing` is what the generator yielded and the client has not received. -/
structure Connection where
  cursor : ℕ
  sent : Option (Status × Option ℕ × Option ℕ)
  phase : Phase
  outgoing : List Chunk
  deriving DecidableEq

/-- What a `session` frame says; the bot's name only while the bot answers. -/
def Chat.shown (chat : Chat) (agentName botName : Option ℕ) : Status × Option ℕ × Option ℕ :=
  (chat.status, agentName, if chat.status = .bot then botName else none)

namespace Connection

def opened (afterSeq : ℕ) : Connection := ⟨afterSeq, none, .due, []⟩

/-- The first statement of `_read`. -/
def readChat (c : Connection) (d : Store) : Connection :=
  if d.chat.purgedAt = none then { c with phase := .paging d.chat d.lines [] }
  else { c with phase := .closed, outgoing := c.outgoing ++ [.ended d.chat.endReason] }

/-- The end of `_read`, and the chunks that follow it. -/
def yieldRows (c : Connection) (chat : Chat) (rows : List Line) (cursor : ℕ)
    (agentName botName : Option ℕ) : Connection :=
  let outgoing := c.outgoing ++ rows.map .message
  if chat.status.live then
    let shown := chat.shown agentName botName
    { cursor
      sent := some shown
      phase := .waiting
      outgoing :=
        if c.sent = some shown then outgoing
        else outgoing ++ [.session shown.1 shown.2.1 shown.2.2] }
  else
    { c with cursor, phase := .closed, outgoing := outgoing ++ [.ended chat.endReason] }

/-- One page of `_read`. -/
def readPage (c : Connection) (isolation : Isolation) (lines : List Line)
    (agentName botName : Option ℕ) : Option Connection :=
  match c.phase with
  | .paging chat view rows =>
    let found := loadMessagesSince (isolation.visible view lines) (cursorAfter c.cursor rows) page
    if found.length < page then
      some (c.yieldRows chat (rows ++ found) (cursorAfter c.cursor (rows ++ found)) agentName
        botName)
    else some { c with phase := .paging chat view (rows ++ found) }
  | _ => none

end Connection

/-- A visitor's connections, one after the other; `log` is the transcript up to a purge. -/
structure StreamState where
  chat : ChatState
  log : List Line
  first : ℕ
  received : List Chunk
  connection : Option Connection
  deriving DecidableEq

inductive StreamAction
  | write (a : ChatAction)
  | connect
  | readChat
  | readPage (agentName botName : Option ℕ)
  | wake
  | heartbeat
  | typing (bot : Bool)
  | close
  | receive
  | cut
  deriving DecidableEq

namespace StreamState

/-- The id of the last message that the client received, else its first cursor. -/
def resume (s : StreamState) : ℕ :=
  cursorAfter s.first (s.received.filterMap Chunk.line)

def next (isolation : Isolation) (s : StreamState) : StreamAction → Option StreamState
  | .write a => do
    let chat ← s.chat.next a
    pure
      { s with
        chat
        log := if chat.store.chat.purgedAt = none then chat.store.lines else s.log }
  | .connect =>
    match s.connection with
    | none => some { s with connection := some (.opened s.resume) }
    | some _ => none
  | .readChat =>
    match s.connection with
    | some c =>
      if c.phase = .due then some { s with connection := some (c.readChat s.chat.store) } else none
    | none => none
  | .readPage agentName botName => do
    let c ← s.connection
    let c ← c.readPage isolation s.chat.store.lines agentName botName
    pure { s with connection := some c }
  | .wake =>
    match s.connection with
    | some c =>
      if c.phase = .waiting then some { s with connection := some { c with phase := .due } }
      else none
    | none => none
  | .heartbeat =>
    match s.connection with
    | some c =>
      if c.phase = .waiting then
        some { s with
          connection := some { c with phase := .due, outgoing := c.outgoing ++ [.heartbeat] } }
      else none
    | none => none
  | .typing bot =>
    match s.connection with
    | some c =>
      if c.phase = .waiting then
        some { s with connection := some { c with outgoing := c.outgoing ++ [.typing bot] } }
      else none
    | none => none
  | .close => s.connection.map fun c ↦ { s with connection := some { c with phase := .closed } }
  | .receive =>
    match s.connection with
    | some c =>
      match c.outgoing with
      | chunk :: outgoing =>
        some { s with
          received := s.received ++ [chunk], connection := some { c with outgoing } }
      | [] => none
    | none => none
  | .cut => s.connection.map fun _ ↦ { s with connection := none }

end StreamState

/-- A new session, and a client that has not connected yet. -/
def streams (isolation : Isolation) : Machine StreamState StreamAction :=
  .ofNext (fun s ↦ Created s.chat ∧ s.log = s.chat.store.lines ∧ s.received = [] ∧
    s.connection = none) (StreamState.next isolation)

end Tiqora.Webchat
