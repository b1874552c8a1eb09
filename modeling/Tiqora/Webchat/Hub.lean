import Mathlib.Algebra.Order.Ring.Int
import Mathlib.Algebra.Order.Ring.Nat
import Tiqora.Foundation.Machine

namespace Tiqora.Webchat.Hub

open Foundation

abbrev Text := List Char

/-- The payload of a message; `other` has another type or none. -/
inductive Item
  | typing (who : Text)
  | wake
  | close
  | other (payload : Text)
  deriving DecidableEq

def Item.isTyping : Item → Bool
  | .typing _ => true
  | _ => false

/-- An item at which a stream reads the session again, or at which its client connects again. -/
def Item.isSignal : Item → Bool
  | .wake | .close => true
  | _ => false

structure Subscriber where
  sessionId : Text
  ipHash : Option Text
  deriving DecidableEq

/-- A registered stream, with the number of its queue. -/
structure Stream extends Subscriber where
  queue : ℕ
  expiresAt : ℤ
  deriving DecidableEq

structure Config where
  maxStreams : ℕ
  maxPerSession : ℕ
  maxPerIp : ℕ
  maxLifetime : ℤ
  deriving DecidableEq

def queueSize : ℕ := 50

def full (items : List Item) : Bool := queueSize ≤ items.length

/-- The items of a queue that an item is put behind. -/
def makeRoom (items : List Item) (item : Item) : List Item :=
  if item.isTyping then items.filter fun old ↦ !old.isTyping
  else if full items then items.eraseP Item.isTyping
  else items

inductive Refused
  | streamLimitReached (reason : String)
  | indexError
  deriving DecidableEq

/-- The hub, with the streams of all sessions in the order of their registration, the queues also
of the streams that are registered no longer, and the calls of `subscribe` that wait in
`_ensure_reader`, in the order in which they get the lock. -/
structure ChatHub where
  streams : List Stream
  ipCounts : Text → Option ℤ
  total : ℤ
  queues : ℕ → List Item
  nextQueue : ℕ
  reader : Bool
  waiting : List Subscriber
  closed : Bool

namespace ChatHub

def start : ChatHub := ⟨[], fun _ ↦ none, 0, fun _ ↦ [], 0, false, [], false⟩

def ofSession (hub : ChatHub) (sessionId : Text) : List Stream :=
  hub.streams.filter (·.sessionId = sessionId)

def setQueue (hub : ChatHub) (queue : ℕ) (items : List Item) : ChatHub :=
  { hub with queues := Function.update hub.queues queue items }

/-- `_remove`. -/
def remove (hub : ChatHub) (stream : Stream) : ChatHub :=
  if stream ∈ hub.streams then
    { hub with
      streams := hub.streams.erase stream
      total := hub.total - 1
      ipCounts := match stream.ipHash with
        | none => hub.ipCounts
        | some ip =>
          let left := (hub.ipCounts ip).getD 1 - 1
          Function.update hub.ipCounts ip (if 0 < left then some left else none) }
  else hub

/-- `_force_close`. -/
def forceClose (hub : ChatHub) (queue : ℕ) : ChatHub := hub.setQueue queue [.close]

/-- `_offer`. -/
def offer (hub : ChatHub) (stream : Stream) (item : Item) : ChatHub :=
  let items := makeRoom (hub.queues stream.queue) item
  if full items then
    if item.isTyping then hub.setQueue stream.queue items
    else (hub.remove stream).forceClose stream.queue
  else hub.setQueue stream.queue (items ++ [item])

/-- `_close_stream`. -/
def closeStream (hub : ChatHub) (stream : Stream) : ChatHub :=
  (hub.remove stream).forceClose stream.queue

variable (config : Config)

/-- The stream that a new one of its session takes the place of. -/
def victim (existing : List Stream) : Except Refused (Option Stream) :=
  if config.maxPerSession ≤ existing.length then
    match existing with
    | [] => .error .indexError
    | oldest :: _ => .ok (some oldest)
  else .ok none

/-- What `subscribe` tests; with the stream that it evicts. -/
def check (hub : ChatHub) (s : Subscriber) : Except Refused (Option Stream) :=
  if hub.closed then .error (.streamLimitReached "closed")
  else
    match victim config (hub.ofSession s.sessionId) with
    | .error e => .error e
    | .ok victim =>
      let total := hub.total - if victim.isSome then 1 else 0
      if config.maxStreams ≤ total then .error (.streamLimitReached "total")
      else
        match s.ipHash with
        | none => .ok victim
        | some ip =>
          let ipCount := (hub.ipCounts ip).getD 0 -
            if victim.any (·.ipHash = some ip) then 1 else 0
          if config.maxPerIp ≤ ipCount then .error (.streamLimitReached "ip") else .ok victim

def evict (hub : ChatHub) (victim : Option Stream) : ChatHub := victim.elim hub hub.closeStream

/-- The second half of `subscribe`. -/
def register (hub : ChatHub) (s : Subscriber) (now : ℤ) : ChatHub :=
  { hub with
    streams := hub.streams ++ [⟨s, hub.nextQueue, now + config.maxLifetime⟩]
    total := hub.total + 1
    ipCounts := match s.ipHash with
      | none => hub.ipCounts
      | some ip => Function.update hub.ipCounts ip (some ((hub.ipCounts ip).getD 0 + 1))
    queues := Function.update hub.queues hub.nextQueue []
    nextQueue := hub.nextQueue + 1 }

/-- `subscribe` until it returns or waits. -/
def subscribe (hub : ChatHub) (s : Subscriber) (now : ℤ) : Except Refused ChatHub :=
  match hub.check config s with
  | .error e => .error e
  | .ok victim =>
    let hub := hub.evict victim
    if hub.reader then .ok (hub.register config s now)
    else .ok { hub with waiting := hub.waiting ++ [s] }

def unsubscribe (hub : ChatHub) (sessionId : Text) (queue : ℕ) : ChatHub :=
  ((hub.ofSession sessionId).filter (·.queue = queue)).foldl remove hub

/-- `_expire_streams`. -/
def expireStreams (hub : ChatHub) (now : ℤ) : ChatHub :=
  (hub.streams.filter (·.expiresAt ≤ now)).foldl closeStream hub

/-- `_route` of a message for a session. -/
def route (hub : ChatHub) (sessionId : Text) (item : Item) : ChatHub :=
  (hub.ofSession sessionId).foldl (fun hub stream ↦ hub.offer stream item) hub

end ChatHub

/-- What runs between two awaits. -/
inductive Event
  | subscribe (s : Subscriber) (now : ℤ)
  /-- The call that has the lock goes on, with a reader. -/
  | resume (now : ℤ)
  | cancel (i : ℕ)
  | unsubscribe (sessionId : Text) (queue : ℕ)
  | route (sessionId : Text) (item : Item)
  | expire (now : ℤ)
  | read (queue : ℕ)
  | readerEnds
  | close
  | closeStreams
  deriving DecidableEq

open ChatHub in
/-- One event; `none` when it cannot happen. A refused call changes nothing. -/
def next (config : Config) (hub : ChatHub) : Event → Option ChatHub
  | .subscribe s now =>
    match hub.subscribe config s now with
    | .ok hub' => some hub'
    | .error _ => some hub
  | .resume now =>
    match hub.waiting with
    | [] => none
    | s :: waiting => some ({ hub with waiting, reader := true }.register config s now)
  | .cancel i =>
    if i < hub.waiting.length then some { hub with waiting := hub.waiting.eraseIdx i } else none
  | .unsubscribe sessionId queue => some (hub.unsubscribe sessionId queue)
  | .route sessionId item => some (hub.route sessionId item)
  | .expire now => some (hub.expireStreams now)
  | .read queue =>
    match hub.queues queue with
    | [] => none
    | _ :: items => some (hub.setQueue queue items)
  | .readerEnds => some { hub with reader := false }
  | .close => some { hub with closed := true, reader := false }
  | .closeStreams =>
    if hub.closed then some (hub.streams.foldl closeStream { hub with reader := false }) else none

def machine (config : Config) : Machine ChatHub Event :=
  .ofNext (· = ChatHub.start) (next config)

end Tiqora.Webchat.Hub
