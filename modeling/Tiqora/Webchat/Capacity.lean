import Tiqora.Foundation.Machine
import Tiqora.Foundation.Tables
import Tiqora.Webchat.Session

namespace Tiqora.Webchat

open Foundation

/-- A transaction under way. The steps of `accept_session` come first: the agent-state row locked,
the chats counted with the transaction's first plain read, the chat read, the session row locked
and written. Then `set_agent_state`, and any other transaction on a session row. -/
inductive Call
  | stateLocked (userId sessionId maxConcurrent : ℕ)
  | counted (userId sessionId maxConcurrent held : ℕ) (view : Table ℕ Store)
  | checked (userId sessionId maxConcurrent held : ℕ)
  | accepted (userId sessionId maxConcurrent : ℕ) (work : Store)
  | setting (userId maxConcurrent : ℕ)
  | writing (sessionId : ℕ) (work : Store)
  deriving DecidableEq

/-- The agent-state row that the call has locked. -/
def Call.agent : Call → Option ℕ
  | .stateLocked userId .. | .counted userId .. | .checked userId .. | .accepted userId ..
  | .setting userId _ => some userId
  | .writing .. => none

/-- The session row that the call has locked. -/
def Call.session : Call → Option ℕ
  | .accepted _ sessionId .. | .writing sessionId _ => some sessionId
  | .stateLocked .. | .counted .. | .checked .. | .setting .. => none

/-- A committed accept, the value that it read under the agent-state lock, and the number of the
agent's chats after it. -/
structure Accept where
  sessionId : ℕ
  userId : ℕ
  maxConcurrent : ℕ
  active : ℕ
  deriving DecidableEq

structure Desk where
  agents : Table ℕ ℕ
  sessions : Table ℕ Store
  calls : Table ℕ Call
  transactions : ℕ
  accepts : List Accept
  deriving DecidableEq

inductive DeskAction
  | lockAgentState (call userId sessionId : ℕ)
  | activeCount (call : ℕ)
  | getChatSession (call : ℕ) (allowed : Bool)
  | lockSession (call : ℕ) (allowedNow : Bool) (now articleId : ℕ)
  | setAgentState (call userId maxConcurrent : ℕ)
  | createSession (sessionId : ℕ) (bot hasEmail identified : Bool) (clientId : Option ℕ)
      (now articleId : ℕ)
  | execute (call sessionId : ℕ) (op : Op) (articleId : ℕ)
  | commit (call : ℕ)
  | rollback (call : ℕ)
  deriving DecidableEq

def Op.isAccept : Op → Bool
  | .acceptSession .. => true
  | _ => false

def Store.serves (userId : ℕ) (d : Store) : Bool :=
  d.chat.assignedUserId = some userId && d.chat.status = .active

def activeCount (sessions : Table ℕ Store) (userId : ℕ) : ℕ :=
  sessions.rows.countP fun r ↦ r.2.serves userId

def maxConcurrentLimit : ℕ := 20

namespace Desk

def agentFree (s : Desk) (userId : ℕ) : Prop := ∀ c ∈ s.calls.rows, c.2.agent ≠ some userId

def sessionFree (s : Desk) (sessionId : ℕ) : Prop := ∀ c ∈ s.calls.rows, c.2.session ≠ some sessionId

instance (s : Desk) (userId : ℕ) : Decidable (s.agentFree userId) :=
  inferInstanceAs (Decidable (∀ c ∈ s.calls.rows, _))

instance (s : Desk) (sessionId : ℕ) : Decidable (s.sessionFree sessionId) :=
  inferInstanceAs (Decidable (∀ c ∈ s.calls.rows, _))

def enter (s : Desk) (call : ℕ) (c : Call) : Desk := { s with calls := s.calls.set call (some c) }

def leave (s : Desk) (call : ℕ) : Desk := { s with calls := s.calls.set call none }

/-- A refused call is rolled back. -/
def next (isolation : Isolation) (s : Desk) : DeskAction → Option Desk
  | .lockAgentState call userId sessionId =>
    if s.calls.find call = none ∧ s.agentFree userId then
      match s.agents.find userId with
      | some maxConcurrent => some (s.enter call (.stateLocked userId sessionId maxConcurrent))
      | none => some s
    else none
  | .activeCount call =>
    match s.calls.find call with
    | some (.stateLocked userId sessionId maxConcurrent) =>
      some (s.enter call
        (.counted userId sessionId maxConcurrent (Webchat.activeCount s.sessions userId)
          s.sessions))
    | _ => none
  | .getChatSession call allowed =>
    match s.calls.find call with
    | some (.counted userId sessionId maxConcurrent held view) =>
      match (isolation.visible view s.sessions).find sessionId with
      | some d =>
        if d.chat.purgedAt = none ∧ allowed = true ∧ held < maxConcurrent then
          some (s.enter call (.checked userId sessionId maxConcurrent held))
        else some (s.leave call)
      | none => some (s.leave call)
    | _ => none
  | .lockSession call allowedNow now articleId =>
    match s.calls.find call with
    | some (.checked userId sessionId maxConcurrent held) =>
      if s.sessionFree sessionId then
        match s.sessions.find sessionId with
        | some d =>
          match d.acceptSession userId held maxConcurrent true allowedNow now
            ⟨s.transactions, articleId⟩ with
          | .ok work =>
            some { s.enter call (.accepted userId sessionId maxConcurrent work) with
              transactions := s.transactions + 1 }
          | .error _ => some (s.leave call)
        | none => some (s.leave call)
      else none
    | _ => none
  | .setAgentState call userId maxConcurrent =>
    if s.calls.find call = none ∧ s.agentFree userId ∧ 1 ≤ maxConcurrent ∧
        maxConcurrent ≤ maxConcurrentLimit then
      some (s.enter call (.setting userId maxConcurrent))
    else none
  | .createSession sessionId bot hasEmail identified clientId now articleId =>
    if s.sessions.find sessionId = none then
      match Store.createSession bot hasEmail identified clientId now
        ⟨s.transactions, articleId⟩ with
      | .ok d => some { s with
          sessions := s.sessions.set sessionId (some d), transactions := s.transactions + 1 }
      | .error _ => none
    else none
  | .execute call sessionId op articleId =>
    if s.calls.find call = none ∧ s.sessionFree sessionId ∧ op.isAccept = false then
      match s.sessions.find sessionId with
      | some d =>
        match op.run d ⟨s.transactions, articleId⟩ with
        | .ok work => some { s.enter call (.writing sessionId work) with
            transactions := s.transactions + 1 }
        | .error _ => some s
      | none => some s
    else none
  | .commit call =>
    match s.calls.find call with
    | some (.accepted userId sessionId maxConcurrent work) =>
      let sessions := s.sessions.set sessionId (some work)
      some { s.leave call with
        sessions
        accepts := s.accepts ++
          [⟨sessionId, userId, maxConcurrent, Webchat.activeCount sessions userId⟩] }
    | some (.setting userId maxConcurrent) =>
      some { s.leave call with agents := s.agents.set userId (some maxConcurrent) }
    | some (.writing sessionId work) =>
      some { s.leave call with sessions := s.sessions.set sessionId (some work) }
    | _ => none
  | .rollback call =>
    match s.calls.find call with
    | some _ => some (s.leave call)
    | none => none

end Desk

/-- Any agents and sessions, and no transaction under way. -/
def desks (isolation : Isolation) : Machine Desk DeskAction :=
  .ofNext (fun s ↦ s.calls = .empty ∧ s.accepts = []) (Desk.next isolation)

end Tiqora.Webchat
