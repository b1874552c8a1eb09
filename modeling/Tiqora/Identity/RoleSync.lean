import Tiqora.Foundation.Machine
import Tiqora.Identity.ScimGroups

namespace Tiqora.Identity.Scim

open Foundation

structure PendingSync where
  queuedAt : ℕ
  generation : ℕ
  deriving DecidableEq

/-- `tiqora_scim_pending_sync`. -/
abbrev PendingQueue := Table Agent PendingSync

abbrev PendingRow := Agent × PendingSync

def generation (old clock : ℕ) : ℕ := max (old + 1) clock

def oldGeneration (T : PendingQueue) (agent : Agent) : ℕ :=
  ((T.find agent).map (·.generation)).getD 0

/-- The rows that `enqueue_role_sync` inserts, with the generations that it has read. -/
def enqueueRoleSync (seen : PendingQueue) (agents : List Agent) (now clock : ℕ) :
    List PendingRow :=
  agents.dedup.map fun agent ↦ (agent, ⟨now, generation (oldGeneration seen agent) clock⟩)

def PendingRow.isRead (agent : Agent) (read : ℕ) (r : PendingRow) : Bool :=
  r.1 = agent ∧ r.2.generation = read

/-- `DELETE … WHERE generation = <read>`. -/
def deletePending (T : PendingQueue) (agent : Agent) (read : ℕ) : PendingQueue :=
  T.delete fun r ↦ PendingRow.isRead agent read r

def pushBack (T : PendingQueue) (agent : Agent) (read now : ℕ) : PendingQueue :=
  T.update fun a p ↦ if PendingRow.isRead agent read (a, p) then { p with queuedAt := now } else p

def queuedFirst (r r' : PendingRow) : Prop :=
  r.2.queuedAt < r'.2.queuedAt ∨ r.2.queuedAt = r'.2.queuedAt ∧
    (r.1.1 < r'.1.1 ∨ r.1.1 = r'.1.1 ∧ r.1.2 ≤ r'.1.2)

instance (r r' : PendingRow) : Decidable (queuedFirst r r') :=
  inferInstanceAs (Decidable (_ ∨ _))

/-- The next batch of a tick, which reads past the agents it has handled. -/
def fetchPending (T : PendingQueue) (batch : ℕ) (seen : List Agent) : List (Agent × ℕ) :=
  ((((T.rows.insertionSort queuedFirst).take (batch + seen.length)).filter
    fun r ↦ r.1 ∉ seen).take batch).map fun r ↦ (r.1, r.2.generation)

/-- What stays fixed: the providers, and which agents are valid and mapped. -/
structure Tenants where
  provider : ℕ → Bool
  rulesUseScim : ℕ → Bool
  validUser : ℕ → Bool
  mapped : Agent → Bool

def systemUserId : ℕ := 1

def Tenants.evaluates (c : Tenants) (agent : Agent) : Bool :=
  c.provider agent.1 && (agent.2 ≠ systemUserId && c.validUser agent.2) &&
    c.rulesUseScim agent.1 && c.mapped agent

/-- A committed membership change: the transaction and an agent it affects. -/
abbrev Change := ℕ × Agent

/-- What a transaction sees of the group tables. -/
structure Snapshot where
  groups : Groups
  changes : List Change
  deriving DecidableEq

structure Evaluation where
  attributes : Attributes
  changes : List Change
  deriving DecidableEq

def Snapshot.evaluate (c : Tenants) (snapshot : Snapshot) (agent : Agent) : Evaluation :=
  ⟨scimAttributes c.mapped snapshot.groups agent, snapshot.changes⟩

/-- The evaluations that were applied, newest first. -/
abbrev Evaluations := List (Agent × Evaluation)

def Evaluations.last (evaluated : Evaluations) (agent : Agent) : Evaluation :=
  ((evaluated.find? fun e ↦ e.1 = agent).map (·.2)).getD ⟨⟨[], []⟩, []⟩

/-- An agent that is not evaluated is ignored. -/
def Evaluations.record (c : Tenants) (evaluated : Evaluations) (agent : Agent)
    (snapshot : Snapshot) : Evaluations :=
  if c.evaluates agent then (agent, snapshot.evaluate c agent) :: evaluated else evaluated

/-- The inserts of an enqueue, and the generations of the rows that its deletes hit. -/
structure Enqueued where
  deleted : List (Agent × ℕ)
  inserted : List PendingRow
  deriving DecidableEq

/-- A group write transaction; it holds the lock of its group row. `seen` is what its read of the
generations returns. -/
structure WriteTransaction where
  transaction : ℕ
  groupId : ℕ
  write : GroupWrite
  seen : PendingQueue
  enqueued : Option Enqueued
  deriving DecidableEq

inductive Job
  | evaluating (agent : Agent) (read : ℕ) (snapshot : Snapshot)
  | failed (agent : Agent) (read : ℕ)
  deriving DecidableEq

structure Tick where
  batch : ℕ
  seen : List Agent
  todo : List (Agent × ℕ)
  job : Option Job
  deriving DecidableEq

/-- The inputs from which an enqueue computed a generation. -/
structure ClockReading where
  agent : Agent
  old : ℕ
  clock : ℕ
  deriving DecidableEq

structure SyncState where
  groups : Groups
  pending : PendingQueue
  changes : List Change
  transactions : List WriteTransaction
  tick : Option Tick
  evaluated : Evaluations
  readings : List ClockReading
  deriving DecidableEq

inductive Action
  | write (transaction groupId : ℕ) (write : GroupWrite)
  | look (transaction : ℕ)
  | enqueue (transaction now clock : ℕ)
  | commit (transaction : ℕ)
  | rollback (transaction : ℕ)
  | tick (batch : ℕ)
  | fetch
  | start
  | apply
  | fail
  | pushBack (now : ℕ)
  | pushBackFails
  | stop
  deriving DecidableEq

namespace SyncState

def snapshot (s : SyncState) : Snapshot := ⟨s.groups, s.changes⟩

def find (s : SyncState) (transaction : ℕ) : Option WriteTransaction :=
  s.transactions.find? fun w ↦ w.transaction = transaction

def others (s : SyncState) (transaction : ℕ) : List WriteTransaction :=
  s.transactions.filter fun w ↦ w.transaction ≠ transaction

/-- The agents that `_enqueue` hands over. -/
def queued (c : Tenants) (w : GroupWrite) : List Agent :=
  if c.rulesUseScim w.providerId then w.agents else []

def enqueue (c : Tenants) (s : SyncState) (w : WriteTransaction) (now clock : ℕ) : SyncState :=
  let agents := queued c w.write
  let deleted := (s.pending.rows.filter fun r ↦ r.1 ∈ agents).map fun r ↦ (r.1, r.2.generation)
  let inserted := enqueueRoleSync w.seen agents now clock
  { s with
    transactions := { w with enqueued := some ⟨deleted, inserted⟩ } :: s.others w.transaction
    readings := (agents.map fun agent ↦ ⟨agent, oldGeneration w.seen agent, clock⟩) ++
      s.readings }

/-- The rows and the memberships become visible together; a row that is there under the same key
and was not deleted makes the transaction fail. -/
def commit (s : SyncState) (w : WriteTransaction) (e : Enqueued) : Option SyncState :=
  ((s.pending.delete fun r ↦ (r.1, r.2.generation) ∈ e.deleted).insert e.inserted).map fun pending ↦
    { s with
      groups := s.groups.set w.groupId w.write.after
      pending
      changes := (w.write.agents.map fun agent ↦ (w.transaction, agent)) ++ s.changes
      transactions := s.others w.transaction }

/-- `_sync_one` after its reads: the assignments and the row, in one transaction. -/
def apply (c : Tenants) (s : SyncState) (k : Tick) (agent : Agent) (read : ℕ)
    (snapshot : Snapshot) : SyncState :=
  { s with
    pending := deletePending s.pending agent read
    tick := some { k with job := none }
    evaluated := s.evaluated.record c agent snapshot }

def nextTick (c : Tenants) (s : SyncState) (k : Tick) : Action → Option SyncState
  | .fetch =>
    if k.todo = [] ∧ k.job = none then
      match fetchPending s.pending k.batch k.seen with
      | [] => some { s with tick := none }
      | rows => some { s with tick := some { k with todo := rows } }
    else none
  | .start =>
    match k.job, k.todo with
    | none, (agent, read) :: todo =>
      some { s with
        tick := some ⟨k.batch, agent :: k.seen, todo, some (.evaluating agent read s.snapshot)⟩ }
    | _, _ => none
  | .apply =>
    match k.job with
    | some (.evaluating agent read snapshot) => some (s.apply c k agent read snapshot)
    | _ => none
  | .fail =>
    match k.job with
    | some (.evaluating agent read _) =>
      some { s with tick := some { k with job := some (.failed agent read) } }
    | _ => none
  | .pushBack now =>
    match k.job with
    | some (.failed agent read) =>
      some { s with
        pending := Scim.pushBack s.pending agent read now
        tick := some { k with job := none } }
    | _ => none
  | .pushBackFails =>
    match k.job with
    | some (.failed _ _) => some { s with tick := some { k with job := none } }
    | _ => none
  | _ => none

def next (c : Tenants) (s : SyncState) : Action → Option SyncState
  | .write transaction groupId write =>
    if s.groups.find groupId = write.before ∧
        ∀ w ∈ s.transactions, w.transaction ≠ transaction ∧ w.groupId ≠ groupId then
      some { s with
        transactions := ⟨transaction, groupId, write, s.pending, none⟩ :: s.transactions }
    else none
  | .look transaction =>
    (s.find transaction).map fun w ↦
      { s with transactions := { w with seen := s.pending } :: s.others transaction }
  | .enqueue transaction now clock =>
    (s.find transaction).bind fun w ↦
      if w.enqueued = none then some (s.enqueue c w now clock) else none
  | .commit transaction =>
    (s.find transaction).bind fun w ↦ w.enqueued.bind fun e ↦ s.commit w e
  | .rollback transaction => some { s with transactions := s.others transaction }
  | .tick batch =>
    if s.tick = none then some { s with tick := some ⟨batch, [], [], none⟩ } else none
  | .stop => some { s with tick := none }
  | action => s.tick.bind fun k ↦ s.nextTick c k action

end SyncState

/-- Group write transactions and the ticks of the one worker. -/
def roleSyncMachine (c : Tenants) : Machine SyncState Action :=
  .ofNext (fun s ↦ s = ⟨.empty, .empty, [], [], none, [], []⟩) (SyncState.next c)

end Tiqora.Identity.Scim
