import Tiqora.Foundation.Machine
import Tiqora.Foundation.Tables
import Tiqora.Plugins.Restart

namespace Tiqora.Plugins

open Foundation

structure Settings where
  enabled : Bool
  timeout : ℕ
  deriving DecidableEq

variable {Id : Type}

/-- Where a tick of the watch loop stands: the clock value of its start and what it has read. -/
inductive Phase (Id : Type)
  | asleep
  | started (now : ℕ)
  | beaten (now : ℕ)
  | targeted (now : ℕ) (latest : Option RestartRow) (view : List (ProcessRow Id))
  | read (now : ℕ) (latest : Option RestartRow) (processes : List (ProcessRow Id))
  | purged (now : ℕ) (latest : Option RestartRow) (processes : List (ProcessRow Id))
  | left
  deriving DecidableEq

structure Process (Id : Type) where
  role : ProcessRole
  bootGeneration : ℕ
  jobWaitSince : Table ℕ ℕ
  phase : Phase Id
  deriving DecidableEq

/-- What a decision was made from. -/
structure Reading (Id : Type) where
  me : ProcessRow Id
  target : RestartRow
  processes : List (ProcessRow Id)
  now : ℕ
  deriving DecidableEq

structure Exit (Id : Type) where
  reading : Reading Id
  exitedAt : ℕ
  deriving DecidableEq

inductive Closing (Id : Type)
  | superseded (target : RestartRow)
  | failed (reading : Reading Id) (message : String)
  | finished (reading : Reading Id)
  deriving DecidableEq

def Closing.target : Closing Id → RestartRow
  | .superseded target => target
  | .failed reading _ | .finished reading => reading.target

/-- `restarts` has the newest request first. `replacedBy` names the process that was registered in
the place of one that exited. -/
structure RestartState (Id : Type) where
  clock : ℕ
  processes : List (ProcessRow Id)
  restarts : List RestartRow
  running : Table Id (Process Id)
  exits : List (Exit Id)
  replacedBy : Table Id Id
  closings : List (Closing Id)
  deriving DecidableEq

inductive RestartAction (Id : Type)
  | advance (time : ℕ)
  | register (instanceId : Id) (role : ProcessRole) (now : ℕ) (replaces : Option Id)
  | request (generation now : ℕ) (ensureRoles : List ProcessRole)
  | start (instanceId : Id)
  | heartbeat (instanceId : Id)
  | readLatest (instanceId : Id)
  | readProcesses (instanceId : Id)
  | purge (instanceId : Id)
  | step (instanceId : Id) (kinds : List String)
  | fail (instanceId : Id)
  deriving DecidableEq

def RestartRow.isOpen (r : RestartRow) : Bool := r.finishedAt.isNone && r.failedMessage.isNone

/-- The newest generation, `0` without a request. -/
def newestGeneration (restarts : List RestartRow) : ℕ := (restarts.head?.map (·.generation)).getD 0

/-- The `roles` of a new request. -/
def requestedRoles (processes : List (ProcessRow Id)) (restarts : List RestartRow) (now : ℕ)
    (ensureRoles : List ProcessRole) : List ProcessRole :=
  let alive := (processes.filter fun p ↦ p.stays now).map (·.role) ++ ensureRoles ++
    (restarts.filter (·.isOpen)).flatMap (·.roles)
  restartRoles.filter fun r ↦ r ∈ alive

/-- `UPDATE … WHERE generation = … AND finished_at IS NULL AND failed_message IS NULL`. -/
def closeOpen (restarts : List RestartRow) (generation : ℕ) (close : RestartRow → RestartRow) :
    List RestartRow :=
  restarts.map fun r ↦ if r.generation = generation ∧ r.isOpen then close r else r

def purgeDead (processes : List (ProcessRow Id)) (now : ℕ) : List (ProcessRow Id) :=
  processes.filter fun p ↦ now ≤ p.heartbeatAt + deadAfter

/-- The running processes of a read have a heartbeat that is not too old. -/
def Fresh (processes : List (ProcessRow Id)) (now : ℕ) : Prop :=
  ∀ p ∈ processes, p.exitingAt = none → p.live now

instance (processes : List (ProcessRow Id)) (now : ℕ) : Decidable (Fresh processes now) :=
  inferInstanceAs (Decidable (∀ _ ∈ _, _ → _))

variable [LinearOrder Id]

/-- The `UPDATE` of `heartbeat`, or the row that a process without one inserts. -/
def beat (processes : List (ProcessRow Id)) (instanceId : Id) (p : Process Id) (now : ℕ) :
    List (ProcessRow Id) :=
  if instanceId ∈ processes.map (·.instanceId) then
    processes.map fun q ↦ if q.instanceId = instanceId then { q with heartbeatAt := now } else q
  else processes ++ [⟨instanceId, p.role, p.bootGeneration, now, none⟩]

def leave (processes : List (ProcessRow Id)) (instanceId : Id) (now : ℕ) : List (ProcessRow Id) :=
  processes.map fun q ↦ if q.instanceId = instanceId then { q with exitingAt := some now } else q

namespace RestartState

/-- An exited process whose replacement is not registered. -/
def missing (s : RestartState Id) (e : Exit Id) : Prop :=
  s.replacedBy.find e.reading.me.instanceId = none

instance (s : RestartState Id) (e : Exit Id) : Decidable (s.missing e) :=
  inferInstanceAs (Decidable (_ = _))

def setPhase (s : RestartState Id) (instanceId : Id) (p : Process Id) (phase : Phase Id) :
    RestartState Id :=
  { s with running := s.running.set instanceId (some { p with phase }) }

def replaced (s : RestartState Id) (replaces : Option Id) (instanceId : Id) : Table Id Id :=
  match replaces with
  | some old => s.replacedBy.set old (some instanceId)
  | none => s.replacedBy

/-- The rest of `_step` after the reads. -/
def act (settings : Settings) (s : RestartState Id) (instanceId : Id) (p : Process Id)
    (now : ℕ) (latest : Option RestartRow) (processes : List (ProcessRow Id))
    (kinds : List String) : RestartState Id :=
  match processes.find? fun q ↦ q.instanceId = instanceId, latest with
  | none, _ | _, none => s.setPhase instanceId p .asleep
  | some me, some target =>
    let jobs := if settings.enabled then kinds else []
    let busy := jobs.any fun k ↦ k ∈ pluginJobKinds
    let reading : Reading Id := ⟨me, target, processes, now⟩
    match decide me latest processes now settings.timeout settings.enabled busy with
    | .stay => s.setPhase instanceId p .asleep
    | .exit =>
      let since := (p.jobWaitSince.find target.generation).getD now
      if jobs ≠ [] ∧ now ≤ since + seconds settings.timeout then
        s.setPhase instanceId
          { p with jobWaitSince := p.jobWaitSince.set target.generation (some since) } .asleep
      else
        { s.setPhase instanceId p .left with
          processes := leave s.processes instanceId now
          exits := ⟨reading, s.clock⟩ :: s.exits }
    | .fail message =>
      { s.setPhase instanceId p .asleep with
        restarts := closeOpen s.restarts target.generation
          fun r ↦ { r with failedMessage := some message }
        closings := if s.restarts.any fun r ↦ r.generation = target.generation ∧ r.isOpen then
          .failed reading message :: s.closings else s.closings }
    | .finish =>
      { s.setPhase instanceId p .asleep with
        restarts := closeOpen s.restarts target.generation
          fun r ↦ { r with finishedAt := some now }
        closings := if s.restarts.any fun r ↦ r.generation = target.generation ∧ r.isOpen then
          .finished reading :: s.closings else s.closings }

/-- An exited process is replaced within the window, and a running one is alive in every read. -/
def next (isolation : Isolation) (settings : Settings) (s : RestartState Id) :
    RestartAction Id → Option (RestartState Id)
  | .advance time =>
    if ∀ e ∈ s.exits, s.missing e →
        s.clock + time < e.exitedAt + seconds (liveWithinSeconds + settings.timeout) then
      some { s with clock := s.clock + time }
    else none
  | .register instanceId role now replaces =>
    if s.running.find instanceId = none ∧ now ≤ s.clock ∧
        ∀ old ∈ replaces, old ∈ s.exits.map (·.reading.me.instanceId) ∧
          s.replacedBy.find old = none then
      let generation := newestGeneration s.restarts
      some { s with
        processes := s.processes ++ [⟨instanceId, role, generation, now, none⟩]
        running := s.running.set instanceId (some ⟨role, generation, .empty, .asleep⟩)
        replacedBy := s.replaced replaces instanceId }
    else none
  | .request generation now ensureRoles =>
    if newestGeneration s.restarts < generation ∧ now ≤ s.clock then
      some { s with
        restarts :=
          ⟨generation, now, requestedRoles s.processes s.restarts now ensureRoles, none, none⟩ ::
            s.restarts.map fun r ↦ if r.isOpen then { r with finishedAt := some now } else r
        closings := (s.restarts.filter (·.isOpen)).map .superseded ++ s.closings }
    else none
  | .start instanceId =>
    match s.running.find instanceId with
    | some p =>
      match p.phase with
      | .asleep => some (s.setPhase instanceId p (.started s.clock))
      | _ => none
    | none => none
  | .heartbeat instanceId =>
    match s.running.find instanceId with
    | some p =>
      match p.phase with
      | .started now => some { s.setPhase instanceId p (.beaten now) with
          processes := beat s.processes instanceId p now }
      | _ => none
    | none => none
  | .readLatest instanceId =>
    match s.running.find instanceId with
    | some p =>
      match p.phase with
      | .beaten now => some (s.setPhase instanceId p (.targeted now s.restarts.head? s.processes))
      | _ => none
    | none => none
  | .readProcesses instanceId =>
    match s.running.find instanceId with
    | some p =>
      match p.phase with
      | .targeted now latest view =>
        let processes := isolation.visible view s.processes
        if Fresh processes now then some (s.setPhase instanceId p (.read now latest processes))
        else none
      | _ => none
    | none => none
  | .purge instanceId =>
    match s.running.find instanceId with
    | some p =>
      match p.phase with
      | .read now latest processes =>
        if p.role = .api then
          if Fresh s.processes now then
            some { s.setPhase instanceId p (.purged now latest processes) with
              processes := purgeDead s.processes now }
          else none
        else some (s.setPhase instanceId p (.purged now latest processes))
      | _ => none
    | none => none
  | .step instanceId kinds =>
    match s.running.find instanceId with
    | some p =>
      match p.phase with
      | .purged now latest processes =>
        some (s.act settings instanceId p now latest processes kinds)
      | _ => none
    | none => none
  | .fail instanceId =>
    match s.running.find instanceId with
    | some p =>
      match p.phase with
      | .asleep | .left => none
      | _ => some (s.setPhase instanceId p .asleep)
    | none => none

end RestartState

/-- No process is registered and no restart requested. -/
def restartWatch (isolation : Isolation) (settings : Settings) :
    Machine (RestartState Id) (RestartAction Id) :=
  .ofNext (fun s ↦ s.processes = [] ∧ s.restarts = [] ∧ s.running = .empty ∧ s.exits = [] ∧
    s.replacedBy = .empty ∧ s.closings = []) (RestartState.next isolation settings)

end Tiqora.Plugins
