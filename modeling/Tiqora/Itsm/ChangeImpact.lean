import Tiqora.Foundation.Machine
import Tiqora.Foundation.Tables
import Mathlib.Data.Finset.Image
import Mathlib.Data.Finset.Union

namespace Tiqora.Itsm.Change

open Foundation

/-- One link or service change of a change ticket. -/
inductive DataChange
  | linkCi (ci : ℕ)
  | unlinkCi (ci : ℕ)
  | setService (service : Option ℕ)
  | addService (service : ℕ)
  | removeService (service : ℕ)
  deriving DecidableEq

structure ChangeData where
  linked : Finset ℕ
  service : Option ℕ
  extraServices : Finset ℕ
  deriving DecidableEq

def ChangeData.apply (d : ChangeData) : DataChange → ChangeData
  | .linkCi ci => { d with linked := insert ci d.linked }
  | .unlinkCi ci => { d with linked := d.linked.erase ci }
  | .setService service => { d with service }
  | .addService service => { d with extraServices := insert service d.extraServices }
  | .removeService service => { d with extraServices := d.extraServices.erase service }

def dataOf (log : List DataChange) : ChangeData := log.foldl ChangeData.apply ⟨∅, none, ∅⟩

structure Reach where
  ciIds : Finset ℕ
  serviceIds : Finset ℕ
  truncated : Bool

/-- The CMDB: which CIs exist, and what an incident on some of them reaches. -/
structure Cmdb where
  hasCi : ℕ → Bool
  affectedSet : Finset ℕ → Reach

inductive ImpactKind
  | ci | service
  deriving DecidableEq

structure ImpactRow where
  kind : ImpactKind
  refKey : ℕ
  direct : Bool
  deriving DecidableEq

structure ImpactSet where
  rows : Finset ImpactRow
  truncated : Bool
  deriving DecidableEq

def affectedRows (cmdb : Cmdb) (d : ChangeData) : ImpactSet :=
  let directCis := d.linked.filter fun ci ↦ cmdb.hasCi ci
  let directServices := d.extraServices ∪ d.service.elim ∅ ({·})
  let reach := cmdb.affectedSet directCis
  { rows :=
      (reach.ciIds ∪ directCis).image (fun ci ↦ ⟨.ci, ci, ci ∈ directCis⟩) ∪
        (reach.serviceIds ∪ directServices).image fun service ↦
          ⟨.service, service, service ∈ directServices⟩
    truncated := reach.truncated }

def maxPasses : ℕ := 3

/-- A request time in whole seconds after every earlier one that was read. -/
def nextStamp (now : ℤ) : Option ℤ → ℤ
  | none => now
  | some old => if old < now then now else old + 1

/-- What a pass stores as `impact_computed_at`. -/
def computedStamp (started : ℤ) : Option ℤ → ℤ
  | none => started - 1
  | some requested => if started - 1 < requested then requested else started - 1

def impactIsCurrent (requestedAt computedAt : Option ℤ) : Bool :=
  match computedAt, requestedAt with
  | none, _ => false
  | some _, none => true
  | some computed, some requested => requested ≤ computed

/-- A transaction that changes links or services: the stamp it has read, the one it will write, and
whether it found an active job. -/
structure Request where
  changes : List DataChange
  read : Option (Option ℤ)
  stamp : Option ℤ
  joins : Option Bool
  deriving DecidableEq

/-- Where a run of `run_change_impact_job` stands; `passes` are complete. -/
inductive Phase
  | queued
  | starting (passes : ℕ) (started : ℤ)
  | locked (passes : ℕ) (started : ℤ) (requested : Option ℤ)
  | computed (passes : ℕ) (stamp : ℤ) (requested : Option ℤ) (impact : ImpactSet)
    (log : List DataChange)
  | stored (passes : ℕ) (requested : Option ℤ)
  | finished
  deriving DecidableEq

/-- Who has locked the change row. -/
inductive Holder
  | request (transaction : ℕ)
  | job (job : ℕ)
  deriving DecidableEq

/-- `log` holds the committed changes, `storedLog` those the stored set was computed from. -/
structure ImpactState where
  clock : ℤ
  requestedAt : Option ℤ
  computedAt : Option ℤ
  lock : Option Holder
  log : List DataChange
  stored : ImpactSet
  storedLog : List DataChange
  requests : Table ℕ Request
  jobs : Table ℕ Phase
  deriving DecidableEq

inductive RequestStep
  | readRow
  | stamp
  | write
  | enqueue
  | commit (job : ℕ)
  | rollback
  deriving DecidableEq

inductive JobStep
  | start
  | lock
  | compute
  | store
  | reread
  | finalize
  | interrupt
  deriving DecidableEq

inductive ImpactAction
  | wait (seconds : ℕ)
  | change (transaction : ℕ) (changes : List DataChange)
  | request (transaction : ℕ) (step : RequestStep)
  | job (job : ℕ) (step : JobStep)
  deriving DecidableEq

namespace ImpactState

def setRequest (s : ImpactState) (transaction : ℕ) (r : Request) : ImpactState :=
  { s with requests := s.requests.set transaction (some r) }

def setJob (s : ImpactState) (job : ℕ) (phase : Option Phase) : ImpactState :=
  { s with jobs := s.jobs.set job phase }

def release (s : ImpactState) (holder : Holder) : ImpactState :=
  { s with lock := if s.lock = some holder then none else s.lock }

/-- The changes, the stamp and a job that the request has queued become visible together. -/
def commit (s : ImpactState) (transaction job : ℕ) (r : Request) : Option ImpactState :=
  match r.stamp, r.joins with
  | some stamp, some joins =>
    if s.lock = some (.request transaction) ∧ (joins = false → s.jobs.find job = none) then
      some { s with
        requestedAt := some stamp
        lock := none
        log := s.log ++ r.changes
        requests := s.requests.set transaction none
        jobs := if joins then s.jobs else s.jobs.set job (some .queued) }
    else none
  | _, _ => none

def nextRequest (s : ImpactState) (transaction : ℕ) (r : Request) :
    RequestStep → Option ImpactState
  | .readRow => some (s.setRequest transaction { r with read := some s.requestedAt })
  | .stamp =>
    r.read.bind fun read ↦
      if r.stamp = none then
        some (s.setRequest transaction { r with stamp := some (nextStamp s.clock read) })
      else none
  | .write =>
    if r.stamp ≠ none ∧ s.lock = none then some { s with lock := some (.request transaction) }
    else none
  | .enqueue => some (s.setRequest transaction { r with joins := some (s.jobs.rows ≠ []) })
  | .commit job => s.commit transaction job r
  | .rollback =>
    some { s.release (.request transaction) with requests := s.requests.set transaction none }

def nextJob (cmdb : Cmdb) (s : ImpactState) (job : ℕ) : Phase → JobStep → Option ImpactState
  | .queued, .start => some (s.setJob job (some (.starting 0 s.clock)))
  | .starting passes started, .lock =>
    if s.lock = none then
      some { s.setJob job (some (.locked passes started s.requestedAt)) with
        lock := some (.job job) }
    else none
  | .locked passes started requested, .compute =>
    some (s.setJob job (some (.computed passes (computedStamp started requested) requested
      (affectedRows cmdb (dataOf s.log)) s.log)))
  | .computed passes stamp requested impact log, .store =>
    some { (s.release (.job job)).setJob job (some (.stored (passes + 1) requested)) with
      computedAt := some stamp
      stored := impact
      storedLog := log }
  | .stored passes requested, .reread =>
    some (s.setJob job (some
      (if s.requestedAt = requested ∨ maxPasses ≤ passes then .finished
        else .starting passes s.clock)))
  | .finished, .finalize => some (s.setJob job none)
  | _, .interrupt => some ((s.release (.job job)).setJob job (some .queued))
  | _, _ => none

def next (cmdb : Cmdb) (s : ImpactState) : ImpactAction → Option ImpactState
  | .wait seconds => some { s with clock := s.clock + seconds }
  | .change transaction changes =>
    if s.requests.find transaction = none then
      some (s.setRequest transaction ⟨changes, none, none, none⟩)
    else none
  | .request transaction step =>
    (s.requests.find transaction).bind fun r ↦ s.nextRequest transaction r step
  | .job job step => (s.jobs.find job).bind fun phase ↦ s.nextJob cmdb job phase step

end ImpactState

/-- One change, with the transactions that change its links and services and the jobs that compute
its impact set. -/
def impactMachine (cmdb : Cmdb) : Machine ImpactState ImpactAction :=
  .ofNext (fun s ↦ s.computedAt = none ∧ s.lock = none ∧ s.requests = .empty ∧ s.jobs = .empty)
    (ImpactState.next cmdb)

end Tiqora.Itsm.Change
