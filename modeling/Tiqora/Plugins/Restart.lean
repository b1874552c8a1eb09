import Mathlib.Data.List.Sort

namespace Tiqora.Plugins

inductive ProcessRole
  | api | worker | mcp | aiWorker
  deriving DecidableEq

def pluginRoles : List ProcessRole := [.api, .worker, .mcp, .aiWorker]

def restartOrder : List ProcessRole := [.worker, .aiWorker, .mcp, .api]

/-- Moments are in microseconds. -/
def seconds (n : ℕ) : ℕ := n * 1000000

def liveWithinSeconds : ℕ := 30

def deadAfter : ℕ := seconds 3600

def roleLabel : ProcessRole → String
  | .api => "Weboberfläche und Schnittstelle"
  | .worker => "Hintergrunddienst"
  | .mcp => "KI-Schnittstelle (MCP)"
  | .aiWorker => "KI-Hintergrunddienst"

def pluginJobKinds : List String :=
  ["core.plugin_install", "core.plugin_uninstall", "core.plugin_fetch",
    "core.plugin_repository_refresh"]

def restartRoles : List ProcessRole := restartOrder.filter fun r ↦ r ∈ pluginRoles

structure ProcessRow (Id : Type) where
  instanceId : Id
  role : ProcessRole
  bootGeneration : ℕ
  heartbeatAt : ℕ
  exitingAt : Option ℕ
  deriving DecidableEq

structure RestartRow where
  generation : ℕ
  requestedAt : ℕ
  roles : List ProcessRole
  finishedAt : Option ℕ
  failedMessage : Option String
  deriving DecidableEq

inductive Decision
  | stay | exit | finish
  | fail (message : String)
  deriving DecidableEq

variable {Id : Type}

def ProcessRow.live (p : ProcessRow Id) (now : ℕ) : Prop :=
  now ≤ p.heartbeatAt + seconds liveWithinSeconds

instance (p : ProcessRow Id) (now : ℕ) : Decidable (p.live now) := Nat.decLe _ _

/-- A live process that has not committed to leave. -/
def ProcessRow.stays (p : ProcessRow Id) (now : ℕ) : Prop := p.live now ∧ p.exitingAt = none

instance (p : ProcessRow Id) (now : ℕ) : Decidable (p.stays now) :=
  inferInstanceAs (Decidable (_ ∧ _))

/-- It has left since the restart was requested. -/
def ProcessRow.exitedFor (p : ProcessRow Id) (target : RestartRow) : Bool :=
  p.exitingAt.any fun exitingAt ↦ target.requestedAt ≤ exitingAt

/-- `(done, started)` of one role. -/
def roleView (role : ProcessRole) (target : RestartRow) (processes : List (ProcessRow Id))
    (now : ℕ) : Bool × Bool :=
  let mine := processes.filter fun p ↦ p.role = role
  let live := mine.filter fun p ↦ p.stays now
  let new := live.filter fun p ↦ target.generation ≤ p.bootGeneration
  let old := live.filter fun p ↦ p.bootGeneration < target.generation
  let exits := mine.filter fun p ↦ p.exitedFor target
  (!new.isEmpty && old.isEmpty, !exits.isEmpty || !new.isEmpty)

def timedOut (role : ProcessRole) (target : RestartRow) (processes : List (ProcessRow Id))
    (now timeout : ℕ) : Bool :=
  let mine := processes.filter fun p ↦ p.role = role
  let live := mine.filter fun p ↦ p.stays now
  if live.any fun p ↦ target.generation ≤ p.bootGeneration then false
  else
    let exits := (mine.filter fun p ↦ p.exitedFor target).filterMap (·.exitingAt)
    if exits.isEmpty then live.isEmpty && decide (target.requestedAt + seconds timeout < now)
    else decide (exits.foldr max 0 + seconds timeout < now)

def failMessage (role : ProcessRole) : String :=
  roleLabel role ++ " ist nach dem Neustart nicht zurückgekommen. " ++
    "Bitte prüfen Sie die Container; die übrigen Dienste laufen weiter."

/-- What the first role that is not done makes of the restart. -/
def firstOpen (target : RestartRow) (processes : List (ProcessRow Id)) (now timeout : ℕ) :
    List ProcessRole → Option Decision
  | [] => none
  | role :: roles =>
    if (roleView role target processes now).1 then firstOpen target processes now timeout roles
    else if timedOut role target processes now timeout then some (.fail (failMessage role))
    else some .stay

variable [LinearOrder Id]

def same (me : ProcessRow Id) (processes : List (ProcessRow Id)) : List (ProcessRow Id) :=
  processes.filter fun p ↦ p.role = me.role ∧ p.instanceId ≠ me.instanceId

/-- The exits that a process of the role counts. -/
def exited (me : ProcessRow Id) (target : RestartRow) (processes : List (ProcessRow Id))
    (now timeout : ℕ) : List (ProcessRow Id) :=
  (same me processes).filter fun p ↦ p.exitedFor target ∧
    ∀ exitingAt ∈ p.exitingAt, now ≤ exitingAt + seconds (liveWithinSeconds + timeout)

/-- The processes of the role that it counts as replacements. -/
def back (me : ProcessRow Id) (target : RestartRow) (processes : List (ProcessRow Id))
    (now : ℕ) : List (ProcessRow Id) :=
  (same me processes).filter fun p ↦ p.stays now ∧ target.generation ≤ p.bootGeneration

def waiting (me : ProcessRow Id) (target : RestartRow) (processes : List (ProcessRow Id))
    (now : ℕ) : List Id :=
  (me.instanceId :: ((same me processes).filter fun p ↦
    p.stays now ∧ p.bootGeneration < target.generation).map (·.instanceId)).insertionSort (· ≤ ·)

/-- Python's truth value of `finished_at or failed_message`. -/
def RestartRow.closed (target : RestartRow) : Bool :=
  target.finishedAt.isSome || decide (target.failedMessage.getD "" ≠ "")

def decide (me : ProcessRow Id) (target : Option RestartRow) (processes : List (ProcessRow Id))
    (now timeout : ℕ) (enabled busy : Bool) : Decision :=
  match enabled, target with
  | false, _ | _, none => .stay
  | true, some target =>
    if target.closed then .stay
    else if me.role ∉ target.roles then .stay
    else if target.generation ≤ me.bootGeneration then
      if me.role ≠ .api then .stay
      else (firstOpen target processes now timeout target.roles).getD .finish
    else
      match firstOpen target processes now timeout (target.roles.takeWhile (· ≠ me.role)) with
      | some decision => decision
      | none =>
        if busy then .stay
        else if (back me target processes now).length <
            (exited me target processes now timeout).length then .stay
        else if (waiting me target processes now).head? ≠ some me.instanceId then .stay
        else .exit

section Spec

variable {role : ProcessRole} {target : RestartRow} {processes : List (ProcessRow Id)}
variable {me p : ProcessRow Id} {now timeout : ℕ} {enabled busy : Bool}

/-- The role has a live process of the new generation and none of the old one. -/
def Done (role : ProcessRole) (target : RestartRow) (processes : List (ProcessRow Id))
    (now : ℕ) : Prop :=
  (∃ p ∈ processes, p.role = role ∧ p.stays now ∧ target.generation ≤ p.bootGeneration) ∧
    ∀ p ∈ processes, p.role = role → p.stays now → target.generation ≤ p.bootGeneration

omit [LinearOrder Id] in
theorem roleView_done (h : (roleView role target processes now).1 = true) :
    Done role target processes now := by
  rw [roleView, Bool.and_eq_true, Bool.not_eq_true', List.isEmpty_eq_false_iff_exists_mem,
    List.isEmpty_iff, List.filter_eq_nil_iff] at h
  obtain ⟨⟨p, hp⟩, hold⟩ := h
  have hmem : ∀ q : ProcessRow Id, q ∈ (processes.filter fun p ↦ p.role = role).filter
      (fun p ↦ p.stays now) ↔ q ∈ processes ∧ q.role = role ∧ q.stays now := by
    intro q
    rw [List.mem_filter, List.mem_filter, decide_eq_true_iff, decide_eq_true_iff, and_assoc]
  obtain ⟨hlive, hnew⟩ := List.mem_filter.1 hp
  obtain ⟨hprocess, hrole, hstays⟩ := (hmem p).1 hlive
  refine ⟨⟨p, hprocess, hrole, hstays, of_decide_eq_true hnew⟩, fun q hq hrole hstays ↦ ?_⟩
  have hnot := hold q ((hmem q).2 ⟨hq, hrole, hstays⟩)
  rw [decide_eq_true_iff] at hnot
  exact Nat.not_lt.1 hnot

omit [LinearOrder Id] in
theorem firstOpen_none {roles : List ProcessRole}
    (h : firstOpen target processes now timeout roles = none) :
    ∀ role ∈ roles, Done role target processes now := by
  induction roles with
  | nil => exact nofun
  | cons role roles ih =>
    rw [firstOpen] at h
    split at h
    · next hdone => exact List.forall_mem_cons.2 ⟨roleView_done hdone, ih h⟩
    · split at h
      · cases h
      · cases h

omit [LinearOrder Id] in
theorem firstOpen_ne {roles : List ProcessRole} {decision : Decision}
    (h : firstOpen target processes now timeout roles = some decision) :
    decision ≠ .exit ∧ decision ≠ .finish := by
  induction roles with
  | nil => cases h
  | cons role roles ih =>
    rw [firstOpen] at h
    split at h
    · exact ih h
    · split at h
      · cases h
        exact ⟨nofun, nofun⟩
      · cases h
        exact ⟨nofun, nofun⟩

theorem waiting_first (h : (waiting me target processes now).head? = some me.instanceId)
    (hp : p ∈ processes) (hrole : p.role = me.role) (hstays : p.stays now)
    (hold : p.bootGeneration < target.generation) : me.instanceId ≤ p.instanceId := by
  by_cases hid : p.instanceId = me.instanceId
  · exact hid.ge
  · have hwaits : p.instanceId ∈ waiting me target processes now := by
      rw [waiting, List.mem_insertionSort, List.mem_cons, List.mem_map]
      refine .inr ⟨p, List.mem_filter.2 ⟨List.mem_filter.2 ⟨hp, ?_⟩, ?_⟩, rfl⟩
      · exact decide_eq_true ⟨hrole, hid⟩
      · exact decide_eq_true ⟨hstays, hold⟩
    have hsorted : (waiting me target processes now).Pairwise (· ≤ ·) :=
      List.pairwise_insertionSort _ _
    obtain ⟨rest, hrest⟩ := List.head?_eq_some_iff.1 h
    rw [hrest] at hsorted hwaits
    exact (List.mem_cons.1 hwaits).elim (fun heq ↦ heq.ge) ((List.pairwise_cons.1 hsorted).1 _)

/-- What a process that decides to exit has read. -/
structure Exits (me : ProcessRow Id) (target : RestartRow) (processes : List (ProcessRow Id))
    (now timeout : ℕ) : Prop where
  old : me.bootGeneration < target.generation
  earlier : ∀ role ∈ target.roles.takeWhile (· ≠ me.role), Done role target processes now
  counted : (exited me target processes now timeout).length ≤
    (back me target processes now).length
  first : (waiting me target processes now).head? = some me.instanceId

theorem decide_exit {latest : Option RestartRow}
    (h : decide me latest processes now timeout enabled busy = .exit) :
    ∃ target, latest = some target ∧ Exits me target processes now timeout := by
  rw [decide.eq_def] at h
  split at h
  · cases h
  · cases h
  · next target =>
    refine ⟨target, rfl, ?_⟩
    split at h
    · cases h
    split at h
    · cases h
    split at h
    · split at h
      · cases h
      · cases hopen : firstOpen target processes now timeout target.roles with
        | none =>
          rw [hopen] at h
          cases h
        | some decision =>
          rw [hopen] at h
          exact absurd h (firstOpen_ne hopen).1
    · next hold =>
      split at h
      · next hopen => exact absurd h (firstOpen_ne hopen).1
      · next hopen =>
        split at h
        · cases h
        split at h
        · cases h
        · next hcounted =>
          split at h
          · cases h
          · next hfirst =>
            exact ⟨Nat.not_le.1 hold, firstOpen_none hopen, Nat.not_lt.1 hcounted,
              not_not.1 hfirst⟩

theorem decide_finish {latest : Option RestartRow}
    (h : decide me latest processes now timeout enabled busy = .finish) :
    ∃ target, latest = some target ∧ me.role = .api ∧ target.generation ≤ me.bootGeneration ∧
      ∀ role ∈ target.roles, Done role target processes now := by
  rw [decide.eq_def] at h
  split at h
  · cases h
  · cases h
  · next target =>
    refine ⟨target, rfl, ?_⟩
    split at h
    · cases h
    split at h
    · cases h
    split at h
    · next hnew =>
      split at h
      · cases h
      · next hrole =>
        cases hopen : firstOpen target processes now timeout target.roles with
        | none => exact ⟨not_not.1 hrole, hnew, firstOpen_none hopen⟩
        | some decision =>
          rw [hopen] at h
          exact absurd h (firstOpen_ne hopen).2
    · split at h
      · next hopen => exact absurd h (firstOpen_ne hopen).2
      · split at h
        · cases h
        split at h
        · cases h
        split at h
        · cases h
        · cases h

end Spec

end Tiqora.Plugins
