import Tiqora.Foundation.Expiring
import Tiqora.Foundation.Machine
import Mathlib.Algebra.Ring.Int.Defs
import Mathlib.Logic.Function.Basic

namespace Tiqora.Totp

open Foundation

def stepSeconds : ℕ := 30

def replayTtlSeconds : ℕ := 90

def pendingTtlSeconds : ℕ := 600

/-- The row of the user, with the secret that its token decrypts to. -/
structure Row where
  secret : Option String
  enabled : Bool
  deriving DecidableEq

/-- The calls, `enroll` with the secret that it draws. -/
inductive Request
  | enroll (secret : String) (currentCode : Option String)
  | confirm (code : String)
  | verify (code : String)
  | disable (code : String)
  deriving DecidableEq

/-- What a call does next. The step-up of `enroll`, `verify` and `disable` match the code against
the secret of the row, then claim the step, read the guard and write it. `enroll` and `disable` are
then ready to write. `confirm` finds the pending secret (with the call that stored it, or in a row
that is not enabled), matches the code, reads the row and commits. -/
inductive Phase
  | proving (secret : Option String)
  | matched (secret : String) (step : ℤ)
  | claimed (secret : String) (step : ℤ)
  | guarded (secret : String) (step : ℤ)
  | ready
  | unpended
  | found (secret : String) (source : Option ℕ)
  | checked (secret : String) (source : Option ℕ)
  | target (secret : String) (source : Option ℕ) (row : Option Row)
  | committed
  | done (result : Bool)
  | failed
  deriving DecidableEq

/-- A call, with the steps that were accepted when it started and the number of the commits when it
read the row (`confirm`: the pending secret). -/
structure Call where
  request : Request
  phase : Phase
  before : List ℤ
  seen : ℕ

structure Acceptance where
  step : ℤ
  before : List ℤ
  deriving DecidableEq

/-- The clock in milliseconds, the row, the Redis keys of the user and the calls. Beside them stand
the accepted steps, the calls whose code was accepted with the secret that it was matched against,
and the secrets that were committed, `none` for a deletion. -/
structure State where
  now : ℕ
  row : Option Row
  used : ℤ → Option (Expiring Unit)
  last : Option (Expiring ℤ)
  pending : Option (Expiring (String × ℕ))
  calls : ℕ → Option Call
  accepted : List Acceptance
  proofs : List (ℕ × String)
  commits : List (Option String)

inductive Action
  | tick (ms : ℕ)
  | start (id : ℕ) (request : Request)
  | advance (id : ℕ)
  deriving DecidableEq

/-- `_match_timestep`; `valid` is the check of the TOTP library at a step. -/
def matchTimestep (valid : String → String → ℤ → Bool) (secret code : String) (now : ℕ) :
    Option ℤ :=
  let base : ℤ := (now / 1000 / stepSeconds : ℕ)
  [base - 1, base, base + 1].find? fun step ↦ valid secret code step

def Row.live (row : Option Row) : Option Row := row.filter (·.enabled)

/-- The code that a request gives for the live factor. -/
def Request.code : Request → Option String
  | .enroll _ currentCode => currentCode.filter (· ≠ "")
  | .verify code | .disable code => some code
  | .confirm _ => none

namespace State

variable (valid : String → String → ℤ → Bool) (s : State)

/-- The first statement of a call reads the row, or the pending secret in Redis. -/
def firstPhase : Request → Phase
  | .confirm _ =>
    match Expiring.get s.pending s.now with
    | some (secret, source) => .found secret (some source)
    | none => .unpended
  | .enroll _ currentCode =>
    match Row.live s.row with
    | none => .ready
    | some row => if (currentCode.filter (· ≠ "")).isSome then .proving row.secret else .done false
  | .verify _ | .disable _ =>
    match Row.live s.row with
    | none => .done false
    | some row => .proving row.secret

def put (id : ℕ) (call : Call) : State := { s with calls := Function.update s.calls id (some call) }

theorem put_calls {id id' : ℕ} {call call' : Call} (h : (s.put id call).calls id' = some call') :
    id' = id ∧ call' = call ∨ id' ≠ id ∧ s.calls id' = some call' := by
  have h : Function.update s.calls id (some call) id' = some call' := h
  by_cases heq : id' = id
  · subst heq
    rw [Function.update_self] at h
    exact .inl ⟨rfl, (Option.some.inj h).symm⟩
  · rw [Function.update_of_ne heq] at h
    exact .inr ⟨heq, h⟩

def start (id : ℕ) (request : Request) : State :=
  s.put id ⟨request, s.firstPhase request, s.accepted.map (·.step), s.commits.length⟩

/-- `_verify_code` up to the claim. -/
def proving (call : Call) (secret : Option String) : Phase :=
  match secret, call.request.code with
  | some secret, some code =>
    match matchTimestep valid secret code s.now with
    | some step => .matched secret step
    | none => .done false
  | _, _ => .done false

/-- `_accept_timestep` claims the step with `SET NX`. -/
def claim (id : ℕ) (call : Call) (secret : String) (step : ℤ) : State :=
  if (Expiring.get (s.used step) s.now).isSome then s.put id { call with phase := .done false }
  else
    { s.put id { call with phase := .claimed secret step } with
      used := Function.update s.used step (some ⟨(), s.now + replayTtlSeconds * 1000⟩) }

def readGuard (secret : String) (step : ℤ) : Phase :=
  if (Expiring.get s.last s.now).any fun last ↦ step ≤ last then .done false
  else .guarded secret step

/-- The guard is written, the code is accepted. -/
def accept (id : ℕ) (call : Call) (secret : String) (step : ℤ) : State :=
  let phase : Phase :=
    match call.request with
    | .verify _ => .done true
    | _ => .ready
  { s.put id { call with phase } with
    last := some ⟨step, s.now + replayTtlSeconds * 1000⟩
    accepted := s.accepted ++ [⟨step, call.before⟩]
    proofs := s.proofs ++ [(id, secret)] }

/-- `enroll` stores the pending secret, `disable` deletes the row. -/
def write (id : ℕ) (call : Call) : Option State :=
  match call.request with
  | .enroll secret _ =>
    some { s.put id { call with phase := .done true } with
      pending := some ⟨(secret, id), s.now + pendingTtlSeconds * 1000⟩ }
  | .disable _ =>
    some { s.put id { call with phase := .committed } with
      row := none
      commits := s.commits ++ [none] }
  | .verify _ | .confirm _ => none

/-- The fallback of `_get_pending_secret` on a row that is not enabled. -/
def fallback : Phase :=
  match s.row with
  | some ⟨some secret, false⟩ => .found secret none
  | _ => .done false

/-- The row as the commit of `confirm` leaves it: inserted if none was read, else updated, where
`enabled` is written only if it changes. A row in the way or a row that is gone fails the commit. -/
def confirmed (secret : String) : Option Row → Option Row
  | none => if s.row.isNone then some ⟨some secret, true⟩ else none
  | some row => s.row.map fun current ↦ ⟨some secret, if row.enabled then current.enabled else true⟩

def commit (id : ℕ) (call : Call) (secret : String) (row : Option Row) : State :=
  match s.confirmed secret row with
  | none => s.put id { call with phase := .failed }
  | some row =>
    { s.put id { call with phase := .committed } with
      row := some row
      commits := s.commits ++ [some secret] }

def matchPending (request : Request) (secret : String) (source : Option ℕ) : Phase :=
  match request with
  | .confirm code =>
    if (matchTimestep valid secret code s.now).isSome then .checked secret source else .done false
  | _ => .done false

def advance (id : ℕ) (call : Call) : Option State :=
  match call.phase with
  | .proving secret => some (s.put id { call with phase := s.proving valid call secret })
  | .matched secret step => some (s.claim id call secret step)
  | .claimed secret step => some (s.put id { call with phase := s.readGuard secret step })
  | .guarded secret step => some (s.accept id call secret step)
  | .ready => s.write id call
  | .unpended => some (s.put id { call with phase := s.fallback, seen := s.commits.length })
  | .found secret source =>
    some (s.put id { call with phase := s.matchPending valid call.request secret source })
  | .checked secret source => some (s.put id { call with phase := .target secret source s.row })
  | .target secret _ row => some (s.commit id call secret row)
  | .committed => some { s.put id { call with phase := .done true } with pending := none }
  | .done _ | .failed => none

def next : Action → Option State
  | .tick ms => some { s with now := s.now + ms }
  | .start id request => if (s.calls id).isNone then some (s.start id request) else none
  | .advance id => (s.calls id).bind fun call ↦ s.advance valid id call

end State

def Initial (s : State) : Prop :=
  s.used = (fun _ ↦ none) ∧ s.last = none ∧ s.pending = none ∧ s.calls = (fun _ ↦ none) ∧
    s.accepted = [] ∧ s.proofs = [] ∧ s.commits = []

/-- The service of one user. -/
def service (valid : String → String → ℤ → Bool) : Machine State Action :=
  .ofNext Initial (State.next valid)

end Tiqora.Totp
