import Tiqora.Foundation.Machine
import Tiqora.Foundation.Tables

namespace Tiqora.Ai.RunLock

open Foundation

def lockMaxAge : ℕ := 15 * 60

variable {Owner : Type} [DecidableEq Owner]

/-- `run_lock_owner` and `run_lock_at` on the state row of the ticket. -/
structure Lock (Owner : Type) where
  owner : Owner
  takenAt : ℕ
  deriving DecidableEq

/-- Where a call of `run_ticket_agent` is. `copy` is what its session holds of the lock columns,
`acquired` the instant at which it committed its lock. -/
inductive Phase (Owner : Type)
  | read (seen : Option (Lock Owner))
  | claiming (takenAt : ℕ)
  | running (copy : Option (Lock Owner)) (acquired : ℕ)
  | superseded (acquired : ℕ)
  | ended
  deriving DecidableEq

/-- Set between `_acquire_lock` and the end of the call. -/
def Phase.acquired : Phase Owner → Option ℕ
  | .running _ acquired | .superseded acquired => some acquired
  | .read _ | .claiming _ | .ended => none

/-- The calls by their owner value; `cleared` lists the call of each release that cleared a lock,
with the owner of that lock. -/
structure LockState (Owner : Type) where
  clock : ℕ
  row : Option (Lock Owner)
  calls : Table Owner (Phase Owner)
  cleared : List (Owner × Owner)
  deriving DecidableEq

/-- `start` reads the row and `check` decides on it, `supersede` is the release at the freshness
check and `finish` the one in `finally`; a call may die anywhere without a release. -/
inductive Action (Owner : Type)
  | wait (seconds : ℕ)
  | start (owner : Owner)
  | check (owner : Owner)
  | commit (owner : Owner)
  | reload (owner : Owner)
  | supersede (owner : Owner)
  | finish (owner : Owner)
  | die (owner : Owner)
  deriving DecidableEq

namespace LockState

def enter (s : LockState Owner) (owner : Owner) (phase : Phase Owner) : LockState Owner :=
  { s with calls := s.calls.set owner (some phase) }

/-- `_acquire_lock` from the row it has read up to its commit. -/
def acquireLock (s : LockState Owner) (owner : Owner) (seen : Option (Lock Owner)) :
    LockState Owner :=
  match seen with
  | some l =>
    if s.clock - l.takenAt < lockMaxAge then s.enter owner .ended
    else s.enter owner (.claiming s.clock)
  | none => s.enter owner (.claiming s.clock)

/-- `_release_lock`. The update is sent when the copy of the session still holds a lock, and it
names nothing but the ticket. -/
def releaseLock (s : LockState Owner) (owner : Owner) (copy : Option (Lock Owner)) :
    LockState Owner :=
  if copy.isSome then
    { s with row := none, cleared := s.cleared ++ s.row.toList.map fun l ↦ (owner, l.owner) }
  else s

/-- Every call has an owner value of its own, from a random `run_id`. -/
def next (s : LockState Owner) : Action Owner → Option (LockState Owner)
  | .wait seconds => some { s with clock := s.clock + seconds }
  | .start owner =>
    match s.calls.find owner with
    | none => some (s.enter owner (.read s.row))
    | some _ => none
  | .check owner =>
    match s.calls.find owner with
    | some (.read seen) => some (s.acquireLock owner seen)
    | _ => none
  | .commit owner =>
    match s.calls.find owner with
    | some (.claiming takenAt) =>
      let lock : Lock Owner := ⟨owner, takenAt⟩
      some ({ s with row := some lock }.enter owner (.running (some lock) s.clock))
    | _ => none
  | .reload owner =>
    match s.calls.find owner with
    | some (.running _ acquired) => some (s.enter owner (.running s.row acquired))
    | _ => none
  | .supersede owner =>
    match s.calls.find owner with
    | some (.running copy acquired) =>
      some ((s.releaseLock owner copy).enter owner (.superseded acquired))
    | _ => none
  | .finish owner =>
    match s.calls.find owner with
    | some (.running copy _) => some ((s.releaseLock owner copy).enter owner .ended)
    | some (.superseded _) => some (s.enter owner .ended)
    | _ => none
  | .die owner =>
    match s.calls.find owner with
    | some _ => some (s.enter owner .ended)
    | none => none

end LockState

def lockMachine : Machine (LockState Owner) (Action Owner) :=
  .ofNext (fun s ↦ s.row = none ∧ s.calls = .empty ∧ s.cleared = []) LockState.next

/-- When a call commits its lock, the row does not carry the lock of a call under way, and no call
that gave its lock up early is under way. -/
def TakenFromEnded (s : LockState Owner) : Action Owner → Prop
  | .commit _ => ∀ c ∈ s.calls.rows,
      (∀ l ∈ s.row, l.owner = c.1 → c.2.acquired = none) ∧
        ∀ acquired ∈ c.2.acquired, c.2 ≠ .superseded acquired
  | _ => True

instance (s : LockState Owner) : ∀ a, Decidable (TakenFromEnded s a)
  | .commit _ => inferInstanceAs (Decidable (∀ c ∈ s.calls.rows,
      (∀ l ∈ s.row, l.owner = c.1 → c.2.acquired = none) ∧
        ∀ acquired ∈ c.2.acquired, c.2 ≠ .superseded acquired))
  | .wait _ | .start _ | .check _ | .reload _ | .supersede _ | .finish _ | .die _ => .isTrue trivial

/-- A call that runs holds the lock, and nobody else is between `_acquire_lock` and the end. -/
structure Exclusive (s : LockState Owner) : Prop where
  holds : ∀ o copy acquired, (o, .running copy acquired) ∈ s.calls.rows →
    copy.isSome = true ∧ ∃ l ∈ s.row, l.owner = o
  alone : ∀ c ∈ s.calls.rows, ∀ c' ∈ s.calls.rows, c.2.acquired ≠ none → c'.2.acquired ≠ none →
    c.1 = c'.1
  cleared : ∀ r ∈ s.cleared, r.1 = r.2

variable {s t : LockState Owner} {owner : Owner} {phase : Phase Owner}

theorem mem_enter {c : Owner × Phase Owner} :
    c ∈ (s.enter owner phase).calls.rows ↔
      (c ∈ s.calls.rows ∧ c.1 ≠ owner) ∨ (c.1 = owner ∧ c.2 = phase) := by
  obtain ⟨o, p⟩ := c
  rw [LockState.enter, Table.mem_set, Option.some_inj]
  exact or_congr_right (and_congr_right fun _ ↦ eq_comm)

/-- A call that goes on without a lock of its own. -/
theorem Exclusive.enter_outside (h : Exclusive s) (hphase : phase.acquired = none) :
    Exclusive (s.enter owner phase) := by
  refine ⟨fun o copy acquired hc ↦ ?_, fun c hc c' hc' ha ha' ↦ ?_, h.cleared⟩
  · rcases mem_enter.1 hc with ⟨hc, -⟩ | ⟨-, hp⟩
    · exact h.holds o copy acquired hc
    · rw [← hp] at hphase
      cases hphase
  · rcases mem_enter.1 hc with ⟨hc, -⟩ | ⟨-, hp⟩
    · rcases mem_enter.1 hc' with ⟨hc', -⟩ | ⟨-, hp'⟩
      · exact h.alone c hc c' hc' ha ha'
      · rw [hp'] at ha'
        exact absurd hphase ha'
    · rw [hp] at ha
      exact absurd hphase ha

theorem acquireLock_exclusive (h : Exclusive s) (seen : Option (Lock Owner)) :
    Exclusive (s.acquireLock owner seen) := by
  unfold LockState.acquireLock
  split
  · split
    · exact h.enter_outside rfl
    · exact h.enter_outside rfl
  · exact h.enter_outside rfl

/-- Under the lock nobody else runs, so the release leaves nobody without it. -/
theorem releaseLock_exclusive (h : Exclusive s) {copy : Option (Lock Owner)} {acquired : ℕ}
    (hc : (owner, .running copy acquired) ∈ s.calls.rows) (hphase : ∀ c a, phase ≠ .running c a) :
    Exclusive ((s.releaseLock owner copy).enter owner phase) := by
  obtain ⟨hcopy, l, hl, hown⟩ := h.holds _ _ _ hc
  have halone : ∀ c ∈ s.calls.rows, c.2.acquired ≠ none → c.1 = owner := fun c hc' ha ↦
    h.alone c hc' _ hc ha nofun
  have hcalls : (s.releaseLock owner copy).calls = s.calls := by
    rw [LockState.releaseLock]
    split
    · rfl
    · rfl
  have hown_of : ∀ c ∈ ((s.releaseLock owner copy).enter owner phase).calls.rows,
      c.2.acquired ≠ none → c.1 = owner := by
    intro c hc' ha
    rcases mem_enter.1 hc' with ⟨hc', -⟩ | ⟨ho, -⟩
    · rw [hcalls] at hc'
      exact halone c hc' ha
    · exact ho
  refine ⟨fun o c a hr ↦ ?_, fun c hr c' hr' ha ha' ↦ ?_, fun r hr ↦ ?_⟩
  · have ho : o = owner := hown_of _ hr nofun
    rcases mem_enter.1 hr with ⟨-, hne⟩ | ⟨-, hp⟩
    · exact absurd ho hne
    · exact absurd hp.symm (hphase c a)
  · rw [hown_of c hr ha, hown_of c' hr' ha']
  · rw [LockState.releaseLock, if_pos hcopy, LockState.enter] at hr
    rcases List.mem_append.1 hr with hr | hr
    · exact h.cleared r hr
    · obtain ⟨l', hl', rfl⟩ := List.mem_map.1 hr
      rw [Option.mem_toList] at hl'
      rw [Option.mem_unique hl' hl, hown]

theorem commit_exclusive (h : Exclusive s) {takenAt : ℕ}
    (hfree : TakenFromEnded s (.commit owner)) :
    Exclusive ({ s with row := some ⟨owner, takenAt⟩ }.enter owner
      (.running (some ⟨owner, takenAt⟩) s.clock)) := by
  have hnone : ∀ c ∈ s.calls.rows, c.2.acquired = none := by
    intro c hc
    obtain ⟨hlock, hearly⟩ := hfree c hc
    obtain ⟨o, p⟩ := c
    cases p with
    | running copy acquired =>
      obtain ⟨-, l, hl, hown⟩ := h.holds o copy acquired hc
      exact hlock l hl hown
    | superseded acquired => exact absurd rfl (hearly acquired rfl)
    | read seen => rfl
    | claiming takenAt => rfl
    | ended => rfl
  have howner : ∀ c ∈ (LockState.enter { s with row := some ⟨owner, takenAt⟩ } owner
      (.running (some ⟨owner, takenAt⟩) s.clock)).calls.rows, c.2.acquired ≠ none →
      c.1 = owner ∧ c.2 = .running (some ⟨owner, takenAt⟩) s.clock := by
    intro c hc ha
    rcases mem_enter.1 hc with ⟨hc, -⟩ | hp
    · exact absurd (hnone c hc) ha
    · exact hp
  refine ⟨fun o copy acquired hc ↦ ?_, fun c hc c' hc' ha ha' ↦ ?_, h.cleared⟩
  · obtain ⟨ho, hp⟩ := howner _ hc nofun
    injection hp with hcopy
    rw [hcopy]
    exact ⟨rfl, _, rfl, ho.symm⟩
  · rw [(howner c hc ha).1, (howner c' hc' ha').1]

theorem next_exclusive (h : Exclusive s) {a : Action Owner} (hfree : TakenFromEnded s a)
    (hnext : s.next a = some t) : Exclusive t := by
  cases a with
  | wait seconds =>
    cases hnext
    exact ⟨h.holds, h.alone, h.cleared⟩
  | start owner =>
    rw [LockState.next] at hnext
    split at hnext
    · cases hnext
      exact h.enter_outside rfl
    · cases hnext
  | check owner =>
    rw [LockState.next] at hnext
    split at hnext
    · cases hnext
      exact acquireLock_exclusive h _
    · cases hnext
  | commit owner =>
    rw [LockState.next] at hnext
    split at hnext
    · cases hnext
      exact commit_exclusive h hfree
    · cases hnext
  | reload owner =>
    rw [LockState.next] at hnext
    split at hnext
    · next copy acquired hc =>
      cases hnext
      have hc' := Table.find_eq_some.1 hc
      obtain ⟨-, l, hl, hown⟩ := h.holds _ _ _ hc'
      refine ⟨fun o copy' acquired' hr ↦ ?_, fun c hr c' hr' ha ha' ↦ ?_, h.cleared⟩
      · rcases mem_enter.1 hr with ⟨hr, -⟩ | ⟨ho, hp⟩
        · exact h.holds o copy' acquired' hr
        · cases hp
          exact ⟨Option.isSome_of_mem hl, l, hl, hown.trans ho.symm⟩
      · have howner : ∀ c ∈ (s.enter owner (.running s.row acquired)).calls.rows,
            c.2.acquired ≠ none → c.1 = owner := by
          intro c hr ha
          rcases mem_enter.1 hr with ⟨hr, -⟩ | ⟨ho, -⟩
          · exact h.alone c hr _ hc' ha nofun
          · exact ho
        rw [howner c hr ha, howner c' hr' ha']
    · cases hnext
  | supersede owner =>
    rw [LockState.next] at hnext
    split at hnext
    · next copy acquired hc =>
      cases hnext
      exact releaseLock_exclusive h (Table.find_eq_some.1 hc) nofun
    · cases hnext
  | finish owner =>
    rw [LockState.next] at hnext
    split at hnext
    · next copy acquired hc =>
      cases hnext
      exact releaseLock_exclusive h (Table.find_eq_some.1 hc) nofun
    · cases hnext
      exact h.enter_outside rfl
    · cases hnext
  | die owner =>
    rw [LockState.next] at hnext
    split at hnext
    · cases hnext
      exact h.enter_outside rfl
    · cases hnext

def freeState : LockState ℕ := ⟨0, none, .empty, []⟩

/-- The second call waits for the first to end. -/
def oneAfterTheOther : List (Action ℕ) :=
  [.start 1, .check 1, .wait 2, .commit 1, .wait 60, .finish 1, .start 2, .check 2, .commit 2]

def secondRuns : LockState ℕ where
  clock := 62
  row := some ⟨2, 62⟩
  calls := ⟨[(1, .ended), (2, .running (some ⟨2, 62⟩) 62)], by decide⟩
  cleared := [(1, 1)]

/-- Both calls read the free row before either commits. -/
def bothFree : List (Action ℕ) :=
  [.start 1, .start 2, .check 1, .check 2, .commit 1, .commit 2]

end Tiqora.Ai.RunLock
