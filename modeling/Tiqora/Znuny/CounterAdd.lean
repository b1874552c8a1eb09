import Tiqora.Foundation.Machine
import Mathlib.Logic.Function.Basic

namespace Tiqora.Znuny

open Foundation

/-- A row of `ticket_number_counter`. The uid is the call that drew it, none for a row that an
earlier call left behind. -/
structure CounterRow where
  id : ℕ
  counter : ℕ
  counterUid : Option ℕ
  createTime : ℕ
  deriving DecidableEq

/-- What every call shares (`isDateBased`, the time zone being that of the clock), and the
offset of each call. -/
structure CounterSettings where
  isDateBased : Bool
  offset : ℕ → ℕ

def secondsPerDay : ℕ := 86400

/-- The local wall clock counts microseconds, a stored time whole seconds. -/
def nowNaive (clock : ℕ) : ℕ := clock / 1000000

def todayMidnight (clock : ℕ) : ℕ := nowNaive clock / secondsPerDay * secondsPerDay

def CounterRow.day (row : CounterRow) : ℕ := row.createTime / secondsPerDay

def dateParams (isDateBased : Bool) (clock : ℕ) : Option ℕ :=
  if isDateBased then some (todayMidnight clock) else none

def CounterRow.meets (row : CounterRow) : Option ℕ → Bool
  | none => true
  | some midnight => midnight ≤ row.createTime

def selectOwn (rows : List CounterRow) (uid : ℕ) : Option CounterRow :=
  rows.find? fun row ↦ row.counterUid = some uid

def selectUnset (rows : List CounterRow) (counterId : ℕ) (midnight : Option ℕ) : List ℕ :=
  (rows.filter fun row ↦ row.counter = 0 && row.id ≤ counterId && row.meets midnight).map (·.id)

def selectPrevious (rows : List CounterRow) (unsetId : ℕ) (midnight : Option ℕ) :
    Option CounterRow :=
  (rows.filter fun row ↦ row.id < unsetId && row.meets midnight).getLast?

def previousCounter (rows : List CounterRow) (unsetId : ℕ) (midnight : Option ℕ) : ℕ :=
  ((selectPrevious rows unsetId midnight).map (·.counter)).getD 0

def CounterRow.fill (unsetId newCounter : ℕ) (row : CounterRow) : CounterRow :=
  if row.id = unsetId ∧ row.counter = 0 then { row with counter := newCounter } else row

def updateUnset (rows : List CounterRow) (unsetId newCounter : ℕ) : List CounterRow :=
  rows.map (CounterRow.fill unsetId newCounter)

/-- Where a call stands between two of its transactions. -/
inductive Phase
  | start
  | refused
  | stamped (createTime : ℕ)
  | inserted
  | located (counterId : ℕ)
  | bounded (counterId : ℕ) (midnight : Option ℕ)
  | filling (counterId : ℕ) (midnight : Option ℕ) (unsetIds : List ℕ) (setOffsetDone : Bool)
  | loaded (counterId : ℕ) (midnight : Option ℕ) (unsetId : ℕ) (unsetIds : List ℕ)
      (newCounter : ℕ)
  | returned (counter : ℕ)
  | vanished
  deriving DecidableEq

def newCounter (settings : CounterSettings) (uid previous : ℕ) (setOffsetDone : Bool) : ℕ :=
  if setOffsetDone then previous + 1 else previous + settings.offset uid

/-- The next transaction of `ticket_number_counter_add`, the insert apart. -/
def ticketNumberCounterAdd (settings : CounterSettings) (clock : ℕ) (rows : List CounterRow)
    (uid : ℕ) : Phase → Option (Phase × List CounterRow)
  | .start =>
    if settings.offset uid < 1 then some (.refused, rows)
    else some (.stamped (nowNaive clock), rows)
  | .inserted =>
    match selectOwn rows uid with
    | none => some (.vanished, rows)
    | some row => some (.located row.id, rows)
  | .located counterId => some (.bounded counterId (dateParams settings.isDateBased clock), rows)
  | .bounded counterId midnight =>
    some (.filling counterId midnight (selectUnset rows counterId midnight) false, rows)
  | .filling counterId midnight (unsetId :: unsetIds) setOffsetDone =>
    some (.loaded counterId midnight unsetId unsetIds
      (newCounter settings uid (previousCounter rows unsetId midnight) setOffsetDone), rows)
  | .loaded counterId midnight unsetId unsetIds counter =>
    some (.filling counterId midnight unsetIds true, updateUnset rows unsetId counter)
  | .filling _ _ [] _ =>
    match selectOwn rows uid with
    | none => some (.vanished, rows)
    | some row => some (.returned row.counter, rows)
  | .stamped _ | .refused | .returned _ | .vanished => none

structure CounterState where
  clock : ℕ
  rows : List CounterRow
  phase : ℕ → Phase

def CounterState.move (s : CounterState) (uid : ℕ) (phase : Phase) (rows : List CounterRow) :
    CounterState where
  clock := s.clock
  rows := rows
  phase := Function.update s.phase uid phase

/-- Time passes, a call inserts its row under a fresh id, or it makes another of its steps. -/
inductive CounterAction
  | wait (duration : ℕ)
  | insert (uid id : ℕ)
  | advance (uid : ℕ)

def CounterState.next (settings : CounterSettings) (s : CounterState) :
    CounterAction → Option CounterState
  | .wait duration => some { s with clock := s.clock + duration }
  | .insert uid id =>
    match s.phase uid with
    | .stamped createTime =>
      if ∀ row ∈ s.rows, row.id < id then
        some (s.move uid .inserted (s.rows ++ [⟨id, 0, some uid, createTime⟩]))
      else none
    | _ => none
  | .advance uid =>
    (ticketNumberCounterAdd settings s.clock s.rows uid (s.phase uid)).map fun next ↦
      s.move uid next.1 next.2

/-- Rows whose counters have to differ. -/
def Together (settings : CounterSettings) (row row' : CounterRow) : Prop :=
  settings.isDateBased = true → row.day = row'.day

/-- A set row comes after set rows only, and carries more than each of them. -/
def Chained (settings : CounterSettings) (rows : List CounterRow) : Prop :=
  ∀ row ∈ rows, ∀ row' ∈ rows, row.id < row'.id → Together settings row row' →
    row'.counter ≠ 0 → row.counter ≠ 0 ∧ row.counter < row'.counter

/-- No call has begun, and earlier calls have left a table behind. -/
structure CounterStart (settings : CounterSettings) (s : CounterState) : Prop where
  phase : ∀ uid, s.phase uid = .start
  ordered : s.rows.Pairwise fun row row' ↦ row.id < row'.id
  unowned : ∀ row ∈ s.rows, row.counterUid = none
  past : ∀ row ∈ s.rows, row.createTime ≤ nowNaive s.clock
  chained : Chained settings s.rows

def counterMachine (settings : CounterSettings) : Machine CounterState CounterAction :=
  .ofNext (CounterStart settings) (CounterState.next settings)

end Tiqora.Znuny
