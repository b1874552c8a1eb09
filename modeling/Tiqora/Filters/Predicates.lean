import Mathlib.Order.Lattice
import Mathlib.Data.Int.Order.Basic
import Tiqora.Foundation.Kleene
import Tiqora.Foundation.Like
import Tiqora.Foundation.Text
import Tiqora.Filters.Catalog

namespace Tiqora.Filters

open Foundation

inductive IntType
  | small | int | big
  deriving DecidableEq

/-- `INT16`, `INT32` and `INT64`. -/
def IntType.lo : IntType → ℤ
  | .small => -2 ^ 15
  | .int => -2 ^ 31
  | .big => -2 ^ 63

def IntType.hi : IntType → ℤ
  | .small => 2 ^ 15 - 1
  | .int => 2 ^ 31 - 1
  | .big => 2 ^ 63 - 1

inductive Cell
  | int (n : ℤ)
  | text (s : String)
  | moment (n : ℤ)
  | bool (b : Bool)
  deriving DecidableEq

inductive ColumnType
  | int (type : IntType)
  | text | moment | bool
  deriving DecidableEq

/-- The values that a column of the type can hold. -/
def ColumnType.holds : ColumnType → Cell → Prop
  | .int type, .int n => type.lo ≤ n ∧ n ≤ type.hi
  | .text, .text _ | .moment, .moment _ | .bool, .bool _ => True
  | _, _ => False

structure Column (ρ : Type) where
  type : ColumnType
  nullable : Bool
  value : ρ → Option Cell
  typed : ∀ r c, value r = some c → type.holds c

/-- How the database compares texts: `=`, and `LIKE` up to the case of letters. -/
structure Collation where
  eq : String → String → Bool
  folding : CaseFolding

def likeSyntax : LikeSyntax Char := ⟨'%', '_', '\\', by decide, by decide, by decide⟩

def ilike (collation : Collation) (pattern : List Char) (s : String) : Bool :=
  likeMatches collation.folding.lower (likeSyntax.tokens false pattern) s.toList

/-- `lt`, `lte`, `gt` and `gte` of integers. -/
def compares : ConditionOp → ℤ → ℤ → Bool
  | .lt, n, m => n < m
  | .lte, n, m => n ≤ m
  | .gt, n, m => m < n
  | .gte, n, m => m ≤ n
  | _, _, _ => false

def Cell.eq (collation : Collation) : Cell → Value → Bool
  | .int n, .int m => n = m
  | .text s, .text v => collation.eq s v
  | _, _ => false

/-- The comparison of an integer column with a bound number. -/
def Cell.compares (op : ConditionOp) : Cell → Value → Bool
  | .int n, .int m => Filters.compares op n m
  | _, _ => false

/-- The comparison of a moment with a bound one. -/
def Cell.timed (op : ConditionOp) (dt : ℤ) : Cell → Bool
  | .moment n => Filters.compares op n dt
  | _ => false

def Cell.contains (collation : Collation) : Cell → Value → Bool
  | .text s, .text v =>
    ilike collation ('%' :: (likeSyntax.quote v.toList ++ ['%'])) s
  | _, _ => false

def Cell.startsWith (collation : Collation) : Cell → Value → Bool
  | .text s, .text v => ilike collation (likeSyntax.quote v.toList ++ ['%']) s
  | _, _ => false

namespace Column

variable {ρ : Type} (col : Column ρ)

/-- A comparison with a constant, which is `NULL` on `NULL`. -/
def test (f : Cell → Bool) : Predicate ρ := fun r ↦ (col.value r).map f

def isNull : Predicate ρ := fun r ↦ some (col.value r).isNone

def isNotNull : Predicate ρ := fun r ↦ some (col.value r).isSome

/-- `IS TRUE` and `IS FALSE`. -/
def is_ (b : Bool) : Predicate ρ := fun r ↦ some (decide (col.value r = some (.bool b)))

def intType : IntType :=
  match col.type with
  | .int type => type
  | _ => .int

end Column

/-- The least moment of a `datetime`. -/
def minMoment : ℤ := -62135596800

/-- The current moment. -/
structure Now where
  seconds : ℤ
  ge : minMoment ≤ seconds

section Predicates

variable {ρ : Type} (py : Builtins) (collation : Collation)

/-- The constant answer of `col <op> v` for a column in `[lo, hi]`, if there is one. -/
def constCompare (op : ConditionOp) (v lo hi : ℤ) : Option Bool :=
  match op with
  | .lt => if hi < v then some true else if v ≤ lo then some false else none
  | .lte => if hi ≤ v then some true else if v < lo then some false else none
  | .gt => if v < lo then some true else if hi ≤ v then some false else none
  | .gte => if v ≤ lo then some true else if hi < v then some false else none
  | _ => none

def compare (col : Column ρ) (op : ConditionOp) (v lo hi : ℤ) : Predicate ρ :=
  match constCompare op v lo hi with
  | some b => .const b
  | none => col.test fun c ↦ c.compares op (.int v)

def datetimeCompare (col : Column ρ) (epoch : Bool) (op : ConditionOp) (dt : ℤ) : Predicate ρ :=
  if epoch then compare col op dt IntType.int.lo IntType.int.hi else col.test (Cell.timed op dt)

def datetimePredicate (col : Column ρ) (c : Condition) (path : String) (now : Now)
    (epoch : Bool) : Except FilterError (Predicate ρ) := do
  let pred ← match c.op with
    | .before => do
      let dt ← parseDatetimeValue py c.value path
      pure (datetimeCompare col epoch .lt dt)
    | .after => do
      let dt ← parseDatetimeValue py c.value path
      pure (datetimeCompare col epoch .gt dt)
    | .between => do
      let low ← parseDatetimeValue py ((c.value.get? "from").getD .null) (path ++ ".from")
      let high ← parseDatetimeValue py ((c.value.get? "to").getD .null) (path ++ ".to")
      pure ((datetimeCompare col epoch .gte low).and (datetimeCompare col epoch .lt high))
    | .withinLast | .olderThan => do
      let delta ← relativeDelta c.value path
      require (minMoment ≤ now.seconds - delta) ⟨"Der Zeitraum ist zu groß.", path⟩
      let op := if c.op = .withinLast then .gte else .lt
      pure (datetimeCompare col epoch op (now.seconds - delta))
    | _ => .error ⟨"„" ++ c.op.name ++ "“ ist für Datumsfelder nicht möglich.", path⟩
  pure (if epoch then (col.test fun cell ↦ cell.compares .gt (.int 0)).and pred else pred)

/-- `col IS NOT NULL AND col <> ''`. -/
def nonEmpty (col : Column ρ) : Predicate ρ :=
  col.isNotNull.and (Predicate.not (col.test fun cell ↦ cell.eq collation (.text "")))

/-- The operators that mean "a value that …". -/
def positivePredicate (col : Column ρ) (specType : FieldType) (c : Condition) (path : String)
    (now : Now) (epoch : Bool) : Except FilterError (Predicate ρ) :=
  if specType = .datetime then
    if c.op = .isNotEmpty then
      .ok (if epoch then col.test fun cell ↦ cell.compares .gt (.int 0) else col.isNotNull)
    else datetimePredicate py col c path now epoch
  else
    match c.op with
    | .eq => .ok (col.test fun cell ↦ cell.eq collation c.value)
    | .in_ => .ok (col.test fun cell ↦ c.value.items.any fun v ↦ cell.eq collation v)
    | .contains => .ok (col.test fun cell ↦ cell.contains collation c.value)
    | .startsWith => .ok (col.test fun cell ↦ cell.startsWith collation c.value)
    | .isNotEmpty => .ok (nonEmpty collation col)
    | .lt | .lte | .gt | .gte => .ok (col.test fun cell ↦ cell.compares c.op c.value)
    | .between => .ok
        ((col.test fun cell ↦ cell.compares .gte ((c.value.get? "from").getD .null)).and
          (col.test fun cell ↦ cell.compares .lte ((c.value.get? "to").getD .null)))
    | _ => .error ⟨"„" ++ c.op.name ++ "“ ist hier nicht möglich.", path⟩

def Value.fits (lo hi : ℤ) : Value → Bool
  | .int n => lo ≤ n ∧ n ≤ hi
  | _ => false

/-- The condition with values dropped or clamped, or the answer when it does not depend on the
column. -/
def fitIntCondition (c : Condition) (lo hi : ℤ) : Condition ⊕ Bool :=
  match c.op with
  | .eq => if c.value.fits lo hi then .inl c else .inr false
  | .neq => if c.value.fits lo hi then .inl c else .inr true
  | .in_ | .notIn =>
    match c.value.items.filter (Value.fits lo hi) with
    | [] => .inr (c.op ≠ .in_)
    | kept => .inl { c with value := .list kept }
  | .lt | .lte | .gt | .gte =>
    match c.value with
    | .int v =>
      match constCompare c.op v lo hi with
      | none => .inl c
      | some b => .inr b
    | _ => .inl c
  | .between =>
    match c.value.get? "from", c.value.get? "to" with
    | some (.int low), some (.int high) =>
      if hi < low ∨ high < lo then .inr false
      else .inl { c with value := .dict [("from", .int (max low lo)), ("to", .int (min high hi))] }
    | _, _ => .inl c
  | _ => .inl c

def negatedOp : ConditionOp → Option ConditionOp
  | .neq => some .eq
  | .notIn => some .in_
  | _ => none

/-- What `column_predicate` makes of a condition that is fitted to the column. -/
def fittedPredicate (col : Column ρ) (specType : FieldType) (c : Condition) (vpath : String)
    (now : Now) (epoch nullable : Bool) : Except FilterError (Predicate ρ) :=
  if c.op = .isEmpty then
    .ok (if specType = .datetime then
      if epoch then col.test fun cell ↦ cell.eq collation (.int 0) else col.isNull
    else col.isNull.or (col.test fun cell ↦ cell.eq collation (.text "")))
  else
    match negatedOp c.op with
    | some op => do
      let positive ← positivePredicate py collation col specType { c with op } vpath now false
      pure (if nullable then col.isNull.or positive.not else positive.not)
    | none => do
      let positive ← positivePredicate py collation col specType c vpath now epoch
      pure (if nullable then col.isNotNull.and positive else positive)

def columnPredicate (col : Column ρ) (specType : FieldType) (c : Condition) (vpath : String)
    (now : Now) (epoch : Bool) : Except FilterError (Predicate ρ) :=
  let nullable := !epoch && col.nullable
  if specType = .bool then .ok (col.is_ (c.op = .isTrue))
  else
    let fitted := if specType = .id ∨ specType = .int then
      fitIntCondition c col.intType.lo col.intType.hi else .inl c
    match fitted with
    | .inr b => .ok
        (if nullable ∧ (negatedOp c.op).isNone then col.isNotNull.and (.const b) else .const b)
    | .inl c => fittedPredicate py collation col specType c vpath now epoch nullable

end Predicates

end Tiqora.Filters
