import Mathlib.Data.List.Basic

namespace Tiqora.Foundation

universe u

/-- A truth value of SQL: `none` is `NULL`. -/
abbrev Truth := Option Bool

namespace Truth

def not : Truth → Truth := Option.map fun b ↦ !b

def and : Truth → Truth → Truth
  | some false, _ | _, some false => some false
  | some true, some true => some true
  | _, _ => none

def or : Truth → Truth → Truth
  | some true, _ | _, some true => some true
  | some false, some false => some false
  | _, _ => none

variable {a b : Bool}

@[simp] theorem not_some : not (some a) = some (!a) := rfl

@[simp] theorem and_some : and (some a) (some b) = some (a && b) := by
  cases a with
  | false => rfl
  | true => cases b <;> rfl

@[simp] theorem or_some : or (some a) (some b) = some (a || b) := by
  cases a with
  | true => rfl
  | false => cases b <;> rfl

@[simp] theorem false_and {x : Truth} : and (some false) x = some false := rfl

@[simp] theorem true_or {x : Truth} : or (some true) x = some true := rfl

@[simp] theorem true_and {x : Truth} : and (some true) x = x := by
  rcases x with - | - | - <;> rfl

@[simp] theorem false_or {x : Truth} : or (some false) x = x := by
  rcases x with - | - | - <;> rfl

theorem and_eq_true {x y : Truth} : and x y = some true ↔ x = some true ∧ y = some true := by
  rcases x with - | - | - <;> rcases y with - | - | - <;> simp [and]

end Truth

/-- A condition on the rows of a table. -/
abbrev Predicate (ρ : Type u) := ρ → Truth

namespace Predicate

variable {ρ : Type u}

def const (b : Bool) : Predicate ρ := fun _ ↦ some b

/-- A condition that is never `NULL`. -/
def ofBool (f : ρ → Bool) : Predicate ρ := fun r ↦ some (f r)

def not (p : Predicate ρ) : Predicate ρ := fun r ↦ (p r).not

def and (p q : Predicate ρ) : Predicate ρ := fun r ↦ (p r).and (q r)

def or (p q : Predicate ρ) : Predicate ρ := fun r ↦ (p r).or (q r)

theorem not_ofBool {f : ρ → Bool} : not (ofBool f) = ofBool fun r ↦ !f r := rfl

theorem and_ofBool {f g : ρ → Bool} : and (ofBool f) (ofBool g) = ofBool fun r ↦ f r && g r :=
  funext fun _ ↦ Truth.and_some

theorem or_ofBool {f g : ρ → Bool} : or (ofBool f) (ofBool g) = ofBool fun r ↦ f r || g r :=
  funext fun _ ↦ Truth.or_some

/-- `and_(*ps)`. -/
def all (ps : List (Predicate ρ)) : Predicate ρ := ps.foldr and (const true)

/-- `or_(*ps)`. -/
def any (ps : List (Predicate ρ)) : Predicate ρ := ps.foldr or (const false)

/-- `EXISTS (SELECT … WHERE p)`, which is never `NULL`. -/
def exists_ (p : Predicate ρ) (rows : List ρ) : Bool := rows.any fun r ↦ p r = some true

theorem any_ofBool {α : Type u} {f : α → ρ → Bool} {xs : List α} :
    any (xs.map fun x ↦ ofBool (f x)) = ofBool fun r ↦ xs.any fun x ↦ f x r := by
  induction xs with
  | nil => rfl
  | cons x xs ih =>
    change or (ofBool (f x)) (any (xs.map fun x ↦ ofBool (f x))) = _
    rw [ih, or_ofBool]
    rfl

theorem all_eq_true {ps : List (Predicate ρ)} {r : ρ} :
    all ps r = some true ↔ ∀ p ∈ ps, p r = some true := by
  induction ps with
  | nil => exact ⟨fun _ ↦ nofun, fun _ ↦ rfl⟩
  | cons p ps ih =>
    change (p r).and (all ps r) = _ ↔ _
    rw [Truth.and_eq_true, ih, List.forall_mem_cons]

end Predicate

end Tiqora.Foundation
