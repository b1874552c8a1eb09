import Mathlib.Data.Finset.Image
import Mathlib.Data.Finset.Union
import Mathlib.Data.Finset.SDiff
import Mathlib.Data.Nat.Notation

namespace Tiqora.Identity.Mapping

/-- A group and a permission key. -/
abbrev Perm := ℕ × String

inductive SyncMode
  | managed
  | authoritative
  deriving DecidableEq

structure Grant where
  groupId : ℕ
  permissions : Finset String

structure RoleRule where
  roleIds : Finset ℕ
  groups : List Grant

structure DesiredAssignments where
  roleIds : Finset ℕ
  groupPerms : Finset Perm
  hasRoleRules : Bool
  hasGroupRules : Bool

def keys (perms : Finset Perm) (gid : ℕ) : Finset String :=
  (perms.filter fun x ↦ x.1 = gid).image Prod.snd

/-- The permissions of the valid groups of the rules that match, before `rw` wins. -/
def granted (rules : List RoleRule) (validGroupIds : Finset ℕ) : Finset Perm :=
  ((rules.flatMap RoleRule.groups).filter fun grant ↦ grant.groupId ∈ validGroupIds).foldr
    (fun grant perms ↦ grant.permissions.image (fun p ↦ (grant.groupId, p)) ∪ perms) ∅

/-- `matched` says which rules match the attributes. -/
def evaluateRules (matched : RoleRule → Bool) (rules : List RoleRule)
    (validRoleIds validGroupIds : Finset ℕ) : DesiredAssignments where
  roleIds := (rules.filter matched).foldr (fun rule ids ↦ (rule.roleIds ∩ validRoleIds) ∪ ids) ∅
  groupPerms := (granted (rules.filter matched) validGroupIds).filter fun x ↦
    x.2 = "rw" ∨ (x.1, "rw") ∉ granted (rules.filter matched) validGroupIds
  hasRoleRules := rules.any fun rule ↦ rule.roleIds ≠ ∅
  hasGroupRules := rules.any fun rule ↦ !rule.groups.isEmpty

structure AssignmentState where
  currentRoles : Finset ℕ
  currentGroupPerms : Finset Perm
  managedRoles : Finset ℕ
  managedGroupPerms : Finset Perm
  deriving DecidableEq

/-- What is added, removed, recorded as managed and dropped from what is managed. -/
structure SetDiff (α : Type) where
  add : Finset α
  remove : Finset α
  record : Finset α
  drop : Finset α

def SetDiff.none {α : Type} : SetDiff α := ⟨∅, ∅, ∅, ∅⟩

def SetDiff.empty {α : Type} (d : SetDiff α) : Prop :=
  d.add = ∅ ∧ d.remove = ∅ ∧ d.record = ∅ ∧ d.drop = ∅

structure AssignmentDiff where
  roles : SetDiff ℕ
  groups : SetDiff Perm
  /-- The groups whose keys change, and their keys afterwards. -/
  touched : Finset ℕ
  finalGroupKeys : ℕ → Finset String

def AssignmentDiff.empty (diff : AssignmentDiff) : Prop := diff.roles.empty ∧ diff.groups.empty

section Diff

variable {α : Type} [DecidableEq α]

/-- `strippable` limits what the authoritative mode removes. -/
def diffSet (desired current managed : Finset α) (mode : SyncMode) (strippable : Option (Finset α)) :
    SetDiff α :=
  let add := desired \ current
  let drop := managed \ desired
  match mode with
  | .authoritative =>
    let stale := current \ desired
    ⟨add, strippable.elim stale (stale ∩ ·), desired \ managed, drop⟩
  | .managed => ⟨add, drop ∩ current, add, drop⟩

/-- The keys that a group ends with in the managed mode. -/
def managedFinal (desired : DesiredAssignments) (state : AssignmentState) (gid : ℕ) :
    Finset String :=
  let want := keys desired.groupPerms gid
  let cur := keys state.currentGroupPerms gid
  let managed := keys state.managedGroupPerms gid
  let live := cur \ (managed \ want)
  if want = ∅ ∨ "rw" ∈ live ∨ want ⊆ live then live else want ∪ (cur \ managed)

def managedGroupDiff (desired : DesiredAssignments) (state : AssignmentState) : SetDiff Perm :=
  let gids := desired.groupPerms.image Prod.fst ∪ state.managedGroupPerms.image Prod.fst
  let add := gids.biUnion fun gid ↦
    (managedFinal desired state gid \ keys state.currentGroupPerms gid).image fun p ↦ (gid, p)
  let remove := gids.biUnion fun gid ↦
    (keys state.currentGroupPerms gid \ managedFinal desired state gid).image fun p ↦ (gid, p)
  ⟨add, remove, add, state.managedGroupPerms \ desired.groupPerms⟩

def groupDiff (desired : DesiredAssignments) (state : AssignmentState) (mode : SyncMode)
    (validGroupIds : Option (Finset ℕ)) : SetDiff Perm :=
  let d := match mode with
    | .authoritative => diffSet desired.groupPerms state.currentGroupPerms
        state.managedGroupPerms .authoritative
        (validGroupIds.map fun valid ↦ state.currentGroupPerms.filter fun x ↦ x.1 ∈ valid)
    | .managed => managedGroupDiff desired state
  { d with drop := d.drop ∪ (d.remove ∩ state.managedGroupPerms) }

def diffAssignments (desired : DesiredAssignments) (state : AssignmentState) (mode : SyncMode)
    (validRoleIds validGroupIds : Option (Finset ℕ)) : AssignmentDiff :=
  let roles := if desired.hasRoleRules then
      diffSet desired.roleIds state.currentRoles state.managedRoles mode validRoleIds
    else .none
  let groups := if desired.hasGroupRules then groupDiff desired state mode validGroupIds
    else .none
  { roles, groups
    touched := (groups.add ∪ groups.remove).image Prod.fst
    finalGroupKeys := fun gid ↦
      (keys state.currentGroupPerms gid \ keys groups.remove gid) ∪ keys groups.add gid }

end Diff

/-- Roles are revoked and granted, the keys of a group that changes are replaced, and the marks
follow. -/
def applyAssignments (diff : AssignmentDiff) (state : AssignmentState) : AssignmentState where
  currentRoles := (state.currentRoles \ diff.roles.remove) ∪ diff.roles.add
  currentGroupPerms := state.currentGroupPerms.filter (fun x ↦ x.1 ∉ diff.touched) ∪
    diff.touched.biUnion fun gid ↦ (diff.finalGroupKeys gid).image fun p ↦ (gid, p)
  managedRoles := (state.managedRoles \ diff.roles.drop) ∪ diff.roles.record
  managedGroupPerms := (state.managedGroupPerms \ diff.groups.drop) ∪ diff.groups.record

end Tiqora.Identity.Mapping
