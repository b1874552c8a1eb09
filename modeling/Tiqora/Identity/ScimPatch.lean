import Mathlib.Data.Finset.Card
import Mathlib.Data.Finset.Image
import Mathlib.Data.Finset.Union
import Mathlib.Data.Finset.SDiff
import Tiqora.Foundation.Guarded
import Tiqora.Foundation.Scan
import Tiqora.Foundation.Text
import Tiqora.Identity.ScimError

namespace Tiqora.Identity.ScimPatch

open Foundation Scim

abbrev Text := List Char

/-- A decoded JSON value; `other` is a number or a truth value. -/
inductive Value
  | null
  | text (s : Text)
  | object (fields : List (Text × Value))
  | list (items : List Value)
  | other

def Value.isNull : Value → Bool
  | .null => true
  | _ => false

inductive OpKind
  | add
  | remove
  | replace
  deriving DecidableEq

structure PatchOp where
  op : OpKind
  path : Option Text
  value : Value

def invalidValue (detail : String) : ScimError := ⟨400, some "invalidValue", detail⟩

def invalidPath (detail : String) : ScimError := ⟨400, some "invalidPath", detail⟩

/-- An id that a list of members names. -/
def memberId : Value → Except ScimError Text
  | .object fields =>
    match fields.lookup "value".toList with
    | some (.text s) => if s = [] then .error (invalidValue "Each member needs a value") else .ok s
    | _ => .error (invalidValue "Each member needs a value")
  | _ => .error (invalidValue "Each member needs a value")

def memberIds (maxMembers : ℕ) (value : Value) : Except ScimError (Finset Text) :=
  let read (items : List Value) : Except ScimError (Finset Text) := do
    require (items.length ≤ maxMembers) (invalidValue "Too many members in one request")
    let ids ← items.mapM memberId
    return ids.toFinset
  match value with
  | .null => .ok ∅
  | .list items => read items
  | item => read [item]

def stringValue (what : String) : Value → Except ScimError Text
  | .text s => .ok s
  | _ => .error (invalidValue (what ++ " must be a string"))

/-- The tables of Unicode that the paths are compared by. -/
structure Folding where
  ignoreCase : CaseFolding
  casefold : Text → Text

/-- What the pattern `\s+` leaves. -/
def blanks (s : Text) : Option Text :=
  if (s.head?.map isSpace).getD false then some (s.dropWhile isSpace) else none

/-- The id in `members[value eq "id"]`. -/
def memberFilter (folding : Folding) (path : Text) : Option Text := do
  let same := folding.ignoreCase.same
  let s ← stripPrefix same "members[".toList path
  let s ← stripPrefix same "value".toList (s.dropWhile isSpace)
  let s ← blanks s
  let s ← stripPrefix same "eq".toList s
  let s ← blanks s
  let s ← stripPrefix same "\"".toList s
  let id := s.takeWhile (· ≠ '"')
  let s ← stripPrefix same "\"".toList (s.dropWhile (· ≠ '"'))
  let s ← stripPrefix same "]".toList (s.dropWhile isSpace)
  if id ≠ [] ∧ (s = [] ∨ s = ['\n']) then some id else none

/-- What a path names. -/
inductive Target
  | ignored
  | member (id : Text)
  | members
  | displayName
  | externalId
  | unsupported
  deriving DecidableEq

def ignoredGroupAttrs : List Text := ["id".toList, "schemas".toList, "meta".toList]

def target (folding : Folding) (rawPath : Text) : Target :=
  let path := strip rawPath
  let low := folding.casefold path
  if low ∈ ignoredGroupAttrs then .ignored
  else
    match memberFilter folding path with
    | some id => .member id
    | none =>
      if low = "members".toList then .members
      else if low = "displayname".toList then .displayName
      else if low = "externalid".toList then .externalId
      else .unsupported

/-- What the operations add up to; an external id that is named may be cleared. -/
structure MemberDelta where
  add : Finset Text
  remove : Finset Text
  replaceAll : Option (Finset Text)
  displayName : Option Text
  externalId : Option (Option Text)
  deriving DecidableEq

namespace MemberDelta

def initial : MemberDelta := ⟨∅, ∅, none, none, none⟩

def doAdd (d : MemberDelta) (ids : Finset Text) : MemberDelta :=
  match d.replaceAll with
  | some all => { d with replaceAll := some (all ∪ ids), remove := d.remove \ ids }
  | none => { d with add := d.add ∪ ids, remove := d.remove \ ids }

def doRemove (d : MemberDelta) (ids : Finset Text) : MemberDelta :=
  match d.replaceAll with
  | some all => { d with replaceAll := some (all \ ids), add := d.add \ ids }
  | none => { d with remove := d.remove ∪ ids, add := d.add \ ids }

def doReplace (d : MemberDelta) (ids : Finset Text) : MemberDelta :=
  { d with replaceAll := some ids, add := ∅, remove := ∅ }

end MemberDelta

section Apply

variable (folding : Folding) (maxMembers : ℕ)

/-- An operation on a path. -/
def applyNamed (op : OpKind) (d : MemberDelta) (path : Text) (value : Value) :
    Except ScimError MemberDelta :=
  match target folding path with
  | .ignored => .ok d
  | .member id =>
    if op = .remove then .ok (d.doRemove {id})
    else .error (invalidPath "members filter is only valid for remove")
  | .members =>
    if op = .remove ∧ value.isNull then .ok (d.doReplace ∅)
    else do
      let ids ← memberIds maxMembers value
      return match op with
        | .add => d.doAdd ids
        | .remove => d.doRemove ids
        | .replace => d.doReplace ids
  | .displayName =>
    if op = .remove then .error ⟨400, some "mutability", "displayName cannot be removed"⟩
    else do
      let name ← stringValue "displayName" value
      return { d with displayName := some name }
  | .externalId =>
    if op = .remove ∨ value.isNull then .ok { d with externalId := some none }
    else do
      let id ← stringValue "externalId" value
      return { d with externalId := some (some id) }
  | .unsupported => .error (invalidPath "Unsupported path")

def applyOne (d : MemberDelta) (op : PatchOp) : Except ScimError MemberDelta :=
  match op.path with
  | some path => applyNamed folding maxMembers op.op d path op.value
  | none =>
    match op.op, op.value with
    | .remove, _ => .error ⟨400, some "noTarget", "remove requires a path"⟩
    | kind, .object fields =>
      fields.foldlM (fun d field ↦ applyNamed folding maxMembers kind d field.1 field.2) d
    | _, _ => .error (invalidValue "value must be an object without a path")

def applyGroupPatch (ops : List PatchOp) : Except ScimError MemberDelta := do
  let d ← ops.foldlM (applyOne folding maxMembers) .initial
  require (d.add.card ≤ maxMembers ∧ d.remove.card ≤ maxMembers ∧
      d.replaceAll.elim 0 Finset.card ≤ maxMembers)
    (invalidValue "Too many members in one request")
  return d

end Apply

/-- A provisioned user; `live` ones belong to the tenant and are agents that are not deleted. -/
structure ScimUser where
  id : ℕ
  scimId : Text
  userId : ℕ
  live : Bool
  deriving DecidableEq

/-- The provisioned users under both of their keys. -/
structure Directory where
  users : Finset ScimUser
  id_unique : ∀ u ∈ users, ∀ v ∈ users, u.id = v.id → u = v
  scimId_unique : ∀ u ∈ users, ∀ v ∈ users, u.scimId = v.scimId → u = v

structure GroupRow where
  displayName : Text
  externalId : Option Text
  members : Finset ℕ
  version : ℕ
  deriving DecidableEq

namespace Directory

variable (directory : Directory)

def currentMembers (stored : Finset ℕ) : Finset ScimUser :=
  directory.users.filter fun u ↦ u.id ∈ stored

def resolve (ids : Finset Text) : Finset ScimUser :=
  directory.users.filter fun u ↦
    u.live ∧ u.scimId ∈ ids ∧ 0 < u.scimId.length ∧ u.scimId.length ≤ 36

end Directory

/-- What a name must be: `clean` drops the control and bidi characters and trims. -/
def cleanText (clean : Text → Text) (what : String) (value : Text) : Except ScimError Text := do
  require (clean value ≠ []) (invalidValue (what ++ " is required"))
  require ((clean value).length ≤ 255) (invalidValue (what ++ " is too long"))
  return clean value

def cleanExternalId (clean : Text → Text) : Option Text → Except ScimError (Option Text)
  | none => .ok none
  | some value =>
    if strip value = [] then .ok none else do
      let id ← cleanText clean "externalId" value
      return some id

structure Patched where
  row : GroupRow
  affected : Finset ℕ
  ignored : ℕ
  deriving DecidableEq

def writeMembers (current target : Finset ScimUser) : Finset ScimUser × Finset ScimUser :=
  (target.filter fun u ↦ u.scimId ∉ current.image ScimUser.scimId,
    current.filter fun u ↦ u.scimId ∉ target.image ScimUser.scimId)

def patchGroup (folding : Folding) (clean : Text → Text) (maxMembers : ℕ) (directory : Directory)
    (row : GroupRow) (ops : List PatchOp) : Except ScimError Patched := do
  let delta ← applyGroupPatch folding maxMembers ops
  let current := directory.currentMembers row.members
  let ids := current.image ScimUser.scimId
  let wanted := (delta.replaceAll.getD ids ∪ delta.add) \ delta.remove
  let unknown := directory.resolve (wanted \ ids)
  let target := (current.filter fun u ↦ u.scimId ∈ wanted) ∪ unknown
  let name ← delta.displayName.elim (.ok row.displayName) (cleanText clean "displayName")
  let externalId ← delta.externalId.elim (.ok row.externalId) (cleanExternalId clean)
  let (added, removed) := writeMembers current target
  let renamed := name ≠ row.displayName ∨ externalId ≠ row.externalId
  let affected := (added ∪ removed).image ScimUser.userId
  return {
    row := {
      displayName := name
      externalId
      members := (row.members \ removed.image ScimUser.id) ∪ added.image ScimUser.id
      version := if renamed ∨ added ≠ ∅ ∨ removed ≠ ∅ then row.version + 1 else row.version }
    affected := if renamed then affected ∪ target.image ScimUser.userId else affected
    ignored := (wanted \ ids).card - unknown.card }

end Tiqora.Identity.ScimPatch
