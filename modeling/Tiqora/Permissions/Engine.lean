import Tiqora.Foundation.KeySets
import Tiqora.Foundation.Text
import Mathlib.Data.List.Dedup

namespace Tiqora.Permissions

open Foundation

structure User where
  id : ℕ
  login : String
  firstName : String
  lastName : String
  validId : ℕ

structure Group where
  id : ℕ
  name : String
  validId : ℕ

structure Role where
  id : ℕ
  name : String
  validId : ℕ

structure GroupUser where
  userId : ℕ
  groupId : ℕ
  permissionKey : String

structure GroupRole where
  roleId : ℕ
  groupId : ℕ
  permissionKey : String
  permissionValue : ℤ

structure RoleUser where
  userId : ℕ
  roleId : ℕ

structure Queue where
  id : ℕ
  groupId : ℕ

/-- The tables of the permissions, with their primary keys. -/
structure Database where
  users : List User
  groups : List Group
  roles : List Role
  groupUser : List GroupUser
  groupRole : List GroupRole
  roleUser : List RoleUser
  queues : List Queue
  users_unique : (users.map (·.id)).Nodup
  groups_unique : (groups.map (·.id)).Nodup
  roles_unique : (roles.map (·.id)).Nodup
  queues_unique : (queues.map (·.id)).Nodup

def permissionKeys : List String := ["ro", "move_into", "create", "note", "owner", "priority", "rw"]

variable (db : Database)

def userIsValid (userId : ℕ) : Bool := db.users.any fun u ↦ u.id = userId && u.validId = 1

def validGroupIds : List ℕ := (db.groups.filter fun g ↦ g.validId = 1).map (·.id)

/-- The ids of the valid roles of a user. -/
def validRoleIds (userId : ℕ) : List ℕ :=
  (db.roleUser.filter fun ru ↦ ru.userId = userId &&
    db.roles.any fun r ↦ r.id = ru.roleId && r.validId = 1).map (·.roleId)

/-- The rows of the user that carry a key of the list on a valid group, with those of the valid
roles. -/
def permissionPairs (userId : ℕ) : List (ℕ × String) :=
  ((db.groupUser.filter fun gu ↦ gu.userId = userId).filterMap fun gu ↦
    if (validGroupIds db).contains gu.groupId && permissionKeys.contains gu.permissionKey then
      some (gu.groupId, gu.permissionKey) else none) ++
  (db.groupRole.filter fun gr ↦ (validRoleIds db userId).contains gr.roleId &&
      gr.permissionValue = 1).filterMap fun gr ↦
    if (validGroupIds db).contains gr.groupId && permissionKeys.contains gr.permissionKey then
      some (gr.groupId, gr.permissionKey) else none

def queuePermissions (userId : ℕ) : KeySets ℕ String :=
  if userIsValid db userId then KeySets.ofPairs (permissionPairs db userId) else []

def check (userId queueId : ℕ) (perm : String) : Bool :=
  permissionKeys.contains perm &&
    match db.queues.find? fun q ↦ q.id = queueId with
    | none => false
    | some q =>
      let keys := (queuePermissions db userId).get q.groupId
      !keys.isEmpty && (keys.contains "rw" || keys.contains perm)

def groupsForPermission (userId : ℕ) (perm : String) : List ℕ :=
  if permissionKeys.contains perm then
    ((queuePermissions db userId).filter fun entry ↦
      entry.2.contains "rw" || entry.2.contains perm).map (·.1)
  else []

def usersForGroupPermission (groupId : ℕ) (key : String) : List ℕ :=
  if (validGroupIds db).contains groupId then
    let keys := [key, "rw"]
    let direct := (db.groupUser.filter fun gu ↦ gu.groupId = groupId &&
      keys.contains gu.permissionKey && userIsValid db gu.userId).map (·.userId)
    let viaRole := (db.roleUser.filter fun ru ↦
      (db.roles.any fun r ↦ r.id = ru.roleId && r.validId = 1) &&
      (db.groupRole.any fun gr ↦ gr.roleId = ru.roleId && gr.groupId = groupId &&
        keys.contains gr.permissionKey && gr.permissionValue = 1) &&
      userIsValid db ru.userId).map (·.userId)
    (direct ++ viaRole).dedup
  else []

/-- The user hash of the ACL checks. -/
structure UserChecks where
  userId : ℕ
  userLogin : Option String := none
  userFirstname : Option String := none
  userLastname : Option String := none
  userFullname : Option String := none
  groups : List (String × List String) := []
  role : List String := []

def sortNames (names : List String) : List String := names.mergeSort fun a b ↦ a ≤ b

/-- `sorted(PERMISSION_KEYS)`. -/
def sortedKeys : List String := ["create", "move_into", "note", "owner", "priority", "ro", "rw"]

/-- The id and name of each valid group. -/
def validGroups : List (ℕ × String) :=
  (db.groups.filter fun g ↦ g.validId = 1).map fun g ↦ (g.id, g.name)

/-- The ACL code's own copy of `permissionPairs`. -/
def userCheckPairs (userId : ℕ) : List (ℕ × String) :=
  let roleIds := (db.roleUser.filter fun ru ↦ ru.userId = userId &&
    db.roles.any fun r ↦ r.id = ru.roleId && r.validId = 1).map (·.roleId)
  ((db.groupUser.filter fun gu ↦ gu.userId = userId).filterMap fun gu ↦
    if ((validGroups db).lookup gu.groupId).isSome && permissionKeys.contains gu.permissionKey then
      some (gu.groupId, gu.permissionKey) else none) ++
  (db.groupRole.filter fun gr ↦ roleIds.contains gr.roleId && gr.permissionValue = 1).filterMap
    fun gr ↦
      if ((validGroups db).lookup gr.groupId).isSome && permissionKeys.contains gr.permissionKey then
        some (gr.groupId, gr.permissionKey) else none

/-- The validity of the user is not looked at. -/
def loadUserChecks (userId : ℕ) : UserChecks :=
  match db.users.find? fun u ↦ u.id = userId with
  | none => { userId := userId }
  | some user =>
    let permsByGroup := KeySets.ofPairs (userCheckPairs db userId)
    { userId := user.id
      userLogin := some user.login
      userFirstname := some user.firstName
      userLastname := some user.lastName
      userFullname := some (String.ofList (strip (user.firstName ++ " " ++ user.lastName).toList))
      groups := sortedKeys.map fun permKey ↦
        ("Group_" ++ permKey, sortNames (permsByGroup.filterMap fun entry ↦
          if entry.2.contains permKey || entry.2.contains "rw" then
            (validGroups db).lookup entry.1 else none))
      role := sortNames ((db.roles.filter fun r ↦ r.validId = 1 &&
        db.roleUser.any fun ru ↦ ru.roleId = r.id && ru.userId = userId).map (·.name)) }

def UserChecks.group (checks : UserChecks) (key : String) : List String :=
  (checks.groups.lookup ("Group_" ++ key)).getD []

end Tiqora.Permissions
