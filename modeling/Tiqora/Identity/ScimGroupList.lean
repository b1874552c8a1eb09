import Tiqora.Identity.ScimFilter

namespace Tiqora.Identity.ScimGroupList

open Foundation Scim ScimFilter

inductive UserKind
  | agent
  | customer
  deriving DecidableEq

structure ScimTenant where
  providerId : ℕ
  userKind : UserKind
  deriving DecidableEq

structure ListParams where
  startIndex : ℕ
  count : ℕ
  pos : 0 < startIndex

structure GroupMember where
  scimId : Text
  userName : Text
  deleted : Bool
  deriving DecidableEq

/-- A row of `tiqora_scim_group` with the users in it by id. -/
structure GroupRow where
  id : ℕ
  providerId : ℕ
  scimId : Text
  displayName : Text
  displayNameFoldHash : Text
  externalId : Option Text
  externalIdHash : Option Text
  version : ℕ
  members : List GroupMember
  deriving DecidableEq

/-- A rendered group; its members are left out on request. -/
structure GroupDoc where
  id : Text
  displayName : Text
  externalId : Option Text
  version : ℕ
  members : Option (List (Text × Text))
  deriving DecidableEq

/-- `str.casefold` goes character by character and leaves surrogates alone. -/
structure Casefold where
  fold : Text → Text
  surrogate : ∀ s, (fold s).any isSurrogate = s.any isSurrogate

/-- `hashlib.sha256(…).hexdigest()`. -/
structure Digest where
  hex : List ℕ → Text
  ascii : ∀ b, ∀ c ∈ hex b, 32 ≤ c ∧ c < 127

/-- The texts that the database driver can send, and how the database compares ids. -/
structure Driver where
  sends : Text → Bool
  ascii : ∀ s, (∀ c ∈ s, 32 ≤ c ∧ c < 127) → sends s = true
  same : Text → Text → Bool

inductive Raised
  | scim (e : ScimError)
  | unicodeEncode
  | driver
  deriving DecidableEq

def requireAgent (tenant : ScimTenant) : Except Raised Unit :=
  require (tenant.userKind = .agent)
    (.scim ⟨404, none, "Groups are not available for customer provisioning"⟩)

def render (includeMembers : Bool) (row : GroupRow) : GroupDoc where
  id := row.scimId
  displayName := row.displayName
  externalId := row.externalId.filter (· ≠ [])
  version := row.version
  members := if includeMembers then
    some ((row.members.filter fun m ↦ ¬ m.deleted).map fun m ↦ (m.scimId, m.userName)) else none

section List

variable (F : Casefold) (D : Digest) (V : Driver)

def sha (value : Text) : Except Raised Text :=
  match encodeUtf8 value with
  | none => .error .unicodeEncode
  | some bytes => .ok (D.hex bytes)

/-- The condition of a query on one column, with the text bound to it. -/
def whereFilter : Option ScimFilter → Except Raised (Option (Text × (GroupRow → Bool)))
  | none => .ok none
  | some flt =>
    match flt.attr with
    | .id => .ok (some (flt.value.take 64, fun row ↦ V.same row.scimId (flt.value.take 64)))
    | .displayName => do
      let hash ← sha D (F.fold flt.value)
      return some (hash, fun row ↦ row.displayNameFoldHash = hash)
    | .externalId => do
      let hash ← sha D flt.value
      return some (hash, fun row ↦ row.externalIdHash = some hash)
    | .userName | .emailsValue =>
      .error (.scim ⟨400, some "invalidFilter", "Unsupported filter attribute"⟩)

/-- The rows come in the order of their ids. -/
def execute (rows : List GroupRow) (tenant : ScimTenant)
    (clause : Option (Text × (GroupRow → Bool))) : Except Raised (List GroupRow) := do
  require (clause.all fun c ↦ V.sends c.1) .driver
  return rows.filter fun row ↦
    row.providerId = tenant.providerId && clause.all fun c ↦ c.2 row

def listGroups (rows : List GroupRow) (tenant : ScimTenant) (flt : Option ScimFilter)
    (params : ListParams) (includeMembers : Bool) : Except Raised (ℕ × List GroupDoc) := do
  requireAgent tenant
  let clause ← whereFilter F D V flt
  let counted ← execute V rows tenant clause
  let total := counted.length
  if params.count = 0 then return (total, [])
  else do
    let found ← execute V rows tenant clause
    let shown := (found.drop (params.startIndex - 1)).take params.count
    return (total, shown.map (render includeMembers))

end List

end Tiqora.Identity.ScimGroupList
