import Mathlib.Data.Nat.Notation

namespace Tiqora.Identity.Scim

structure ScimError where
  status : ℕ
  scimType : Option String
  detail : String
  deriving DecidableEq

end Tiqora.Identity.Scim
