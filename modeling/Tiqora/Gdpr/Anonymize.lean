import Tiqora.Gdpr.ValueMapper

namespace Tiqora.Gdpr.Anonymize

structure CustomerUser where
  id : ℕ
  login : Text
  email : Text
  customerId : Text
  firstName : Text
  lastName : Text
  phone : Option Text
  fax : Option Text
  mobile : Option Text
  street : Option Text
  zip : Option Text
  city : Option Text
  country : Option Text
  deriving DecidableEq

structure Company where
  customerId : Text
  name : Text
  deriving DecidableEq

structure Ticket where
  id : ℕ
  customerUserId : Option Text

structure Article where
  id : ℕ
  ticketId : ℕ

/-- A row of `article_data_mime`. -/
structure Mime where
  id : ℕ
  articleId : ℕ
  aFrom : Option Text
  aTo : Option Text
  aCc : Option Text
  aBody : Option Text
  deriving DecidableEq

/-- The counts of a run in the audit. -/
structure Audit where
  target : Text
  actor : Text
  customerUsers : ℕ
  companies : ℕ
  articles : ℕ
  tickets : ℕ
  forceParallel : Bool
  deriving DecidableEq

structure Db where
  customers : List CustomerUser
  companies : List Company
  tickets : List Ticket
  articles : List Article
  mimes : List Mime
  /-- The tickets whose facts the reports rebuild. -/
  dirty : List ℕ
  audits : List Audit

/-- How the database compares texts, whether the schema is owned, and whether the queue of the
report data can be written. -/
structure Server where
  faker : Faker
  same : Text → Text → Bool
  same_refl : ∀ s, same s s = true
  same_comm : ∀ s t, same s t = same t s
  owned : Bool
  queueable : Bool

/-- The arguments of a call, a login or customer id that is not given as the empty text. -/
structure Call where
  login : Text
  customerId : Text
  seed : Option ℤ
  anonymizeCompany : Bool
  forceParallel : Bool
  actor : Text

/-- What one transaction has written. -/
inductive Commit
  | users (table : List CustomerUser)
  | company (customerId name : Text)
  | mime (row : Mime)
  | marks (ticketIds : List ℕ)
  | audit (entry : Audit)
  deriving DecidableEq

inductive Outcome
  | invalid
  | refused
  | notFound
  | duplicate
  | done
  deriving DecidableEq

structure Run where
  commits : List Commit
  outcome : Outcome

section Tables

variable (server : Server)

def setCompany (companies : List Company) (customerId name : Text) : List Company :=
  companies.map fun company ↦
    if server.same company.customerId customerId then { company with name } else company

def Db.apply (db : Db) : Commit → Db
  | .users table => { db with customers := table }
  | .company customerId name =>
    { db with companies := setCompany server db.companies customerId name }
  | .mime row => { db with mimes := db.mimes.map fun old ↦ if old.id = row.id then row else old }
  | .marks ticketIds =>
    { db with dirty := db.dirty.filter (· ∉ ticketIds) ++ ticketIds.dedup }
  | .audit entry => { db with audits := db.audits ++ [entry] }

def Db.run (db : Db) (commits : List Commit) : Db := commits.foldl (Db.apply server) db

def Call.selects (call : Call) (cu : CustomerUser) : Bool :=
  if call.login ≠ [] then server.same cu.login call.login
  else server.same cu.customerId call.customerId

def selected (call : Call) (db : Db) : List CustomerUser :=
  db.customers.filter (call.selects server)

/-- The ids of the tickets of some logins. -/
def ticketsOf (db : Db) (logins : List Text) : List ℕ :=
  (db.tickets.filter fun t ↦ t.customerUserId.any fun u ↦ logins.any (server.same u)).map
    Ticket.id

def mimesOf (db : Db) (ticketIds : List ℕ) : List Mime :=
  db.mimes.filter fun row ↦
    db.articles.any fun article ↦ article.ticketId ∈ ticketIds && article.id = row.articleId

/-- The update of one row, which the index of the logins can refuse. -/
def setUser (table : List CustomerUser) (row : CustomerUser) : Option (List CustomerUser) :=
  if table.any fun other ↦ other.id ≠ row.id && server.same other.login row.login then none
  else some (table.map fun old ↦ if old.id = row.id then row else old)

def setUsers (table rows : List CustomerUser) : Option (List CustomerUser) :=
  rows.foldlM (setUser server) table

end Tables

section Steps

variable (server : Server)

def replaceUser (m : Mapper) (cu : CustomerUser) : CustomerUser × Mapper :=
  let faker := server.faker
  let first := mapText faker m cu.firstName .firstName
  let last := mapText faker first.2 cu.lastName .lastName
  let email := mapText faker last.2 cu.email .email
  let login := mapText faker email.2 cu.login .login
  let phone := mapValue faker login.2 cu.phone .phone
  let fax := mapValue faker phone.2 cu.fax .phone
  let mobile := mapValue faker fax.2 cu.mobile .phone
  let street := mapValue faker mobile.2 cu.street .street
  let zip := mapValue faker street.2 cu.zip .zip
  let city := mapValue faker zip.2 cu.city .city
  let country := mapValue faker city.2 cu.country .country
  ({ cu with
      firstName := first.1, lastName := last.1, email := email.1, login := login.1,
      phone := phone.1, fax := fax.1, mobile := mobile.1, street := street.1, zip := zip.1,
      city := city.1, country := country.1 }, country.2)

def replaceUsers : Mapper → List CustomerUser → List CustomerUser × Mapper
  | m, [] => ([], m)
  | m, cu :: customers =>
    let row := replaceUser server m cu
    let rows := replaceUsers row.2 customers
    (row.1 :: rows.1, rows.2)

/-- The customer id of the company: the given one, or that of the first customer user. -/
def resolvedId (call : Call) (customers : List CustomerUser) : Text :=
  if call.customerId ≠ [] then call.customerId else (customers.map CustomerUser.customerId).headD []

def companyOf (call : Call) (db : Db) (customerId : Text) : Option Company :=
  if call.anonymizeCompany ∧ customerId ≠ [] then
    db.companies.find? fun company ↦ server.same company.customerId customerId
  else none

/-- The commit for the company, if there is one; nothing where the index of the names refuses. -/
def companyStep (call : Call) (db : Db) (customerId : Text) (m : Mapper) :
    Option (List Commit × Mapper) :=
  match companyOf server call db customerId with
  | none => some ([], m)
  | some company =>
    let name := mapText server.faker m company.name .company
    if db.companies.any fun other ↦
        !server.same other.customerId customerId && server.same other.name name.1 then none
    else some ([.company customerId name.1], name.2)

def scrub (m : Mapper) (row : Mime) : Mime × Mapper :=
  let aFrom := anonymizeAddressField server.faker m row.aFrom
  let aTo := anonymizeAddressField server.faker aFrom.2 row.aTo
  let aCc := anonymizeAddressField server.faker aTo.2 row.aCc
  ({ row with
      aFrom := aFrom.1, aTo := aTo.1, aCc := aCc.1
      aBody := anonymizeBody server.faker aCc.2 row.aBody }, aCc.2)

def scrubs : Mapper → List Mime → List Commit
  | _, [] => []
  | m, row :: rows => .mime (scrub server m row).1 :: scrubs (scrub server m row).2 rows

def marks (ticketIds : List ℕ) : List Commit :=
  if ticketIds ≠ [] ∧ server.queueable then [.marks ticketIds] else []

def Call.target (call : Call) : Text :=
  if call.login ≠ [] then call.login else "customer_id:".toList ++ call.customerId

/-- The commits after those for the customer users and the company. -/
def finish (call : Call) (db : Db) (customers : List CustomerUser) (companies : ℕ) (m : Mapper) :
    List Commit :=
  let ticketIds := ticketsOf server db (customers.map CustomerUser.login)
  let mimes := mimesOf db ticketIds
  scrubs server m mimes ++ marks server ticketIds ++ [.audit ⟨call.target, call.actor,
    customers.length, companies, mimes.length, ticketIds.length, call.forceParallel⟩]

def anonymizeCustomer (call : Call) (db : Db) : Run :=
  if call.login = [] ∧ call.customerId = [] then ⟨[], .invalid⟩
  else if !(server.owned || call.forceParallel) then ⟨[], .refused⟩
  else
    let customers := selected server call db
    if customers = [] then ⟨[], .notFound⟩
    else
      let rows := replaceUsers server (.new call.seed) customers
      match setUsers server db.customers rows.1 with
      | none => ⟨[], .duplicate⟩
      | some table =>
        let db := db.apply server (.users table)
        match companyStep server call db (resolvedId call customers) rows.2 with
        | none => ⟨[.users table], .duplicate⟩
        | some (company, m) =>
          ⟨.users table :: (company ++
            finish server call (db.run server company) customers company.length m), .done⟩

end Steps

end Tiqora.Gdpr.Anonymize
