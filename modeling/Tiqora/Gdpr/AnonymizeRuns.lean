import Mathlib.Data.List.Dedup
import Tiqora.Gdpr.AnonymizeUsers

namespace Tiqora.Gdpr.Anonymize

section Frames

variable {server : Server} {db : Db} {commits commits' : List Commit}

theorem run_append : db.run server (commits ++ commits') =
    (db.run server commits).run server commits' :=
  List.foldl_append

theorem run_cons (commit : Commit) : db.run server (commit :: commits) =
    (db.apply server commit).run server commits :=
  rfl

/-- What no commit changes stays as it is. -/
theorem run_frame {β : Type} {f : Db → β} {P : Commit → Prop}
    (hstep : ∀ db commit, P commit → f (db.apply server commit) = f db)
    (h : ∀ commit ∈ commits, P commit) : f (db.run server commits) = f db := by
  induction commits generalizing db with
  | nil => rfl
  | cons commit commits ih =>
    obtain ⟨hcommit, hcommits⟩ := List.forall_mem_cons.1 h
    rw [run_cons, ih hcommits, hstep db commit hcommit]

theorem run_tickets : (db.run server commits).tickets = db.tickets :=
  run_frame (P := fun _ ↦ True) (fun _ commit _ ↦ by cases commit <;> rfl) fun _ _ ↦ trivial

theorem run_articles : (db.run server commits).articles = db.articles :=
  run_frame (P := fun _ ↦ True) (fun _ commit _ ↦ by cases commit <;> rfl) fun _ _ ↦ trivial

def Commit.IsUsers : Commit → Prop
  | .users _ => True
  | _ => False

def Commit.IsCompany : Commit → Prop
  | .company _ _ => True
  | _ => False

theorem run_customers (h : ∀ commit ∈ commits, ¬ commit.IsUsers) :
    (db.run server commits).customers = db.customers :=
  run_frame (fun _ commit hcommit ↦ by
    cases commit with
    | users table => exact absurd trivial hcommit
    | _ => rfl) h

theorem run_companies (h : ∀ commit ∈ commits, ¬ commit.IsCompany) :
    (db.run server commits).companies = db.companies :=
  run_frame (fun _ commit hcommit ↦ by
    cases commit with
    | company customerId name => exact absurd trivial hcommit
    | _ => rfl) h

def Commit.IsMime : Commit → Prop
  | .mime _ => True
  | _ => False

theorem run_mimes (h : ∀ commit ∈ commits, ¬ commit.IsMime) :
    (db.run server commits).mimes = db.mimes :=
  run_frame (fun _ commit hcommit ↦ by
    cases commit with
    | mime row => exact absurd trivial hcommit
    | _ => rfl) h

theorem ticketsOf_run (logins : List Text) :
    ticketsOf server (db.run server commits) logins = ticketsOf server db logins := by
  rw [ticketsOf, run_tickets, ticketsOf]

theorem mimesOf_run (h : ∀ commit ∈ commits, ¬ commit.IsMime) (ids : List ℕ) :
    mimesOf (db.run server commits) ids = mimesOf db ids := by
  rw [mimesOf, run_mimes h, run_articles, mimesOf]

/-- The queue of the tickets only grows. -/
theorem mem_dirty_run {id : ℕ} : id ∈ (db.run server commits).dirty ↔
    id ∈ db.dirty ∨ ∃ ticketIds, Commit.marks ticketIds ∈ commits ∧ id ∈ ticketIds := by
  induction commits generalizing db with
  | nil =>
    refine ⟨.inl, fun h ↦ h.resolve_right ?_⟩
    rintro ⟨_, h, -⟩
    exact List.not_mem_nil h
  | cons commit commits ih =>
    have hstep : id ∈ (db.apply server commit).dirty ↔
        id ∈ db.dirty ∨ ∃ ticketIds, Commit.marks ticketIds = commit ∧ id ∈ ticketIds := by
      cases commit with
      | marks ticketIds =>
        rw [Db.apply, List.mem_append, List.mem_filter, List.mem_dedup, decide_eq_true_eq]
        constructor
        · rintro (⟨h, -⟩ | h)
          · exact .inl h
          · exact .inr ⟨ticketIds, rfl, h⟩
        · rintro (h | ⟨_, heq, h⟩)
          · by_cases hid : id ∈ ticketIds
            · exact .inr hid
            · exact .inl ⟨h, hid⟩
          · cases heq
            exact .inr h
      | _ =>
        refine ⟨.inl, fun h ↦ h.resolve_right ?_⟩
        rintro ⟨_, heq, -⟩
        cases heq
    rw [run_cons, ih, hstep, or_assoc]
    refine or_congr_right ⟨?_, ?_⟩
    · rintro (⟨ids, rfl, h⟩ | ⟨ids, hmem, h⟩)
      · exact ⟨ids, List.mem_cons_self, h⟩
      · exact ⟨ids, List.mem_cons_of_mem _ hmem, h⟩
    · rintro ⟨ids, hmem, h⟩
      rcases List.mem_cons.1 hmem with heq | hmem
      · exact .inl ⟨ids, heq, h⟩
      · exact .inr ⟨ids, hmem, h⟩

end Frames

section Scrubs

variable {server : Server} {m : Mapper} {rows : List Mime}

theorem length_scrubs : (scrubs server m rows).length = rows.length := by
  induction rows generalizing m with
  | nil => rfl
  | cons row rows ih => rw [scrubs, List.length_cons, List.length_cons, ih]

theorem take_scrubs (n : ℕ) : (scrubs server m rows).take n = scrubs server m (rows.take n) := by
  induction rows generalizing m n with
  | nil => rw [List.take_nil, scrubs, List.take_nil]
  | cons row rows ih =>
    cases n with
    | zero => rfl
    | succ n => rw [scrubs, List.take_succ_cons, List.take_succ_cons, ih, scrubs]

theorem scrubs_covers {row : Mime} (h : row ∈ rows) :
    ∃ m', Commit.mime (scrub server m' row).1 ∈ scrubs server m rows := by
  induction rows generalizing m with
  | nil => cases h
  | cons first rows ih =>
    rcases List.mem_cons.1 h with rfl | h
    · exact ⟨m, List.mem_cons_self⟩
    · obtain ⟨m', hm'⟩ := ih h
      exact ⟨m', List.mem_cons_of_mem _ hm'⟩

theorem mem_scrubs {commit : Commit} (h : commit ∈ scrubs server m rows) :
    ∃ row ∈ rows, ∃ m', commit = .mime (scrub server m' row).1 := by
  induction rows generalizing m with
  | nil => cases h
  | cons first rows ih =>
    rcases List.mem_cons.1 h with rfl | h
    · exact ⟨first, List.mem_cons_self, m, rfl⟩
    · obtain ⟨row, hrow, hcommit⟩ := ih h
      exact ⟨row, List.mem_cons_of_mem _ hrow, hcommit⟩

theorem scrub_id (row : Mime) : (scrub server m row).1.id = row.id := rfl

end Scrubs

section Runs

variable (server : Server) (call : Call) (db : Db)

def Call.seedValue (call : Call) : ℤ := call.seed.getD 0

/-- What becomes of a row of the table. -/
def rename (cu : CustomerUser) : CustomerUser :=
  if call.selects server cu then renamed server.faker call.seedValue cu else cu

/-- The tickets whose customer user is one of the selected logins. -/
def ticketIds : List ℕ :=
  ticketsOf server db ((selected server call db).map CustomerUser.login)

def companyCommits : List Commit :=
  let customerId := resolvedId call (selected server call db)
  (companyOf server call db customerId).toList.map fun company ↦
    .company customerId (replaced server.faker call.seedValue .company company.name)

def auditEntry : Audit where
  target := call.target
  actor := call.actor
  customerUsers := (selected server call db).length
  companies := (companyCommits server call db).length
  articles := (mimesOf db (ticketIds server call db)).length
  tickets := (ticketIds server call db).length
  forceParallel := call.forceParallel

def tailCommits (m : Mapper) : List Commit :=
  scrubs server m (mimesOf db (ticketIds server call db)) ++ marks server
    (ticketIds server call db) ++
    [.audit (auditEntry server call db)]

/-- The call has a target, may write and finds somebody. -/
structure Starts : Prop where
  target : ¬ (call.login = [] ∧ call.customerId = [])
  allowed : (server.owned || call.forceParallel) = true
  found : selected server call db ≠ []

/-- The indexes accept the replacements, and the mapper finds each at the first draw. -/
structure Accepted : Prop where
  ids : (db.customers.map CustomerUser.id).Nodup
  clashless : Clashless server.faker call.seedValue ((selected server call db).flatMap fields)
  logins : ∀ x ∈ (selected server call db).map (renamed server.faker call.seedValue),
    ∀ y, (y ∈ db.customers ∨
      y ∈ (selected server call db).map (renamed server.faker call.seedValue)) →
        y.id ≠ x.id → server.same y.login x.login = false
  names : ∀ company ∈ companyOf server call db (resolvedId call (selected server call db)),
    ∀ other ∈ db.companies,
      server.same other.customerId (resolvedId call (selected server call db)) = false →
        server.same other.name
          (replaced server.faker call.seedValue .company company.name) = false

variable {server call db}

theorem kind_ne_company {cu : CustomerUser} {p : Kind × Text} (h : p ∈ fields cu) :
    p.1 ≠ .company := by
  have hcolumns : ∀ c ∈ identityColumns cu ++ addressColumns cu, c.1 ≠ Kind.company := by
    simp [identityColumns, addressColumns]
  exact hcolumns _ (mem_present.1 h).1

theorem companyStep_eq {customerId : Text} {m : Mapper} {values : List (Kind × Text)}
    (hm : m.Holds server.faker call.seedValue values) (hkind : ∀ p ∈ values, p.1 ≠ .company)
    (hnames : ∀ company ∈ companyOf server call db customerId, ∀ other ∈ db.companies,
      server.same other.customerId customerId = false → server.same other.name
        (replaced server.faker call.seedValue .company company.name) = false) :
    ∃ m', companyStep server call db customerId m =
      some ((companyOf server call db customerId).toList.map fun company ↦
        .company customerId (replaced server.faker call.seedValue .company company.name), m') := by
  rw [companyStep]
  cases hcompany : companyOf server call db customerId with
  | none => exact ⟨m, rfl⟩
  | some company =>
    have hname := hm.mapText_other (v := company.name) hkind
    have haccept : ¬ (db.companies.any fun other ↦ !server.same other.customerId customerId &&
        server.same other.name
          (replaced server.faker call.seedValue .company company.name)) = true := by
      rw [List.any_eq_true]
      rintro ⟨other, hother, hand⟩
      rw [Bool.and_eq_true, Bool.not_eq_true'] at hand
      rw [hnames company hcompany other hother hand.1] at hand
      exact Bool.false_ne_true hand.2
    dsimp only
    rw [hname, if_neg haccept]
    exact ⟨_, rfl⟩

/-- The commits of a run that is not cut off. -/
theorem anonymizeCustomer_eq (hstarts : Starts server call db) (h : Accepted server call db) :
    ∃ m, anonymizeCustomer server call db =
      ⟨.users (db.customers.map (rename server call)) :: (companyCommits server call db ++
        tailCommits server call db m), .done⟩ := by
  have hnew : (Mapper.new call.seed).Holds server.faker call.seedValue
      ((selected server call db).flatMap fields) := .new call.seed
  obtain ⟨hrows, hholds⟩ := replaceUsers_eq hnew h.clashless fun cu hcu p hp ↦
    List.mem_flatMap.2 ⟨cu, hcu, hp⟩
  have htable : setUsers server db.customers ((selected server call db).map
      (renamed server.faker call.seedValue)) = some (db.customers.map (rename server call)) := by
    rw [setUsers_eq h.logins]
    exact congrArg some (foldl_withUser_filter (fun _ ↦ rfl) h.ids)
  have hkind : ∀ p ∈ (selected server call db).flatMap fields, p.1 ≠ .company := by
    intro p hp
    obtain ⟨cu, -, hp⟩ := List.mem_flatMap.1 hp
    exact kind_ne_company hp
  obtain ⟨m', hcompany⟩ : ∃ m', companyStep server call
      (db.apply server (.users (db.customers.map (rename server call))))
      (resolvedId call (selected server call db)) (replaceUsers server (.new call.seed)
        (selected server call db)).2 = some (companyCommits server call db, m') :=
    companyStep_eq hholds hkind h.names
  have hmimes : ∀ commit ∈ companyCommits server call db, ¬ commit.IsMime := by
    intro commit hcommit
    obtain ⟨company, -, rfl⟩ := List.mem_map.1 hcommit
    exact not_false
  refine ⟨m', ?_⟩
  rw [anonymizeCustomer, if_neg hstarts.target, if_neg (by rw [hstarts.allowed]; decide)]
  dsimp only
  rw [if_neg hstarts.found, hrows, htable]
  dsimp only
  rw [hcompany]
  dsimp only
  rw [finish, ticketsOf_run, mimesOf_run hmimes]
  rfl

end Runs

end Tiqora.Gdpr.Anonymize
