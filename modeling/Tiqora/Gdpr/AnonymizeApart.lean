import Tiqora.Gdpr.AnonymizeRuns

namespace Tiqora.Gdpr.Anonymize

section Conditions

variable (server : Server) (call : Call) (db : Db)

/-- The primary keys and the unique indexes of the tables. -/
structure Keyed : Prop where
  ids : (db.customers.map CustomerUser.id).Nodup
  logins : ∀ a ∈ db.customers, ∀ b ∈ db.customers, server.same a.login b.login = true → a.id = b.id
  companies : ∀ a ∈ db.companies, ∀ b ∈ db.companies, server.same a.name b.name = true →
    a.customerId = b.customerId
  mimes : (db.mimes.map Mime.id).Nodup

def newLogin (login : Text) : Text := server.faker.draw call.seedValue .login login

def newName (name : Text) : Text := server.faker.draw call.seedValue .company name

def next (p : Kind × Text) : Kind × Text := (p.1, server.faker.draw call.seedValue p.1 p.2)

/-- The logins that are replaced by a run and by the next one. -/
def loginValues : List Text :=
  (selected server call db).map CustomerUser.login ++
    (selected server call db).map fun cu ↦ newLogin server call cu.login

def storedLogins : List Text :=
  db.customers.map CustomerUser.login ++ db.tickets.filterMap Ticket.customerUserId ++ [call.login]

/-- What Faker draws for the values that are replaced, and for what replaces them, is new: it is
no login and no company name that is stored, nothing else is drawn for, and none is the value that
it replaces. -/
structure Apart : Prop where
  named : ∀ cu ∈ selected server call db, cu.login ≠ [] ∧ newLogin server call cu.login ≠ []
  first : Clashless server.faker call.seedValue ((selected server call db).flatMap fields)
  second : Clashless server.faker call.seedValue
    (((selected server call db).flatMap fields).map (next server call))
  forgets : ∀ cu ∈ selected server call db, ∀ p ∈ present (identityColumns cu),
    (next server call p).2 ≠ p.2 ∧ (next server call (next server call p)).2 ≠ p.2
  logins : ∀ v ∈ loginValues server call db,
    (∀ s ∈ storedLogins call db, server.same (newLogin server call v) s = false) ∧
      ∀ w ∈ loginValues server call db,
        server.same (newLogin server call v) (newLogin server call w) = true → v = w
  names : ∀ company ∈ companyOf server call db (resolvedId call (selected server call db)),
    ∀ other ∈ db.companies, server.same other.name (newName server call company.name) = false ∧
      server.same other.name (newName server call (newName server call company.name)) = false

end Conditions

section Accepting

variable {server : Server} {call : Call} {db : Db}

theorem Clashless.mono {faker : Faker} {seed : ℤ} {values values' : List (Kind × Text)}
    (h : Clashless faker seed values) (hsub : ∀ p ∈ values', p ∈ values) :
    Clashless faker seed values' :=
  fun p hp q hq ↦ h p (hsub p hp) q (hsub q hq)

theorem login_renamed {cu : CustomerUser} (h : cu.login ≠ []) :
    (renamed server.faker call.seedValue cu).login = newLogin server call cu.login :=
  if_neg h

theorem mem_selected {cu : CustomerUser} :
    cu ∈ selected server call db ↔ cu ∈ db.customers ∧ call.selects server cu = true :=
  List.mem_filter

theorem Keyed.eq_of_same (h : Keyed server db) {a b : CustomerUser} (ha : a ∈ db.customers)
    (hb : b ∈ db.customers) (hlogin : a.login = b.login) : a.id = b.id := by
  refine h.logins a ha b hb ?_
  rw [hlogin]
  exact server.same_refl b.login

theorem mem_loginValues {cu : CustomerUser} (hcu : cu ∈ selected server call db) :
    cu.login ∈ loginValues server call db ∧
      newLogin server call cu.login ∈ loginValues server call db :=
  ⟨List.mem_append_left _ (List.mem_map_of_mem hcu),
    List.mem_append_right _ (List.mem_map.2 ⟨cu, hcu, rfl⟩)⟩

namespace Apart

variable (h : Apart server call db)
include h

theorem not_stored {v : Text} (hv : v ∈ loginValues server call db) {cu : CustomerUser}
    (hcu : cu ∈ db.customers) : server.same cu.login (newLogin server call v) = false := by
  rw [server.same_comm]
  refine (h.logins v hv).1 cu.login ?_
  exact List.mem_append_left _ (List.mem_append_left _ (List.mem_map_of_mem hcu))

/-- Two replacements of the logins of different rows differ. -/
theorem first_differ (hkeyed : Keyed server db) {a b : CustomerUser}
    (ha : a ∈ selected server call db) (hb : b ∈ selected server call db) (hne : b.id ≠ a.id) :
    server.same (newLogin server call b.login) (newLogin server call a.login) = false := by
  rw [Bool.eq_false_iff]
  intro hsame
  have hlogin := (h.logins b.login (mem_loginValues hb).1).2 a.login (mem_loginValues ha).1 hsame
  exact hne (hkeyed.eq_of_same (mem_selected.1 hb).1 (mem_selected.1 ha).1 hlogin)

theorem second_differ (hkeyed : Keyed server db) {a b : CustomerUser}
    (ha : a ∈ selected server call db) (hb : b ∈ selected server call db) (hne : b.id ≠ a.id) :
    server.same (newLogin server call (newLogin server call b.login))
      (newLogin server call (newLogin server call a.login)) = false := by
  rw [Bool.eq_false_iff]
  intro hsame
  have hnew := (h.logins _ (mem_loginValues hb).2).2 _ (mem_loginValues ha).2 hsame
  have hsame' := h.first_differ hkeyed ha hb hne
  rw [hnew, server.same_refl] at hsame'
  cases hsame'

/-- What is drawn in the second run is not what was drawn in the first. -/
theorem cross_differ {a b : CustomerUser} (ha : a ∈ selected server call db)
    (hb : b ∈ selected server call db) : server.same (newLogin server call b.login)
      (newLogin server call (newLogin server call a.login)) = false := by
  rw [Bool.eq_false_iff]
  intro hsame
  have hlogin := (h.logins _ (mem_loginValues hb).1).2 _ (mem_loginValues ha).2 hsame
  have hstored := h.not_stored (mem_loginValues ha).1 (mem_selected.1 hb).1
  rw [hlogin, server.same_refl] at hstored
  cases hstored

theorem names_replaced (hkeyed : Keyed server db) {company other : Company}
    (hcompany : company ∈ companyOf server call db (resolvedId call (selected server call db)))
    (hother : other ∈ db.companies)
    (hne : server.same other.customerId (resolvedId call (selected server call db)) = false) :
    server.same other.name (replaced server.faker call.seedValue .company company.name) = false ∧
      server.same other.name (replaced server.faker call.seedValue .company
        (replaced server.faker call.seedValue .company company.name)) = false := by
  obtain ⟨hfirst, hsecond⟩ := h.names company hcompany other hother
  by_cases hname : company.name = []
  · have hsame : server.same other.name company.name = false := by
      rw [Bool.eq_false_iff]
      intro hsame
      rw [companyOf] at hcompany
      split at hcompany
      · have hid := hkeyed.companies other hother company (List.mem_of_find?_eq_some hcompany) hsame
        have hfound := List.find?_some hcompany
        rw [← hid, hne] at hfound
        cases hfound
      · cases hcompany
    rw [replaced, if_pos hname, replaced, if_pos hname]
    exact ⟨hsame, hsame⟩
  · have hdrawn : replaced server.faker call.seedValue .company company.name =
        newName server call company.name := if_neg hname
    rw [hdrawn, replaced]
    refine ⟨hfirst, ?_⟩
    split
    · exact hfirst
    · exact hsecond

theorem accepted (hkeyed : Keyed server db) : Accepted server call db := by
  refine ⟨hkeyed.ids, h.first, fun x hx y hy hne ↦ ?_, fun company hcompany other hother hid ↦
    (h.names_replaced hkeyed hcompany hother hid).1⟩
  obtain ⟨a, ha, rfl⟩ := List.mem_map.1 hx
  rw [login_renamed (h.named a ha).1]
  rcases hy with hy | hy
  · exact h.not_stored (mem_loginValues ha).1 hy
  · obtain ⟨b, hb, rfl⟩ := List.mem_map.1 hy
    rw [login_renamed (h.named b hb).1]
    exact h.first_differ hkeyed ha hb hne

end Apart

end Accepting

section Cut

variable {server : Server} {call : Call} {db : Db} {m : Mapper} {commit : Commit}

theorem mem_companyCommits (h : commit ∈ companyCommits server call db) : commit.IsCompany := by
  obtain ⟨_, -, rfl⟩ := List.mem_map.1 h
  exact trivial

theorem mem_marks {ids : List ℕ} (h : commit ∈ marks server ids) :
    commit = .marks ids ∧ ids ≠ [] ∧ server.queueable = true := by
  rw [marks] at h
  split at h
  · next hand => exact ⟨List.mem_singleton.1 h, hand⟩
  · exact absurd h List.not_mem_nil

theorem mem_tailCommits (h : commit ∈ tailCommits server call db m) :
    ¬ commit.IsUsers ∧ ¬ commit.IsCompany := by
  rcases List.mem_append.1 h with h | h
  · rcases List.mem_append.1 h with h | h
    · obtain ⟨_, -, _, rfl⟩ := mem_scrubs h
      exact ⟨not_false, not_false⟩
    · rw [(mem_marks h).1]
      exact ⟨not_false, not_false⟩
  · rw [List.mem_singleton.1 h]
    exact ⟨not_false, not_false⟩

/-- The commits behind that for the customer users. -/
theorem not_isUsers (h : commit ∈ companyCommits server call db ++ tailCommits server call db m) :
    ¬ commit.IsUsers := by
  rcases List.mem_append.1 h with h | h
  · cases commit with
    | company => exact not_false
    | _ => exact absurd (mem_companyCommits h) not_false
  · exact (mem_tailCommits h).1

/-- The state in which a run was cut off behind its first commit. -/
structure CutOff (server : Server) (call : Call) (db cut : Db) : Prop where
  customers : cut.customers = db.customers.map (rename server call)
  companies : cut.companies = db.companies ∨
    ∃ company ∈ companyOf server call db (resolvedId call (selected server call db)),
      cut.companies = setCompany server db.companies
        (resolvedId call (selected server call db))
          (replaced server.faker call.seedValue .company company.name)
  tickets : cut.tickets = db.tickets

theorem cutOff (server : Server) (call : Call) (db : Db) (m : Mapper) (j : ℕ) :
    CutOff server call db (db.run server
    (.users (db.customers.map (rename server call)) ::
      (companyCommits server call db ++ tailCommits server call db m).take j)) := by
  refine ⟨?_, ?_, run_tickets⟩
  · rw [run_cons, run_customers fun commit hcommit ↦ not_isUsers (List.mem_of_mem_take hcommit)]
    rfl
  · rw [run_cons]
    cases hcompany : companyOf server call db (resolvedId call (selected server call db)) with
    | none =>
      left
      rw [companyCommits, hcompany]
      exact run_companies fun commit hcommit ↦ (mem_tailCommits (List.mem_of_mem_take hcommit)).2
    | some company =>
      rw [companyCommits, hcompany]
      cases j with
      | zero => exact .inl rfl
      | succ j =>
        right
        refine ⟨company, rfl, ?_⟩
        exact run_companies fun commit hcommit ↦ (mem_tailCommits (List.mem_of_mem_take hcommit)).2

variable {cut : Db}

theorem find?_company (customerId name : Text) :
    ((fun company : Company ↦ server.same company.customerId customerId) ∘ fun company ↦
      if server.same company.customerId customerId then { company with name } else company) =
        fun company ↦ server.same company.customerId customerId := by
  funext company
  rw [Function.comp_apply]
  split <;> rfl

namespace CutOff

theorem companyOf_eq (h : CutOff server call db cut) {company : Company}
    (hcompany : company ∈ companyOf server call cut (resolvedId call (selected server call db))) :
    ∃ old ∈ companyOf server call db (resolvedId call (selected server call db)),
      company.name = old.name ∨
        company.name = replaced server.faker call.seedValue .company old.name := by
  rcases h.companies with hsame | ⟨renamed, hrenamed, hset⟩
  · refine ⟨company, ?_, .inl rfl⟩
    rw [companyOf, hsame] at hcompany
    exact hcompany
  · rw [companyOf, hset] at hcompany
    rw [companyOf] at hrenamed
    split at hcompany
    · next hand =>
      rw [if_pos hand] at hrenamed
      rw [setCompany, List.find?_map, find?_company] at hcompany
      obtain ⟨old, hold, rfl⟩ := Option.map_eq_some_iff.1 hcompany
      have hfound := List.find?_some hold
      have hrenamed' : old = renamed := Option.some.inj (hold.symm.trans hrenamed)
      refine ⟨old, ?_, .inr ?_⟩
      · rw [companyOf, if_pos hand]
        exact hold
      · rw [if_pos hfound, hrenamed']
    · cases hcompany

theorem mem_companies (h : CutOff server call db cut) {other : Company}
    (hother : other ∈ cut.companies)
    (hne : server.same other.customerId (resolvedId call (selected server call db)) = false) :
    other ∈ db.companies := by
  rcases h.companies with hsame | ⟨company, -, hset⟩
  · exact hsame ▸ hother
  · rw [hset] at hother
    obtain ⟨old, hold, rfl⟩ := List.mem_map.1 hother
    split at hne
    · next hid =>
      rw [hid] at hne
      cases hne
    · next hid =>
      rw [if_neg hid]
      exact hold

/-- By its login nobody is found again. -/
theorem selected_login (h : CutOff server call db cut) (hapart : Apart server call db)
    (hlogin : call.login ≠ []) : selected server call cut = [] := by
  rw [selected, h.customers, List.filter_eq_nil_iff]
  intro new hnew
  obtain ⟨cu, hcu, rfl⟩ := List.mem_map.1 hnew
  rw [rename]
  split
  · next hselects =>
    have hmem : cu ∈ selected server call db := mem_selected.2 ⟨hcu, hselects⟩
    have hstored : call.login ∈ storedLogins call db :=
      List.mem_append_right _ (List.mem_singleton_self _)
    rw [Call.selects, if_pos hlogin, login_renamed (hapart.named cu hmem).1,
      (hapart.logins _ (mem_loginValues hmem).1).1 _ hstored]
    exact Bool.false_ne_true
  · next hselects => exact hselects

section ById

variable (hid : call.login = [])
include hid

theorem selects_rename (cu : CustomerUser) :
    call.selects server (rename server call cu) = call.selects server cu := by
  rw [Call.selects, Call.selects, if_neg (not_not.2 hid), if_neg (not_not.2 hid), rename]
  split <;> rfl

/-- The same rows are found again by the customer id. -/
theorem selected_eq (h : CutOff server call db cut) : selected server call cut =
    (selected server call db).map (renamed server.faker call.seedValue) := by
  have hselects : call.selects server ∘ rename server call = call.selects server :=
    funext (selects_rename hid)
  rw [selected, h.customers, List.filter_map, hselects]
  exact List.map_congr_left fun cu hcu ↦ if_pos (mem_selected.1 hcu).2

theorem resolvedId_eq (hstarts : Starts server call db) (customers : List CustomerUser) :
    resolvedId call customers = resolvedId call (selected server call db) := by
  have hgiven : call.customerId ≠ [] := fun hnil ↦ hstarts.target ⟨hid, hnil⟩
  rw [resolvedId, resolvedId, if_pos hgiven, if_pos hgiven]

theorem starts (h : CutOff server call db cut) (hstarts : Starts server call db) :
    Starts server call cut := by
  refine ⟨hstarts.target, hstarts.allowed, ?_⟩
  rw [h.selected_eq hid]
  exact fun hnil ↦ hstarts.found (List.map_eq_nil_iff.1 hnil)

end ById

theorem mem_fields_renamed {cu : CustomerUser} {p : Kind × Text}
    (hp : p ∈ fields (renamed server.faker call.seedValue cu)) :
    p ∈ (fields cu).map (next server call) := by
  obtain ⟨kind, w⟩ := p
  have hcolumns : identityColumns (renamed server.faker call.seedValue cu) ++
      addressColumns (renamed server.faker call.seedValue cu) =
        (identityColumns cu ++ addressColumns cu).map fun c ↦
          (c.1, c.2.map (replaced server.faker call.seedValue c.1)) :=
    rfl
  obtain ⟨hc, hne⟩ := mem_present.1 hp
  rw [hcolumns] at hc
  obtain ⟨⟨kind', value⟩, hcolumn, heq⟩ := List.mem_map.1 hc
  obtain ⟨rfl, hvalue⟩ := Prod.mk.inj heq
  obtain ⟨v, rfl, rfl⟩ := Option.map_eq_some_iff.1 hvalue
  have hv : v ≠ [] := by
    rintro rfl
    exact hne rfl
  refine List.mem_map.2 ⟨(kind', v), mem_present.2 ⟨hcolumn, hv⟩, ?_⟩
  rw [next, replaced, if_neg hv]

theorem login_renamed_renamed (hapart : Apart server call db) {cu : CustomerUser}
    (hcu : cu ∈ selected server call db) :
    (renamed server.faker call.seedValue (renamed server.faker call.seedValue cu)).login =
      newLogin server call (newLogin server call cu.login) := by
  obtain ⟨hlogin, hnew⟩ := hapart.named cu hcu
  rw [← login_renamed hlogin] at hnew ⊢
  exact login_renamed hnew

theorem accepted (h : CutOff server call db cut) (hid : call.login = [])
    (hkeyed : Keyed server db) (hstarts : Starts server call db) (hapart : Apart server call db) :
    Accepted server call cut := by
  have hselected := h.selected_eq hid
  refine ⟨?_, ?_, ?_, ?_⟩
  · rw [h.customers, List.map_map]
    have hkeep : CustomerUser.id ∘ rename server call = CustomerUser.id := by
      funext cu
      rw [Function.comp_apply, rename]
      split <;> rfl
    rw [hkeep]
    exact hkeyed.ids
  · refine hapart.second.mono fun p hp ↦ ?_
    rw [hselected, List.flatMap_map] at hp
    obtain ⟨cu, hcu, hp⟩ := List.mem_flatMap.1 hp
    obtain ⟨q, hq, rfl⟩ := List.mem_map.1 (mem_fields_renamed hp)
    exact List.mem_map_of_mem (List.mem_flatMap.2 ⟨cu, hcu, hq⟩)
  · rw [hselected, List.map_map]
    rintro x hx y hy hne
    obtain ⟨a, ha, rfl⟩ := List.mem_map.1 hx
    rw [Function.comp_apply, login_renamed_renamed hapart ha]
    rcases hy with hy | hy
    · rw [h.customers] at hy
      obtain ⟨b, hb, rfl⟩ := List.mem_map.1 hy
      rw [rename]
      split
      · next hselects =>
        have hb' : b ∈ selected server call db := mem_selected.2 ⟨hb, hselects⟩
        rw [login_renamed (hapart.named b hb').1]
        exact hapart.cross_differ ha hb'
      · exact hapart.not_stored (mem_loginValues ha).2 hb
    · obtain ⟨b, hb, rfl⟩ := List.mem_map.1 hy
      rw [Function.comp_apply, login_renamed_renamed hapart hb]
      exact hapart.second_differ hkeyed ha hb hne
  · rw [resolvedId_eq hid hstarts]
    intro company hcompany other hother hne
    obtain ⟨old, hold, hname⟩ := h.companyOf_eq hcompany
    obtain ⟨hfirst, hsecond⟩ := hapart.names_replaced hkeyed hold (h.mem_companies hother hne) hne
    rcases hname with hname | hname
    · rw [hname]
      exact hfirst
    · rw [hname]
      exact hsecond

/-- No ticket belongs to what the logins were replaced by. -/
theorem ticketIds_eq (h : CutOff server call db cut) (hid : call.login = [])
    (hapart : Apart server call db) : ticketIds server call cut = [] := by
  rw [ticketIds, ticketsOf, h.tickets, List.map_eq_nil_iff, List.filter_eq_nil_iff]
  intro t ht hany
  obtain ⟨u, hu, hsame⟩ := (Option.any_eq_true _ _).1 hany
  obtain ⟨login, hlogin, hsame⟩ := List.any_eq_true.1 hsame
  rw [h.selected_eq hid, List.map_map] at hlogin
  obtain ⟨cu, hcu, rfl⟩ := List.mem_map.1 hlogin
  have hstored : u ∈ storedLogins call db :=
    List.mem_append_left _ (List.mem_append_right _ (List.mem_filterMap.2 ⟨t, ht, hu⟩))
  rw [Function.comp_apply, login_renamed (hapart.named cu hcu).1, server.same_comm,
    (hapart.logins _ (mem_loginValues hcu).1).1 u hstored] at hsame
  cases hsame

end CutOff

end Cut

end Tiqora.Gdpr.Anonymize
