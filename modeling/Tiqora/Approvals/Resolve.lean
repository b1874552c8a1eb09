import Mathlib.Data.List.Nodup
import Tiqora.Approvals.Contract

namespace Tiqora.Approvals

structure CustomerRow where
  login : String
  validId : ℕ
  customerId : String
  deriving DecidableEq

/-- What the Znuny tables say while one operation runs: agents, customer users, their
companies, the company of the request's ticket, and the letter case folding of logins. -/
structure Directory where
  agentValid : ℕ → Option ℕ
  customers : List CustomerRow
  companies : List (String × String)
  ticketCompany : Option String
  lower : String → String

namespace Directory

variable (dir : Directory)

/-- Of two rows with the wanted folded login the first one stored counts, unless the later
one is spelled exactly as one of the wanted logins. -/
def preferRow (logins : List String) (key : String) (out : Option CustomerRow)
    (row : CustomerRow) : Option CustomerRow :=
  if dir.lower row.login = key ∧ (out = none ∨ row.login ∈ logins) then some row else out

def customerRow (logins : List String) (key : String) : Option CustomerRow :=
  dir.customers.foldl (dir.preferRow logins key) none

def customerRows (logins : List String) : List CustomerRow :=
  (logins.map dir.lower).dedup.filterMap (dir.customerRow logins)

/-- Whether a customer user belongs to the ticket's company, by its own company or by a
mapping. A ticket without a company admits nobody. -/
def admitted (logins : List String) (login : String) : Bool :=
  match dir.ticketCompany, dir.customerRow logins (dir.lower login) with
  | some company, some row =>
    row.customerId = company ∨
      dir.companies.any fun m ↦ dir.lower m.1 = dir.lower login ∧ m.2 = company
  | _, _ => false

def customerInTicketCompany (login : String) : Bool := dir.admitted [login] login

/-- A customer principal with the login spelled as stored. -/
def canonicalPrincipal (p : Principal) : Principal :=
  match p with
  | .agent n => .agent n
  | .customer login =>
    match dir.customerRow [login] (dir.lower login) with
    | some row => .customer row.login
    | none => .customer login

theorem preferRow_exact {login : String} {out : Option CustomerRow} {row : CustomerRow}
    (h : (∃ r ∈ out, r.login = login) ∨ row.login = login) :
    ∃ r ∈ dir.preferRow [login] (dir.lower login) out row, r.login = login := by
  unfold preferRow
  by_cases he : row.login = login
  · rw [if_pos ⟨by rw [he], Or.inr (by simp [he])⟩]
    exact ⟨row, rfl, he⟩
  · obtain ⟨r, hr, hrl⟩ := h.resolve_right he
    rw [if_neg]
    · exact ⟨r, hr, hrl⟩
    · rintro ⟨_, hn | hn⟩
      · rw [hn] at hr; cases hr
      · exact he (by simpa using hn)

/-- Once a stored row is spelled as wanted, the search ends at a row spelled so. -/
theorem foldl_preferRow_exact {login : String} {out : Option CustomerRow}
    {rows : List CustomerRow} (h : (∃ r ∈ out, r.login = login) ∨ ∃ r ∈ rows, r.login = login) :
    ∃ r ∈ rows.foldl (dir.preferRow [login] (dir.lower login)) out, r.login = login := by
  induction rows generalizing out with
  | nil =>
    rcases h with h | ⟨r, hr, _⟩
    · exact h
    · exact absurd hr List.not_mem_nil
  | cons row rows ih =>
    apply ih
    rcases h with h | ⟨r, hr, he⟩
    · exact Or.inl (dir.preferRow_exact (Or.inl h))
    · rcases List.mem_cons.mp hr with rfl | hr
      · exact Or.inl (dir.preferRow_exact (Or.inr he))
      · exact Or.inr ⟨r, hr, he⟩

theorem foldl_preferRow_mem {logins : List String} {key : String} {out : Option CustomerRow}
    {rows : List CustomerRow} {r : CustomerRow}
    (h : rows.foldl (dir.preferRow logins key) out = some r) : out = some r ∨ r ∈ rows := by
  induction rows generalizing out with
  | nil => exact Or.inl h
  | cons row rows ih =>
    rcases ih h with h' | h'
    · unfold preferRow at h'
      split at h'
      · exact Or.inr (by rw [Option.some.inj h']; exact List.mem_cons_self)
      · exact Or.inl h'
    · exact Or.inr (List.mem_cons_of_mem _ h')

theorem customerRow_mem {logins : List String} {key : String} {r : CustomerRow}
    (h : dir.customerRow logins key = some r) : r ∈ dir.customers :=
  (dir.foldl_preferRow_mem h).resolve_left (fun h' ↦ nomatch h')

/-- The stored spelling of a stored spelling is itself. -/
theorem canonicalPrincipal_idem (p : Principal) :
    dir.canonicalPrincipal (dir.canonicalPrincipal p) = dir.canonicalPrincipal p := by
  cases p with
  | agent n => rfl
  | customer login =>
    cases hrow : dir.customerRow [login] (dir.lower login) with
    | none => simp only [canonicalPrincipal, hrow]
    | some row =>
      have hmem := dir.customerRow_mem hrow
      obtain ⟨r, hr, he⟩ := dir.foldl_preferRow_exact (Or.inr ⟨row, hmem, rfl⟩)
      have hself : dir.customerRow [row.login] (dir.lower row.login) = some r := hr
      simp only [canonicalPrincipal, hrow, hself, he]

end Directory

/-- Where an approver row comes from: an entry of the step, its escalation list, or the row
it was forwarded from. -/
inductive Source
  | entry (kind : EntryKind) (ref : String)
  | escalation (ref : String)
  | forward (origin : ℕ)
  deriving DecidableEq

structure ResolvedApprover where
  principal : Principal
  source : Source
  deriving DecidableEq

structure Resolution where
  approvers : List ResolvedApprover
  excluded : List (Principal × String)
  unresolved : List ApproverEntry

/-- What collecting the entries of a step gives: the principals they name, with the entry
each comes from, and the entries that name nothing. -/
structure Collected where
  candidates : List (Principal × ApproverEntry)
  unresolved : List ApproverEntry

/-- Why a principal cannot approve, if so. -/
def exclusion (dir : Directory) (logins : List String) (excluded : List Principal)
    (allowCustomers : Bool) (p : Principal) : Option String :=
  match p with
  | .agent n =>
    if n = 1 then some "system_user"
    else match dir.agentValid n with
      | none => some "unknown"
      | some valid =>
        if valid ≠ 1 then some "invalid"
        else if p ∈ excluded then some "self"
        else none
  | .customer login =>
    if !allowCustomers then some "customers_not_allowed"
    else match (dir.customerRows logins).find? fun r ↦ r.login = login with
      | none => some "unknown"
      | some row =>
        if row.validId ≠ 1 then some "invalid"
        else if p ∈ excluded then some "self"
        else if !dir.admitted logins login then some "outside_company"
        else none

/-- The first source of a principal wins, also when the principal is excluded. -/
def sift (why : Principal → Option String) :
    List Principal → List ResolvedApprover → List ResolvedApprover × List (Principal × String)
  | _, [] => ([], [])
  | seen, c :: cs =>
    if c.principal ∈ seen then sift why seen cs
    else
      let rest := sift why (c.principal :: seen) cs
      match why c.principal with
      | some reason => (rest.1, (c.principal, reason) :: rest.2)
      | none => (c :: rest.1, rest.2)

def sourceOf (escalation : Bool) (e : ApproverEntry) : Source :=
  if escalation then .escalation e.ref else .entry e.kind e.ref

def canonicalCandidate (dir : Directory) (logins : List String) (p : Principal) : Principal :=
  match p with
  | .agent n => .agent n
  | .customer login =>
    match dir.customerRow logins (dir.lower login) with
    | some row => .customer row.login
    | none => .customer login

def resolveEntries (dir : Directory) (found : Collected) (excluded : List Principal)
    (allowCustomers escalation : Bool) : Resolution :=
  let logins := found.candidates.filterMap (·.1.login)
  let candidates := found.candidates.map fun c ↦
    ⟨if allowCustomers then canonicalCandidate dir logins c.1 else c.1, sourceOf escalation c.2⟩
  let sifted := sift (exclusion dir logins excluded allowCustomers) [] candidates
  ⟨sifted.1, sifted.2, found.unresolved⟩

theorem sift_spec {why : Principal → Option String} {seen : List Principal}
    {cs : List ResolvedApprover} :
    ((sift why seen cs).1.map (·.principal)).Nodup ∧
      ∀ a ∈ (sift why seen cs).1, a ∈ cs ∧ a.principal ∉ seen ∧ why a.principal = none := by
  induction cs generalizing seen with
  | nil => simp [sift]
  | cons c cs ih =>
    unfold sift
    split
    · obtain ⟨hn, hm⟩ := ih
      refine ⟨hn, fun a ha ↦ ?_⟩
      obtain ⟨h, h'⟩ := hm a ha
      exact ⟨List.mem_cons_of_mem _ h, h'⟩
    · rename_i hc
      obtain ⟨hn, hm⟩ := ih
      have hrest : ∀ a ∈ (sift why (c.principal :: seen) cs).1,
          a ∈ c :: cs ∧ a.principal ∉ seen ∧ why a.principal = none := by
        intro a ha
        obtain ⟨h, hs, hw⟩ := hm a ha
        exact ⟨List.mem_cons_of_mem _ h, fun hs' ↦ hs (List.mem_cons_of_mem _ hs'), hw⟩
      cases hw : why c.principal with
      | some reason => exact ⟨hn, hrest⟩
      | none =>
        constructor
        · rw [List.map_cons, List.nodup_cons]
          refine ⟨fun hmem ↦ ?_, hn⟩
          obtain ⟨a, ha, he⟩ := List.mem_map.mp hmem
          exact (hm a ha).2.1 (he ▸ List.mem_cons_self)
        · intro a ha
          rcases List.mem_cons.mp ha with rfl | ha
          · exact ⟨List.mem_cons_self, hc, hw⟩
          · exact hrest a ha

theorem exclusion_none {dir : Directory} {logins : List String} {excluded : List Principal}
    {allowCustomers : Bool} {p : Principal}
    (h : exclusion dir logins excluded allowCustomers p = none) : p ∉ excluded := by
  intro hp
  unfold exclusion at h
  simp only [hp, if_true] at h
  cases p with
  | agent n =>
    simp only at h
    split at h
    · cases h
    · split at h
      · cases h
      · split at h <;> cases h
  | customer login =>
    simp only at h
    split at h
    · cases h
    · split at h
      · cases h
      · split at h <;> cases h

/-- Every resolved approver is a different person, and none of them is excluded. -/
theorem resolveEntries_spec (dir : Directory) (found : Collected) (excluded : List Principal)
    (allowCustomers escalation : Bool) :
    ((resolveEntries dir found excluded allowCustomers escalation).approvers.map
        (·.principal)).Nodup ∧
      ∀ a ∈ (resolveEntries dir found excluded allowCustomers escalation).approvers,
        a.principal ∉ excluded := by
  refine ⟨sift_spec.1, fun a ha ↦ ?_⟩
  exact exclusion_none (sift_spec.2 a ha).2.2

end Tiqora.Approvals
