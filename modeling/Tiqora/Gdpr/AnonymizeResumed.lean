import Mathlib.Data.Set.Finite.Basic
import Tiqora.Gdpr.AnonymizeApart

namespace Tiqora.Gdpr.Anonymize

section Conditions

variable (server : Server) (call : Call) (db : Db)

/-- Nobody who was selected keeps a value, and the articles and the tickets of their logins were
scrubbed and marked. -/
structure Anonymized (commits : List Commit) (final : Db) : Prop where
  users : ∀ old ∈ selected server call db, ∀ new ∈ final.customers, new.id = old.id →
    Forgets old new
  scrubbed : ∀ mime ∈ mimesOf db (ticketIds server call db), ∃ m row, row.id = mime.id ∧
    Commit.mime (scrub server m row).1 ∈ commits
  marked : ∀ id ∈ ticketIds server call db, id ∈ final.dirty

def Completes : Prop :=
  let run := anonymizeCustomer server call db
  run.outcome = .done ∧ Anonymized server call db run.commits (db.run server run.commits)

/-- A run that was cut off after some commits is finished by the same call. -/
def Finishes (k : ℕ) : Prop :=
  let commits := (anonymizeCustomer server call db).commits.take k
  let again := anonymizeCustomer server call (db.run server commits)
  again.outcome = .done ∧
    Anonymized server call db (commits ++ again.commits) (db.run server (commits ++ again.commits))

/-- The call goes by the customer id, and was cut off behind the articles and the marks. -/
structure Resumable (k : ℕ) : Prop where
  byId : call.login = []
  scrubbed : (mimesOf db (ticketIds server call db)).length ≤
    k - (1 + (companyCommits server call db).length)
  marked : (∀ id ∈ ticketIds server call db, id ∈ db.dirty) ∨ server.queueable = true ∧
    (mimesOf db (ticketIds server call db)).length <
      k - (1 + (companyCommits server call db).length)

end Conditions

section Commits

variable {server : Server} {call : Call} {db : Db} {m : Mapper} {commit : Commit}

theorem nodup_mimesOf (h : Keyed server db) (ids : List ℕ) :
    ((mimesOf db ids).map Mime.id).Nodup :=
  (List.filter_sublist.map Mime.id).nodup h.mimes

/-- The first scrubs cover all rows when there are as many of them as rows. -/
theorem scrubs_take_iff (server : Server) (m : Mapper) {rows : List Mime} (hnodup :
    (rows.map Mime.id).Nodup) (i : ℕ) :
    (∀ mime ∈ rows, ∃ m' row, row.id = mime.id ∧
      Commit.mime (scrub server m' row).1 ∈ (scrubs server m rows).take i) ↔ rows.length ≤ i := by
  constructor
  · intro h
    by_contra hlt
    rw [Nat.not_le] at hlt
    obtain ⟨m', row, hid, hmem⟩ := h rows[i] (List.getElem_mem hlt)
    rw [take_scrubs] at hmem
    obtain ⟨row', hrow', m'', heq⟩ := mem_scrubs hmem
    have hids : row'.id = rows[i].id :=
      (congrArg Mime.id (Commit.mime.inj heq)).symm.trans hid
    have hrow : row' = rows[i] := List.inj_on_of_nodup_map hnodup (List.mem_of_mem_take hrow')
      (List.getElem_mem hlt) hids
    have hsplit := hnodup.of_map
    rw [← List.take_append_drop i rows, List.nodup_append] at hsplit
    refine hsplit.2.2 row' hrow' rows[i] ?_ hrow
    rw [List.drop_eq_getElem_cons hlt]
    exact List.mem_cons_self
  · intro hle mime hmime
    obtain ⟨m', hm'⟩ := scrubs_covers hmime
    refine ⟨m', mime, rfl, ?_⟩
    rw [List.take_of_length_le (length_scrubs.trans_le hle)]
    exact hm'

theorem isMime_mime (row : Mime) : (Commit.mime row).IsMime := trivial

theorem mime_mem_take (hmime : commit.IsMime) (j : ℕ) :
    commit ∈ (companyCommits server call db ++ tailCommits server call db m).take j ↔
      commit ∈ (scrubs server m (mimesOf db (ticketIds server call db))).take
        (j - (companyCommits server call db).length) := by
  rw [List.take_append, tailCommits, List.append_assoc, List.take_append, List.mem_append,
    List.mem_append]
  constructor
  · rintro (h | h | h)
    · have hcompany := mem_companyCommits (List.mem_of_mem_take h)
      cases commit <;> first | exact absurd hcompany not_false | exact absurd hmime not_false
    · exact h
    · rcases List.mem_append.1 (List.mem_of_mem_take h) with h | h
      · rw [(mem_marks h).1] at hmime
        exact absurd hmime not_false
      · rw [List.mem_singleton.1 h] at hmime
        exact absurd hmime not_false
  · exact fun h ↦ .inr (.inl h)

theorem marks_mem_take {ids : List ℕ} (j : ℕ) : Commit.marks ids ∈
    (companyCommits server call db ++ tailCommits server call db m).take j ↔
      (ids = ticketIds server call db ∧ ids ≠ [] ∧ server.queueable = true) ∧
        (mimesOf db (ticketIds server call db)).length <
          j - (companyCommits server call db).length := by
  rw [List.take_append, tailCommits, List.append_assoc, List.take_append, length_scrubs,
    List.mem_append, List.mem_append]
  constructor
  · rintro (h | h | h)
    · exact absurd (mem_companyCommits (List.mem_of_mem_take h)) not_false
    · obtain ⟨_, -, _, heq⟩ := mem_scrubs (List.mem_of_mem_take h)
      cases heq
    · have hpos : 0 < j - (companyCommits server call db).length -
          (mimesOf db (ticketIds server call db)).length := by
        refine Nat.pos_of_ne_zero fun hzero ↦ ?_
        rw [hzero, List.take_zero] at h
        cases h
      refine ⟨?_, Nat.lt_of_sub_pos hpos⟩
      rcases List.mem_append.1 (List.mem_of_mem_take h) with h | h
      · obtain ⟨heq, hne, hqueue⟩ := mem_marks h
        obtain rfl := Commit.marks.inj heq
        exact ⟨rfl, hne, hqueue⟩
      · cases List.mem_singleton.1 h
  · rintro ⟨⟨rfl, hne, hqueue⟩, hlt⟩
    refine .inr (.inr ?_)
    rw [marks, if_pos ⟨hne, hqueue⟩]
    obtain ⟨i, hi⟩ := Nat.exists_eq_add_of_lt hlt
    have hpos : j - (companyCommits server call db).length -
        (mimesOf db (ticketIds server call db)).length = i + 1 := by
      omega
    rw [hpos, List.singleton_append, List.take_succ_cons]
    exact List.mem_cons_self

end Commits

section Resumed

variable {server : Server} {call : Call} {db : Db}

theorem Apart.replaced_eq (h : Apart server call db) {cu : CustomerUser}
    (hcu : cu ∈ selected server call db) {p : Kind × Text}
    (hp : p ∈ present (identityColumns cu)) :
    replaced server.faker call.seedValue p.1 p.2 ≠ p.2 ∧
      replaced server.faker call.seedValue p.1
        (replaced server.faker call.seedValue p.1 p.2) ≠ p.2 := by
  obtain ⟨hfirst, hsecond⟩ := h.forgets cu hcu p hp
  have hdrawn : replaced server.faker call.seedValue p.1 p.2 = (next server call p).2 :=
    if_neg (mem_present.1 hp).2
  rw [hdrawn, replaced]
  refine ⟨hfirst, ?_⟩
  split
  · exact hfirst
  · exact hsecond

/-- A row of the table with its id is what became of a selected row. -/
theorem Keyed.eq_of_id (h : Keyed server db) {old cu : CustomerUser}
    (hold : old ∈ selected server call db) (hcu : cu ∈ db.customers) (hid : cu.id = old.id) :
    cu = old :=
  List.inj_on_of_nodup_map h.ids hcu (mem_selected.1 hold).1 hid

theorem rename_id (cu : CustomerUser) : (rename server call cu).id = cu.id := by
  rw [rename]
  split <;> rfl

/-- A call that goes by a login does not find the person again. -/
theorem not_finishes_of_login (hstarts : Starts server call db) (hapart : Apart server call db)
    {cut : Db} (h : CutOff server call db cut) (hlogin : call.login ≠ []) :
    (anonymizeCustomer server call cut).outcome = .notFound := by
  rw [anonymizeCustomer, if_neg hstarts.target, if_neg (by rw [hstarts.allowed]; decide)]
  dsimp only
  rw [if_pos (h.selected_login hapart hlogin)]

/-- What a run does that goes by the customer id and was cut off. -/
theorem again_eq (hkeyed : Keyed server db) (hstarts : Starts server call db)
    (hapart : Apart server call db) {cut : Db} (h : CutOff server call db cut)
    (hid : call.login = []) : ∃ entry, anonymizeCustomer server call cut =
      ⟨.users (cut.customers.map (rename server call)) ::
        (companyCommits server call cut ++ [.audit entry]), .done⟩ := by
  obtain ⟨m, hrun⟩ := anonymizeCustomer_eq (h.starts hid hstarts)
    (h.accepted hid hkeyed hstarts hapart)
  refine ⟨auditEntry server call cut, ?_⟩
  have hmimes : mimesOf cut [] = [] := by
    rw [mimesOf, List.filter_eq_nil_iff]
    intro mime _ hany
    obtain ⟨article, -, hand⟩ := List.any_eq_true.1 hany
    rw [decide_eq_false List.not_mem_nil, Bool.false_and] at hand
    cases hand
  rw [hrun, tailCommits, h.ticketIds_eq hid hapart, hmimes]
  rfl

/-- What the first commits of a run scrub and mark, when nothing is scrubbed or marked later. -/
theorem anonymized_iff (hkeyed : Keyed server db) {m : Mapper} {table : List CustomerUser} {j : ℕ}
    {first : List Commit} (later : List Commit) (hfirst : first = .users table ::
      (companyCommits server call db ++ tailCommits server call db m).take j)
    (hlater : ∀ commit ∈ later, ¬ commit.IsMime ∧ ∀ ids, commit ≠ .marks ids)
    (husers : ∀ old ∈ selected server call db,
      ∀ new ∈ (db.run server (first ++ later)).customers, new.id = old.id → Forgets old new) :
    Anonymized server call db (first ++ later) (db.run server (first ++ later)) ↔
      (mimesOf db (ticketIds server call db)).length ≤
          j - (companyCommits server call db).length ∧
        ((∀ id ∈ ticketIds server call db, id ∈ db.dirty) ∨ server.queueable = true ∧
          (mimesOf db (ticketIds server call db)).length <
            j - (companyCommits server call db).length) := by
  have hcommit : ∀ commit, commit.IsMime ∨ (∃ ids, commit = .marks ids) →
      (commit ∈ first ++ later ↔ commit ∈
        (companyCommits server call db ++ tailCommits server call db m).take j) := by
    intro commit hkind
    rw [hfirst, List.mem_append]
    constructor
    · rintro (h | h)
      · rcases List.mem_cons.1 h with rfl | h
        · rcases hkind with hmime | ⟨_, hmarks⟩
          · exact absurd hmime not_false
          · cases hmarks
        · exact h
      · rcases hkind with hmime | ⟨ids, hmarks⟩
        · exact absurd hmime (hlater commit h).1
        · exact absurd hmarks ((hlater commit h).2 ids)
    · exact fun h ↦ .inl (List.mem_cons_of_mem _ h)
  constructor
  · intro h
    refine ⟨(scrubs_take_iff server m (nodup_mimesOf hkeyed _) _).1 fun mime hmime ↦ ?_, ?_⟩
    · obtain ⟨m', row, hid, hmem⟩ := h.scrubbed mime hmime
      refine ⟨m', row, hid, (mime_mem_take (isMime_mime _) j).1 ?_⟩
      exact (hcommit _ (.inl (isMime_mime _))).1 hmem
    · by_cases hmarks : server.queueable = true ∧ (mimesOf db (ticketIds server call db)).length <
          j - (companyCommits server call db).length
      · exact .inr hmarks
      · refine .inl fun id hid ↦ (mem_dirty_run.1 (h.marked id hid)).resolve_right ?_
        rintro ⟨ids, hmem, -⟩
        have hin := (marks_mem_take j).1 ((hcommit _ (.inr ⟨ids, rfl⟩)).1 hmem)
        exact hmarks ⟨hin.1.2.2, hin.2⟩
  · rintro ⟨hscrubbed, hmarked⟩
    refine ⟨husers, fun mime hmime ↦ ?_, fun id hid ↦ mem_dirty_run.2 ?_⟩
    · obtain ⟨m', row, hid, hmem⟩ :=
        (scrubs_take_iff server m (nodup_mimesOf hkeyed _) _).2 hscrubbed mime hmime
      refine ⟨m', row, hid, (hcommit _ (.inl (isMime_mime _))).2 ?_⟩
      exact (mime_mem_take (isMime_mime _) j).2 hmem
    · rcases hmarked with hdirty | ⟨hqueue, hlt⟩
      · exact .inl (hdirty id hid)
      · refine .inr ⟨ticketIds server call db, (hcommit _ (.inr ⟨_, rfl⟩)).2 ?_, hid⟩
        exact (marks_mem_take j).2 ⟨⟨rfl, List.ne_nil_of_mem hid, hqueue⟩, hlt⟩

theorem completes_iff (hkeyed : Keyed server db) (hstarts : Starts server call db)
    (hapart : Apart server call db) : Completes server call db ↔
      (∀ id ∈ ticketIds server call db, id ∈ db.dirty) ∨ server.queueable = true := by
  obtain ⟨m, hrun⟩ := anonymizeCustomer_eq hstarts (hapart.accepted hkeyed)
  obtain ⟨rest, hrest⟩ : ∃ rest, companyCommits server call db ++ tailCommits server call db m =
    rest := ⟨_, rfl⟩
  have hlength : (mimesOf db (ticketIds server call db)).length <
      rest.length - (companyCommits server call db).length := by
    rw [← hrest, tailCommits, List.length_append, List.length_append, List.length_append,
      length_scrubs, List.length_singleton]
    omega
  have husers : ∀ old ∈ selected server call db, ∀ new ∈ (db.run server
      ((.users (db.customers.map (rename server call)) :: rest) ++ [])).customers,
        new.id = old.id → Forgets old new := by
    intro old hold new hnew hid
    rw [List.append_nil, run_cons, run_customers fun commit hcommit ↦ by
      rw [← hrest] at hcommit
      exact not_isUsers hcommit] at hnew
    obtain ⟨cu, hcu, rfl⟩ := List.mem_map.1 hnew
    obtain rfl := hkeyed.eq_of_id hold hcu ((rename_id cu).symm.trans hid)
    rw [rename, if_pos (mem_selected.1 hold).2]
    exact forgets_of_replaced (columns_renamed server.faker cu) fun p hp ↦
      (hapart.replaced_eq hold hp).1
  have hanonymized := anonymized_iff hkeyed (m := m) (j := rest.length) []
    (by rw [hrest, List.take_length]) (fun _ h ↦ absurd h List.not_mem_nil) husers
  rw [Completes, hrun, hrest]
  dsimp only
  rw [List.append_nil] at hanonymized
  rw [hanonymized]
  constructor
  · rintro ⟨-, -, hdirty | ⟨hqueue, -⟩⟩
    · exact .inl hdirty
    · exact .inr hqueue
  · rintro (hdirty | hqueue)
    · exact ⟨rfl, hlength.le, .inl hdirty⟩
    · exact ⟨rfl, hlength.le, .inr ⟨hqueue, hlength⟩⟩

/-- The second run by the customer id scrubs and marks nothing. -/
theorem mem_again {table : List CustomerUser} {cut : Db} {entry : Audit} {commit : Commit}
    (h : commit ∈ Commit.users table :: (companyCommits server call cut ++ [.audit entry])) :
    ¬ commit.IsMime ∧ ∀ ids, commit ≠ .marks ids := by
  rcases List.mem_cons.1 h with rfl | h
  · exact ⟨not_false, fun _ h ↦ by cases h⟩
  · rcases List.mem_append.1 h with h | h
    · have hcompany := mem_companyCommits h
      cases commit with
      | company => exact ⟨not_false, fun _ h ↦ by cases h⟩
      | _ => exact absurd hcompany not_false
    · rw [List.mem_singleton.1 h]
      exact ⟨not_false, fun _ h ↦ by cases h⟩

/-- After two replacements nobody has the values of before the first. -/
theorem CutOff.forgets (hkeyed : Keyed server db) (hapart : Apart server call db) {cut : Db}
    (h : CutOff server call db cut) (hlogin : call.login = []) {old new : CustomerUser}
    (hold : old ∈ selected server call db)
    (hnew : new ∈ cut.customers.map (rename server call)) (hid : new.id = old.id) :
    Forgets old new := by
  rw [h.customers, List.map_map] at hnew
  obtain ⟨cu, hcu, rfl⟩ := List.mem_map.1 hnew
  rw [Function.comp_apply, rename_id, rename_id] at hid
  obtain rfl := hkeyed.eq_of_id hold hcu hid
  have hselects := (mem_selected.1 hold).2
  rw [Function.comp_apply, rename, CutOff.selects_rename hlogin, if_pos hselects, rename,
    if_pos hselects]
  refine forgets_of_replaced (f := fun kind v ↦ replaced server.faker call.seedValue kind
    (replaced server.faker call.seedValue kind v)) ?_ fun p hp ↦ (hapart.replaced_eq hold hp).2
  rw [columns_renamed, columns_renamed, List.map_map]
  refine List.map_congr_left fun c _ ↦ ?_
  rw [Function.comp_apply, Option.map_map]
  rfl

theorem finishes_iff (hkeyed : Keyed server db) (hstarts : Starts server call db)
    (hapart : Apart server call db) {k : ℕ} (hk : 1 ≤ k) :
    Finishes server call db k ↔ Resumable server call db k := by
  obtain ⟨m, hrun⟩ := anonymizeCustomer_eq hstarts (hapart.accepted hkeyed)
  obtain ⟨j, rfl⟩ := Nat.exists_eq_add_of_le' hk
  have hsub : ∀ c, j + 1 - (1 + c) = j - c := fun c ↦ by omega
  have hcut := cutOff server call db m j
  rw [Finishes, hrun]
  dsimp only
  rw [List.take_succ_cons]
  obtain ⟨first, hfirst⟩ : ∃ first, first = Commit.users (db.customers.map (rename server call)) ::
    (companyCommits server call db ++ tailCommits server call db m).take j := ⟨_, rfl⟩
  rw [← hfirst] at hcut ⊢
  by_cases hlogin : call.login = []
  · obtain ⟨entry, hagain⟩ := again_eq hkeyed hstarts hapart hcut hlogin
    rw [hagain, anonymized_iff hkeyed _ hfirst fun _ ↦ mem_again]
    · constructor
      · rintro ⟨-, hscrubbed, hmarked⟩
        exact ⟨hlogin, (hsub _).symm ▸ hscrubbed, (hsub _).symm ▸ hmarked⟩
      · rintro ⟨-, hscrubbed, hmarked⟩
        rw [hsub] at hscrubbed hmarked
        exact ⟨rfl, hscrubbed, hmarked⟩
    · intro old hold new hnew hid
      rw [run_append, run_cons, run_customers fun commit hcommit ↦ ?_] at hnew
      · exact hcut.forgets hkeyed hapart hlogin hold hnew hid
      · rcases List.mem_append.1 hcommit with hcommit | hcommit
        · exact not_isUsers (m := m) (List.mem_append_left _ hcommit)
        · rw [List.mem_singleton.1 hcommit]
          exact not_false
  · refine ⟨fun h ↦ ?_, fun h ↦ absurd h.byId hlogin⟩
    rw [not_finishes_of_login hstarts hapart hcut hlogin] at h
    cases h.1

end Resumed

variable (server : Server) (call : Call) (db : Db)

/-- When Faker draws new values, a run that was cut off is finished by the same call exactly when
it goes by the customer id and was cut off behind the articles and the marks. -/
theorem anonymize_resumes (hkeyed : Keyed server db) (hstarts : Starts server call db)
    (hapart : Apart server call db) :
    (∀ k, 1 ≤ k → k < (anonymizeCustomer server call db).commits.length →
      (Finishes server call db k ↔ Resumable server call db k)) ∧
    (Completes server call db ↔
      (∀ id ∈ ticketIds server call db, id ∈ db.dirty) ∨ server.queueable = true) :=
  ⟨fun _ hk _ ↦ finishes_iff hkeyed hstarts hapart hk, completes_iff hkeyed hstarts hapart⟩

section Sample

theorem draws_fresh (original : Text) (used : List Text) :
    ∃ attempt, 'x' :: salt original attempt ∉ used := by
  have hinj : Function.Injective fun attempt ↦ 'x' :: salt original attempt := fun _ _ h ↦
    salt_injective original (List.cons.inj h).2
  obtain ⟨_, ⟨attempt, rfl⟩, hnot⟩ :=
    (Set.infinite_range_of_injective hinj).exists_notMem_finset used.toFinset
  exact ⟨attempt, fun hmem ↦ hnot (List.mem_toFinset.2 hmem)⟩

/-- Every value is replaced by the value behind a letter. -/
def letterFaker : Faker where
  draw _ _ salt := 'x' :: salt
  fresh _ _ original used := draws_fresh original used
  fullName _ name := 'x' :: name
  line _ _ _ n := List.replicate n 'x'
  getaddresses value := [([], value)]
  formataddr p := p.2
  addressParts value := [.inl value]

def letterServer : Server where
  faker := letterFaker
  same s t := decide (s = t)
  same_refl _ := decide_eq_true rfl
  same_comm _ _ := decide_eq_decide.2 eq_comm
  owned := true
  queueable := true

def anna : CustomerUser where
  id := 1
  login := "anna".toList
  email := "anna@acme.de".toList
  customerId := "ACME".toList
  firstName := "Anna".toList
  lastName := "Berg".toList
  phone := some "030".toList
  fax := none
  mobile := none
  street := none
  zip := none
  city := none
  country := none

/-- One customer user with a ticket and an article. -/
def annaDb : Db where
  customers := [anna]
  companies := []
  tickets := [⟨7, some "anna".toList⟩]
  articles := [⟨5, 7⟩]
  mimes := [⟨3, 5, some "anna@acme.de".toList, none, none, some "Hello".toList⟩]
  dirty := []
  audits := []

def idCall : Call := ⟨[], "ACME".toList, none, false, false, "cli".toList⟩

def loginCall : Call := { idCall with login := "anna".toList, customerId := [] }

theorem keyed_annaDb : Keyed letterServer annaDb :=
  ⟨by decide, by decide, by decide, by decide⟩

theorem starts_annaDb {call : Call} (h : call = idCall ∨ call = loginCall) :
    Starts letterServer call annaDb := by
  rcases h with rfl | rfl <;> exact ⟨by decide, by decide, by decide⟩

theorem apart_annaDb {call : Call} (h : call = idCall ∨ call = loginCall) :
    Apart letterServer call annaDb := by
  rcases h with rfl | rfl <;>
    exact ⟨by decide, by decide, by decide, by decide, by decide, fun _ h ↦ by cases h⟩

theorem anonymize_resumes_annaDb :
    (∀ k, 1 ≤ k → k < (anonymizeCustomer letterServer idCall annaDb).commits.length →
      (Finishes letterServer idCall annaDb k ↔ Resumable letterServer idCall annaDb k)) ∧
    (Completes letterServer idCall annaDb ↔
      (∀ id ∈ ticketIds letterServer idCall annaDb, id ∈ annaDb.dirty) ∨
        letterServer.queueable = true) :=
  anonymize_resumes letterServer idCall annaDb keyed_annaDb (starts_annaDb (.inl rfl))
    (apart_annaDb (.inl rfl))

/-- After the first commit the same call by the login raises. -/
theorem login_not_found_again :
    1 < (anonymizeCustomer letterServer loginCall annaDb).commits.length ∧
      (anonymizeCustomer letterServer loginCall (annaDb.run letterServer
        ((anonymizeCustomer letterServer loginCall annaDb).commits.take 1))).outcome = .notFound ∧
      ¬ Finishes letterServer loginCall annaDb 1 := by
  have hstarts := starts_annaDb (.inr rfl : loginCall = idCall ∨ loginCall = loginCall)
  have hapart := apart_annaDb (.inr rfl : loginCall = idCall ∨ loginCall = loginCall)
  obtain ⟨m, hrun⟩ := anonymizeCustomer_eq hstarts (hapart.accepted keyed_annaDb)
  have hcut := cutOff letterServer loginCall annaDb m 0
  rw [List.take_zero] at hcut
  refine ⟨?_, ?_, fun h ↦ ?_⟩
  · rw [hrun, tailCommits, List.length_cons, List.length_append, List.length_append,
      List.length_singleton]
    omega
  · rw [hrun]
    exact not_finishes_of_login hstarts hapart hcut (by decide)
  · have hresumable := (finishes_iff keyed_annaDb hstarts hapart (Nat.le_refl 1)).1 h
    exact absurd hresumable.byId (by decide)

end Sample

end Tiqora.Gdpr.Anonymize
