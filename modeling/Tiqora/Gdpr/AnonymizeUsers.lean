import Mathlib.Data.List.Forall2
import Mathlib.Data.List.Nodup
import Tiqora.Gdpr.Anonymize

namespace Tiqora.Gdpr.Anonymize

variable {server : Server}

section Replacement

/-- The columns that tell who somebody is, with the kinds of their values. -/
def identityColumns (cu : CustomerUser) : List (Kind × Option Text) :=
  [(Kind.firstName, some cu.firstName), (Kind.lastName, some cu.lastName),
    (Kind.email, some cu.email), (Kind.login, some cu.login), (Kind.phone, cu.phone),
    (Kind.phone, cu.fax), (Kind.phone, cu.mobile)]

def addressColumns (cu : CustomerUser) : List (Kind × Option Text) :=
  [(Kind.street, cu.street), (Kind.zip, cu.zip), (Kind.city, cu.city), (Kind.country, cu.country)]

/-- The values of columns that are not empty. -/
def present (columns : List (Kind × Option Text)) : List (Kind × Text) :=
  columns.flatMap fun c ↦ (c.2.toList.filter (· ≠ [])).map fun v ↦ (c.1, v)

def fields (cu : CustomerUser) : List (Kind × Text) :=
  present (identityColumns cu ++ addressColumns cu)

/-- The row with the first draw for every value. -/
def renamed (faker : Faker) (seed : ℤ) (cu : CustomerUser) : CustomerUser :=
  { cu with
    firstName := replaced faker seed .firstName cu.firstName
    lastName := replaced faker seed .lastName cu.lastName
    email := replaced faker seed .email cu.email
    login := replaced faker seed .login cu.login
    phone := cu.phone.map (replaced faker seed .phone)
    fax := cu.fax.map (replaced faker seed .phone)
    mobile := cu.mobile.map (replaced faker seed .phone)
    street := cu.street.map (replaced faker seed .street)
    zip := cu.zip.map (replaced faker seed .zip)
    city := cu.city.map (replaced faker seed .city)
    country := cu.country.map (replaced faker seed .country) }

variable {seed : ℤ} {values : List (Kind × Text)} {m : Mapper} {cu : CustomerUser}
  {columns : List (Kind × Option Text)} {kind : Kind} {v : Text}

theorem mem_present : (kind, v) ∈ present columns ↔ (kind, some v) ∈ columns ∧ v ≠ [] := by
  rw [present, List.mem_flatMap]
  constructor
  · rintro ⟨⟨kind', value⟩, hc, hv⟩
    obtain ⟨w, hw, heq⟩ := List.mem_map.1 hv
    obtain ⟨hw, hne⟩ := List.mem_filter.1 hw
    cases heq
    rw [Option.mem_toList] at hw
    have hvalue : value = some v := hw
    rw [hvalue] at hc
    exact ⟨hc, of_decide_eq_true hne⟩
  · rintro ⟨hc, hne⟩
    refine ⟨(kind, some v), hc, List.mem_map.2 ⟨v, List.mem_filter.2 ⟨?_, decide_eq_true hne⟩, rfl⟩⟩
    exact Option.mem_toList.2 rfl

theorem replaceUser_eq (h : m.Holds server.faker seed values)
    (hclash : Clashless server.faker seed values) (hvalues : ∀ p ∈ fields cu, p ∈ values) :
    (replaceUser server m cu).1 = renamed server.faker seed cu ∧
      (replaceUser server m cu).2.Holds server.faker seed values := by
  have hcolumn : ∀ {kind value} (i : ℕ), (identityColumns cu ++ addressColumns cu)[i]? =
      some (kind, value) → ∀ v ∈ value, v ≠ [] → (kind, v) ∈ values := by
    rintro kind value i hi v rfl hne
    exact hvalues _ (mem_present.2 ⟨List.mem_of_getElem? hi, hne⟩)
  obtain ⟨hfirst, h⟩ := h.mapText_eq hclash (hcolumn 0 rfl _ rfl)
  obtain ⟨hlast, h⟩ := h.mapText_eq hclash (hcolumn 1 rfl _ rfl)
  obtain ⟨hemail, h⟩ := h.mapText_eq hclash (hcolumn 2 rfl _ rfl)
  obtain ⟨hlogin, h⟩ := h.mapText_eq hclash (hcolumn 3 rfl _ rfl)
  obtain ⟨hphone, h⟩ := h.mapValue_eq hclash (hcolumn 4 rfl)
  obtain ⟨hfax, h⟩ := h.mapValue_eq hclash (hcolumn 5 rfl)
  obtain ⟨hmobile, h⟩ := h.mapValue_eq hclash (hcolumn 6 rfl)
  obtain ⟨hstreet, h⟩ := h.mapValue_eq hclash (hcolumn 7 rfl)
  obtain ⟨hzip, h⟩ := h.mapValue_eq hclash (hcolumn 8 rfl)
  obtain ⟨hcity, h⟩ := h.mapValue_eq hclash (hcolumn 9 rfl)
  obtain ⟨hcountry, h⟩ := h.mapValue_eq hclash (hcolumn 10 rfl)
  refine ⟨?_, h⟩
  rw [replaceUser, renamed]
  dsimp only
  rw [hfirst, hlast, hemail, hlogin, hphone, hfax, hmobile, hstreet, hzip, hcity, hcountry]

theorem replaceUsers_eq {customers : List CustomerUser} (h : m.Holds server.faker seed values)
    (hclash : Clashless server.faker seed values)
    (hvalues : ∀ cu ∈ customers, ∀ p ∈ fields cu, p ∈ values) :
    (replaceUsers server m customers).1 = customers.map (renamed server.faker seed) ∧
      (replaceUsers server m customers).2.Holds server.faker seed values := by
  induction customers generalizing m with
  | nil => exact ⟨rfl, h⟩
  | cons cu customers ih =>
    obtain ⟨hcu, hrest⟩ := List.forall_mem_cons.1 hvalues
    obtain ⟨hrow, hholds⟩ := replaceUser_eq h hclash hcu
    obtain ⟨hrows, hholds'⟩ := ih hholds hrest
    refine ⟨?_, hholds'⟩
    rw [replaceUsers, List.map_cons, ← hrow, ← hrows]

theorem columns_renamed (faker : Faker) (cu : CustomerUser) :
    identityColumns (renamed faker seed cu) =
      (identityColumns cu).map fun c ↦ (c.1, c.2.map (replaced faker seed c.1)) :=
  rfl

/-- No column that tells who somebody is has kept its value. -/
def Forgets (old new : CustomerUser) : Prop :=
  List.Forall₂ (fun c c' ↦ ∀ v ∈ c.2, v ≠ [] → c'.2 ≠ some v) (identityColumns old)
    (identityColumns new)

theorem forgets_of_replaced {f : Kind → Text → Text} {old new : CustomerUser}
    (hnew : identityColumns new = (identityColumns old).map fun c ↦ (c.1, c.2.map (f c.1)))
    (hf : ∀ p ∈ present (identityColumns old), f p.1 p.2 ≠ p.2) : Forgets old new := by
  rw [Forgets, hnew, List.forall₂_map_right_iff, List.forall₂_same]
  intro c hc v hv hne
  obtain ⟨kind, value⟩ := c
  cases hv
  intro heq
  exact hf (kind, v) (mem_present.2 ⟨hc, hne⟩) (Option.some.inj heq)

end Replacement

section Updates

variable {table rows : List CustomerUser}

/-- The table with the row in the place of the one with its id. -/
def withUser (table : List CustomerUser) (row : CustomerUser) : List CustomerUser :=
  table.map fun old ↦ if old.id = row.id then row else old

theorem mem_withUser {row cu : CustomerUser} (h : cu ∈ withUser table row) :
    cu ∈ table ∨ cu = row := by
  obtain ⟨old, hold, rfl⟩ := List.mem_map.1 h
  split
  · exact .inr rfl
  · exact .inl hold

/-- Updates are accepted when no two rows with different ids have the same login. -/
theorem setUsers_eq (h : ∀ x ∈ rows, ∀ y, y ∈ table ∨ y ∈ rows → y.id ≠ x.id →
    server.same y.login x.login = false) :
    setUsers server table rows = some (rows.foldl withUser table) := by
  rw [setUsers]
  induction rows generalizing table with
  | nil => rfl
  | cons row rows ih =>
    obtain ⟨hrow, hrows⟩ := List.forall_mem_cons.1 h
    have haccept : ¬ (table.any fun other ↦
        other.id ≠ row.id && server.same other.login row.login) = true := by
      rw [List.any_eq_true]
      rintro ⟨other, hother, hand⟩
      rw [Bool.and_eq_true, decide_eq_true_eq] at hand
      rw [hrow other (.inl hother) hand.1] at hand
      exact Bool.false_ne_true hand.2
    have hset : setUser server table row = some (withUser table row) := by
      rw [setUser, if_neg haccept]
      rfl
    rw [List.foldlM_cons, hset, List.foldl_cons]
    refine ih fun x hx y hy hne ↦ hrows x hx y ?_ hne
    rcases hy with hy | hy
    · rcases mem_withUser hy with hy | rfl
      · exact .inl hy
      · exact .inr List.mem_cons_self
    · exact .inr (List.mem_cons_of_mem _ hy)

theorem foldl_withUser (rows table : List CustomerUser) : rows.foldl withUser table =
    table.map fun cu ↦ rows.foldl (fun cu row ↦ if cu.id = row.id then row else cu) cu := by
  induction rows generalizing table with
  | nil => exact (List.map_id table).symm
  | cons row rows ih =>
    rw [List.foldl_cons, ih, withUser, List.map_map]
    rfl

theorem foldl_user_other {cu : CustomerUser} (h : ∀ row ∈ rows, row.id ≠ cu.id) :
    rows.foldl (fun cu row ↦ if cu.id = row.id then row else cu) cu = cu := by
  induction rows with
  | nil => rfl
  | cons row rows ih =>
    obtain ⟨hrow, hrows⟩ := List.forall_mem_cons.1 h
    rw [List.foldl_cons, if_neg (Ne.symm hrow), ih hrows]

theorem foldl_user_own {cu new : CustomerUser} (h : ∀ row ∈ rows, row.id = new.id → row = new)
    (hid : cu.id = new.id) (hnew : new ∈ rows ∨ cu = new) :
    rows.foldl (fun cu row ↦ if cu.id = row.id then row else cu) cu = new := by
  induction rows generalizing cu with
  | nil => exact hnew.resolve_left List.not_mem_nil
  | cons row rows ih =>
    obtain ⟨hrow, hrows⟩ := List.forall_mem_cons.1 h
    rw [List.foldl_cons]
    by_cases heq : cu.id = row.id
    · have hown : row = new := hrow (heq.symm.trans hid)
      rw [if_pos heq, hown]
      exact ih hrows rfl (.inr rfl)
    · rw [if_neg heq]
      refine ih hrows hid (hnew.imp_left fun hmem ↦ ?_)
      rcases List.mem_cons.1 hmem with rfl | hmem
      · exact absurd hid heq
      · exact hmem

variable {g : CustomerUser → CustomerUser}

/-- The rows that are updated are those that were selected. -/
theorem foldl_withUser_filter {p : CustomerUser → Bool} (hid : ∀ cu, (g cu).id = cu.id)
    (hnodup : (table.map CustomerUser.id).Nodup) :
    ((table.filter p).map g).foldl withUser table =
      table.map fun cu ↦ if p cu then g cu else cu := by
  rw [foldl_withUser]
  refine List.map_congr_left fun cu hcu ↦ ?_
  have hinj : ∀ old ∈ table.filter p, old.id = cu.id → old = cu := fun old hold heq ↦
    List.inj_on_of_nodup_map hnodup (List.mem_of_mem_filter hold) hcu heq
  by_cases hp : p cu
  · rw [if_pos hp]
    refine foldl_user_own (fun row hrow heq ↦ ?_) (hid cu).symm (.inl ?_)
    · obtain ⟨old, hold, rfl⟩ := List.mem_map.1 hrow
      rw [hid, hid] at heq
      rw [hinj old hold heq]
    · exact List.mem_map_of_mem (List.mem_filter.2 ⟨hcu, hp⟩)
  · rw [if_neg hp]
    refine foldl_user_other fun row hrow heq ↦ ?_
    obtain ⟨old, hold, rfl⟩ := List.mem_map.1 hrow
    rw [hid] at heq
    rw [hinj old hold heq] at hold
    exact hp (List.mem_filter.1 hold).2

end Updates

end Tiqora.Gdpr.Anonymize
