import Tiqora.Permissions.Engine

namespace Tiqora.Permissions

open Foundation

variable {db : Database} {userId groupId : ℕ} {key : String}

/-- A row of the user or of a valid role of theirs gives the key on the group. -/
def Granted (db : Database) (userId groupId : ℕ) (key : String) : Prop :=
  (∃ gu ∈ db.groupUser, gu.userId = userId ∧ gu.groupId = groupId ∧ gu.permissionKey = key) ∨
    ∃ ru ∈ db.roleUser, ru.userId = userId ∧ (∃ r ∈ db.roles, r.id = ru.roleId ∧ r.validId = 1) ∧
      ∃ gr ∈ db.groupRole, gr.roleId = ru.roleId ∧ gr.groupId = groupId ∧ gr.permissionKey = key ∧
        gr.permissionValue = 1

/-- The access rule: a valid user holds a key on a valid group that is granted, or whose `rw` is. -/
def Holds (db : Database) (userId groupId : ℕ) (key : String) : Prop :=
  userIsValid db userId = true ∧ groupId ∈ validGroupIds db ∧
    (Granted db userId groupId key ∨ Granted db userId groupId "rw")

theorem roles_any_iff {id : ℕ} : (db.roles.any fun r ↦ r.id = id && r.validId = 1) = true ↔
    ∃ r ∈ db.roles, r.id = id ∧ r.validId = 1 := by
  simp only [List.any_eq_true, Bool.and_eq_true, decide_eq_true_eq]

theorem mem_validRoleIds {roleId : ℕ} : roleId ∈ validRoleIds db userId ↔
    ∃ ru ∈ db.roleUser, ru.userId = userId ∧ ru.roleId = roleId ∧
      ∃ r ∈ db.roles, r.id = roleId ∧ r.validId = 1 := by
  simp only [validRoleIds, List.mem_map, List.mem_filter, Bool.and_eq_true, decide_eq_true_eq,
    roles_any_iff]
  constructor
  · rintro ⟨ru, ⟨hru, huser, hrole⟩, rfl⟩
    exact ⟨ru, hru, huser, rfl, hrole⟩
  · rintro ⟨ru, hru, huser, rfl, hrole⟩
    exact ⟨ru, ⟨hru, huser, hrole⟩, rfl⟩

theorem mem_permissionPairs : (groupId, key) ∈ permissionPairs db userId ↔
    groupId ∈ validGroupIds db ∧ key ∈ permissionKeys ∧ Granted db userId groupId key := by
  simp only [permissionPairs, List.mem_append, List.mem_filterMap, List.mem_filter, Granted,
    Bool.and_eq_true, decide_eq_true_eq, List.contains_iff_mem, mem_validRoleIds]
  constructor
  · rintro (⟨gu, ⟨hgu, huser⟩, hsome⟩ | ⟨gr, ⟨hgr, ⟨ru, hru, huser, hrole, hvalid⟩, hvalue⟩, hsome⟩)
    · split at hsome
      · next hcond =>
        cases hsome
        exact ⟨hcond.1, hcond.2, .inl ⟨gu, hgu, huser, rfl, rfl⟩⟩
      · cases hsome
    · split at hsome
      · next hcond =>
        cases hsome
        exact ⟨hcond.1, hcond.2,
          .inr ⟨ru, hru, huser, hrole ▸ hvalid, gr, hgr, hrole.symm, rfl, rfl, hvalue⟩⟩
      · cases hsome
  · rintro ⟨hgroup, hkey, ⟨gu, hgu, huser, rfl, rfl⟩ |
      ⟨ru, hru, huser, hvalid, gr, hgr, hrole, rfl, rfl, hvalue⟩⟩
    · exact .inl ⟨gu, ⟨hgu, huser⟩, if_pos ⟨hgroup, hkey⟩⟩
    · exact .inr ⟨gr, ⟨hgr, ⟨ru, hru, huser, hrole.symm, hrole ▸ hvalid⟩, hvalue⟩,
        if_pos ⟨hgroup, hkey⟩⟩

theorem isSome_lookup_validGroups :
    ((validGroups db).lookup groupId).isSome = true ↔ groupId ∈ validGroupIds db := by
  rw [List.lookup_isSome_iff]
  simp only [validGroups, validGroupIds, List.mem_map]
  constructor
  · rintro ⟨_, ⟨g, hg, rfl⟩, hid⟩
    exact ⟨g, hg, (beq_iff_eq.1 hid).symm⟩
  · rintro ⟨g, hg, rfl⟩
    exact ⟨_, ⟨g, hg, rfl⟩, beq_self_eq_true _⟩

theorem userCheckPairs_eq : userCheckPairs db userId = permissionPairs db userId := by
  have hlookup : ∀ id, ((validGroups db).lookup id).isSome = (validGroupIds db).contains id := by
    intro id
    rw [Bool.eq_iff_iff, isSome_lookup_validGroups, List.contains_iff_mem]
  simp only [userCheckPairs, permissionPairs, validRoleIds, hlookup]

theorem rw_mem_permissionKeys : "rw" ∈ permissionKeys := by decide

/-- The keys of a valid group that the dictionary holds for a user. -/
theorem holds_of_get (hkey : key ∈ permissionKeys) :
    ("rw" ∈ (KeySets.ofPairs (permissionPairs db userId)).get groupId ∨
        key ∈ (KeySets.ofPairs (permissionPairs db userId)).get groupId) ↔
      groupId ∈ validGroupIds db ∧
        (Granted db userId groupId key ∨ Granted db userId groupId "rw") := by
  simp only [KeySets.mem_get_ofPairs, mem_permissionPairs, hkey, rw_mem_permissionKeys, true_and]
  rw [← and_or_left, or_comm]

theorem mem_groupsForPermission (hkey : key ∈ permissionKeys) :
    groupId ∈ groupsForPermission db userId key ↔ Holds db userId groupId key := by
  rw [groupsForPermission, if_pos (List.contains_iff_mem.2 hkey), queuePermissions, Holds]
  cases hvalid : userIsValid db userId with
  | false =>
    rw [if_neg Bool.false_ne_true]
    constructor
    · exact fun h ↦ absurd h List.not_mem_nil
    · exact fun h ↦ absurd h.1 Bool.false_ne_true
  | true =>
    rw [if_pos rfl, ← holds_of_get hkey, ← KeySets.exists_entry_iff (p := fun values ↦
      "rw" ∈ values ∨ key ∈ values) fun h ↦ h.elim List.not_mem_nil List.not_mem_nil]
    simp only [List.mem_map, List.mem_filter, Bool.or_eq_true, List.contains_iff_mem, true_and]
    constructor
    · rintro ⟨⟨_, values⟩, ⟨hmem, hkeys⟩, rfl⟩
      exact ⟨values, hmem, hkeys⟩
    · rintro ⟨values, hmem, hkeys⟩
      exact ⟨(groupId, values), ⟨hmem, hkeys⟩, rfl⟩

theorem mem_usersForGroupPermission :
    userId ∈ usersForGroupPermission db groupId key ↔ Holds db userId groupId key := by
  rw [usersForGroupPermission, Holds]
  split
  · next hgroup =>
    rw [List.contains_iff_mem] at hgroup
    simp only [List.mem_dedup, List.mem_append, List.mem_map, List.mem_filter, Bool.and_eq_true,
      decide_eq_true_eq, List.contains_iff_mem, List.mem_cons, List.not_mem_nil, or_false, hgroup,
      true_and, List.any_eq_true, Granted]
    constructor
    · rintro (⟨gu, ⟨hgu, ⟨hid, hk⟩, hvalid⟩, rfl⟩ |
        ⟨ru, ⟨hru, ⟨hrole, gr, hgr, ⟨⟨hgrole, hid⟩, hk⟩, hvalue⟩, hvalid⟩, rfl⟩)
      · refine ⟨hvalid, ?_⟩
        rcases hk with hk | hk
        · exact .inl (.inl ⟨gu, hgu, rfl, hid, hk⟩)
        · exact .inr (.inl ⟨gu, hgu, rfl, hid, hk⟩)
      · refine ⟨hvalid, ?_⟩
        rcases hk with hk | hk
        · exact .inl (.inr ⟨ru, hru, rfl, hrole, gr, hgr, hgrole, hid, hk, hvalue⟩)
        · exact .inr (.inr ⟨ru, hru, rfl, hrole, gr, hgr, hgrole, hid, hk, hvalue⟩)
    · rintro ⟨hvalid, (⟨gu, hgu, rfl, hid, hk⟩ | ⟨ru, hru, rfl, hrole, gr, hgr, hgrole, hid, hk, hvalue⟩) |
        ⟨gu, hgu, rfl, hid, hk⟩ | ⟨ru, hru, rfl, hrole, gr, hgr, hgrole, hid, hk, hvalue⟩⟩
      · exact .inl ⟨gu, ⟨hgu, ⟨hid, .inl hk⟩, hvalid⟩, rfl⟩
      · exact .inr ⟨ru, ⟨hru, ⟨hrole, gr, hgr, ⟨⟨hgrole, hid⟩, .inl hk⟩, hvalue⟩, hvalid⟩, rfl⟩
      · exact .inl ⟨gu, ⟨hgu, ⟨hid, .inr hk⟩, hvalid⟩, rfl⟩
      · exact .inr ⟨ru, ⟨hru, ⟨hrole, gr, hgr, ⟨⟨hgrole, hid⟩, .inr hk⟩, hvalue⟩, hvalid⟩, rfl⟩
  · next hgroup =>
    rw [List.contains_iff_mem] at hgroup
    exact ⟨fun h ↦ absurd h List.not_mem_nil, fun h ↦ absurd h.2.1 hgroup⟩

theorem check_iff (hkey : key ∈ permissionKeys) {q : Queue} (hq : q ∈ db.queues) :
    check db userId q.id key = true ↔ Holds db userId q.groupId key := by
  have hfind : db.queues.find? (fun q' ↦ q'.id = q.id) = some q := by
    cases hf : db.queues.find? fun q' ↦ q'.id = q.id with
    | none =>
      have := List.find?_eq_none.1 hf q hq
      exact absurd (decide_eq_true rfl) this
    | some q' =>
      have hid := List.find?_some hf
      rw [decide_eq_true_eq] at hid
      rw [List.inj_on_of_nodup_map db.queues_unique (List.mem_of_find?_eq_some hf) hq hid]
  rw [check, hfind, Holds, Bool.and_eq_true, List.contains_iff_mem, queuePermissions]
  cases hvalid : userIsValid db userId with
  | false =>
    rw [if_neg Bool.false_ne_true]
    constructor
    · exact fun h ↦ absurd h.2 Bool.false_ne_true
    · exact fun h ↦ absurd h.1 Bool.false_ne_true
  | true =>
    rw [if_pos rfl, ← holds_of_get hkey]
    simp only [hkey, true_and, Bool.and_eq_true, Bool.or_eq_true, List.contains_iff_mem,
      Bool.not_eq_true', List.isEmpty_eq_false_iff]
    exact ⟨fun h ↦ h.2, fun h ↦ ⟨fun hnil ↦ by
      rw [hnil] at h
      exact h.elim List.not_mem_nil List.not_mem_nil, h⟩⟩

theorem group_loadUserChecks (hkey : key ∈ permissionKeys) {user : User}
    (hfind : (db.users.find? fun u ↦ u.id = userId) = some user) :
    (loadUserChecks db userId).group key =
      sortNames ((KeySets.ofPairs (userCheckPairs db userId)).filterMap fun entry ↦
        if entry.2.contains key || entry.2.contains "rw" then
          (validGroups db).lookup entry.1 else none) := by
  rw [loadUserChecks, hfind, UserChecks.group]
  simp only [permissionKeys, List.mem_cons, List.not_mem_nil, or_false] at hkey
  rcases hkey with rfl | rfl | rfl | rfl | rfl | rfl | rfl <;> rfl

theorem lookup_validGroups {id : ℕ} {name : String} (h : (validGroups db).lookup id = some name) :
    ∃ g ∈ db.groups, g.validId = 1 ∧ g.id = id ∧ g.name = name := by
  obtain ⟨before, after, heq, _⟩ := List.lookup_eq_some_iff.1 h
  have hmem : (id, name) ∈ validGroups db := heq ▸ List.mem_append_right _ List.mem_cons_self
  obtain ⟨g, hg, hpair⟩ := List.mem_map.1 hmem
  cases hpair
  rw [List.mem_filter, decide_eq_true_eq] at hg
  exact ⟨g, hg.1, hg.2, rfl, rfl⟩

theorem mem_loadUserChecks (hnames : (db.groups.map (·.name)).Nodup)
    (hvalid : userIsValid db userId = true) {g : Group} (hg : g ∈ db.groups)
    (hkey : key ∈ permissionKeys) :
    g.name ∈ (loadUserChecks db userId).group key ↔ Holds db userId g.id key := by
  obtain ⟨user, hfind⟩ : ∃ user, (db.users.find? fun u ↦ u.id = userId) = some user := by
    obtain ⟨u, hu, hid⟩ := List.any_eq_true.1 hvalid
    rw [Bool.and_eq_true] at hid
    exact Option.isSome_iff_exists.1 (List.find?_isSome.2 ⟨u, hu, hid.1⟩)
  rw [group_loadUserChecks hkey hfind, sortNames, List.mem_mergeSort, List.mem_filterMap,
    userCheckPairs_eq, Holds, ← holds_of_get hkey, ← KeySets.exists_entry_iff (p := fun values ↦
      "rw" ∈ values ∨ key ∈ values) fun h ↦ h.elim List.not_mem_nil List.not_mem_nil]
  constructor
  · rintro ⟨⟨id, values⟩, hmem, hsome⟩
    split at hsome
    · next hkeys =>
      obtain ⟨g', hg', _, hid, hname⟩ := lookup_validGroups hsome
      rw [List.inj_on_of_nodup_map hnames hg' hg hname] at hid
      subst hid
      rw [Bool.or_eq_true, List.contains_iff_mem, List.contains_iff_mem] at hkeys
      exact ⟨hvalid, values, hmem, hkeys.symm⟩
    · cases hsome
  · rintro ⟨_, values, hmem, hkeys⟩
    refine ⟨(g.id, values), hmem, ?_⟩
    have hgroup : g.id ∈ validGroupIds db :=
      ((holds_of_get hkey).1 ((KeySets.exists_entry_iff (p := fun values ↦
        "rw" ∈ values ∨ key ∈ values) fun h ↦ h.elim List.not_mem_nil List.not_mem_nil).1
          ⟨values, hmem, hkeys⟩)).1
    obtain ⟨name, hname⟩ := Option.isSome_iff_exists.1 (isSome_lookup_validGroups.2 hgroup)
    obtain ⟨g', hg', _, hid, hname'⟩ := lookup_validGroups hname
    rw [if_pos, hname, ← hname', List.inj_on_of_nodup_map db.groups_unique hg' hg hid]
    rw [Bool.or_eq_true, List.contains_iff_mem, List.contains_iff_mem]
    exact hkeys.symm

/-- The resolvers give the same answers, and none for an invalid user or group. -/
structure ResolversAgree (db : Database) : Prop where
  users : ∀ userId groupId key, key ∈ permissionKeys →
    (groupId ∈ groupsForPermission db userId key ↔ userId ∈ usersForGroupPermission db groupId key)
  checks : ∀ userId key, userIsValid db userId = true → key ∈ permissionKeys → ∀ g ∈ db.groups,
    (g.id ∈ groupsForPermission db userId key ↔ g.name ∈ (loadUserChecks db userId).group key)
  queues : ∀ userId key, key ∈ permissionKeys → ∀ q ∈ db.queues,
    (q.groupId ∈ groupsForPermission db userId key ↔ check db userId q.id key = true)
  invalid_user : ∀ userId, userIsValid db userId = false →
    (∀ key, groupsForPermission db userId key = []) ∧
      ∀ groupId key, userId ∉ usersForGroupPermission db groupId key
  invalid_group : ∀ groupId, groupId ∉ validGroupIds db →
    (∀ userId key, groupId ∉ groupsForPermission db userId key) ∧
      ∀ key, usersForGroupPermission db groupId key = []

theorem resolvers_agree (db : Database) (hnames : (db.groups.map (·.name)).Nodup) :
    ResolversAgree db where
  users _ _ _ hkey := (mem_groupsForPermission hkey).trans mem_usersForGroupPermission.symm
  checks _ _ hvalid hkey _ hg :=
    (mem_groupsForPermission hkey).trans (mem_loadUserChecks hnames hvalid hg hkey).symm
  queues _ _ hkey _ hq := (mem_groupsForPermission hkey).trans (check_iff hkey hq).symm
  invalid_user userId hinvalid := by
    refine ⟨fun key ↦ ?_, fun groupId key hmem ↦ ?_⟩
    · rw [groupsForPermission, queuePermissions, hinvalid, if_neg Bool.false_ne_true]
      split <;> rfl
    · have := (mem_usersForGroupPermission.1 hmem).1
      rw [hinvalid] at this
      cases this
  invalid_group groupId hinvalid := by
    refine ⟨fun userId key hmem ↦ ?_, fun key ↦ ?_⟩
    · by_cases hkey : key ∈ permissionKeys
      · exact hinvalid ((mem_groupsForPermission hkey).1 hmem).2.1
      · rw [groupsForPermission, if_neg fun h ↦ hkey (List.contains_iff_mem.1 h)] at hmem
        cases hmem
    · rw [usersForGroupPermission, if_neg fun h ↦ hinvalid (List.contains_iff_mem.1 h)]

/-- A valid user with a role that has `rw` on the first of two valid groups; the second has no
queue. -/
def sampleDatabase : Database where
  users := [⟨1, "root", "Admin", "Admin", 1⟩, ⟨2, "old", "Old", "Agent", 2⟩]
  groups := [⟨1, "users", 1⟩, ⟨2, "empty", 1⟩]
  roles := [⟨5, "agents", 1⟩]
  groupUser := []
  groupRole := [⟨5, 1, "rw", 1⟩]
  roleUser := [⟨1, 5⟩, ⟨2, 5⟩]
  queues := [⟨3, 1⟩]
  users_unique := by decide
  groups_unique := by decide
  roles_unique := by decide
  queues_unique := by decide

theorem resolvers_agree_sample : ResolversAgree sampleDatabase ∧
    groupsForPermission sampleDatabase 1 "note" = [1] ∧
    usersForGroupPermission sampleDatabase 1 "note" = [1] ∧
    check sampleDatabase 1 3 "note" = true :=
  ⟨resolvers_agree sampleDatabase (by decide), by decide, by decide, by decide⟩

/-- Every queue of a group without queues passes the check. -/
theorem group_without_queues :
    (∀ q ∈ sampleDatabase.queues, q.groupId = 2 → check sampleDatabase 1 q.id "note" = true) ∧
      2 ∉ groupsForPermission sampleDatabase 1 "note" := by
  decide

end Tiqora.Permissions
