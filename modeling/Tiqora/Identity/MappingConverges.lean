import Mathlib.Tactic.Tauto
import Tiqora.Identity.Mapping

namespace Tiqora.Identity.Mapping

section Sets

variable {α : Type} [DecidableEq α] {desired current managed : Finset α}
  {strip strip' : Option (Finset α)} {x : α}

/-- What a difference makes of the members of a kind. -/
def SetDiff.members (d : SetDiff α) (current : Finset α) : Finset α := (current \ d.remove) ∪ d.add

/-- What a difference makes of the marks of a kind. -/
def SetDiff.marks (d : SetDiff α) (managed : Finset α) : Finset α := (managed \ d.drop) ∪ d.record

theorem SetDiff.mem_members {d : SetDiff α} :
    x ∈ d.members current ↔ x ∈ current ∧ x ∉ d.remove ∨ x ∈ d.add := by
  simp only [members, Finset.mem_union, Finset.mem_sdiff]

theorem SetDiff.mem_marks {d : SetDiff α} :
    x ∈ d.marks managed ↔ x ∈ managed ∧ x ∉ d.drop ∨ x ∈ d.record := by
  simp only [marks, Finset.mem_union, Finset.mem_sdiff]

omit [DecidableEq α] in
theorem SetDiff.empty_iff {d : SetDiff α} : d.empty ↔
    ∀ x, x ∉ d.add ∧ x ∉ d.remove ∧ x ∉ d.record ∧ x ∉ d.drop := by
  simp only [empty, Finset.eq_empty_iff_forall_notMem, forall_and]

/-- Whether the authoritative mode may remove a member. -/
def Strippable (strip : Option (Finset α)) (x : α) : Prop := ∀ s, strip = some s → x ∈ s

theorem mem_stripped : x ∈ (diffSet desired current managed .authoritative strip).remove ↔
    x ∈ current ∧ x ∉ desired ∧ Strippable strip x := by
  cases strip with
  | none => simp [diffSet, Strippable]
  | some s => simp [diffSet, Strippable, and_assoc]

theorem mem_authoritative :
    x ∈ (diffSet desired current managed .authoritative strip).members current ↔
      x ∈ desired ∨ x ∈ current ∧ ¬ Strippable strip x := by
  rw [SetDiff.mem_members, mem_stripped]
  simp only [diffSet, Finset.mem_sdiff]
  tauto

theorem mem_managed :
    x ∈ (diffSet desired current managed .managed strip).members current ↔
      x ∈ desired ∨ x ∈ current ∧ x ∉ managed := by
  rw [SetDiff.mem_members]
  simp only [diffSet, Finset.mem_sdiff, Finset.mem_inter]
  tauto

/-- Every member that is left and may be removed is desired, so there is nothing more to do. -/
theorem authoritative_again
    (hstrip : ∀ x ∈ current, Strippable strip' x → Strippable strip x) :
    (diffSet desired
      ((diffSet desired current managed .authoritative strip).members current)
      ((diffSet desired current managed .authoritative strip).marks managed)
      .authoritative strip').empty := by
  refine SetDiff.empty_iff.2 fun x ↦ ?_
  have hx := hstrip x
  rw [mem_stripped]
  simp only [diffSet, Finset.mem_sdiff, SetDiff.mem_marks]
  have hmem : x ∈ (diffSet desired current managed .authoritative strip).members current ↔
      x ∈ desired ∨ x ∈ current ∧ ¬ Strippable strip x := mem_authoritative
  simp only [diffSet] at hmem
  simp only [hmem]
  tauto

theorem managed_again : (diffSet desired
    ((diffSet desired current managed .managed strip).members current)
    ((diffSet desired current managed .managed strip).marks managed) .managed strip').empty := by
  refine SetDiff.empty_iff.2 fun x ↦ ?_
  simp only [diffSet, SetDiff.members, SetDiff.marks, Finset.mem_sdiff, Finset.mem_union,
    Finset.mem_inter]
  tauto

theorem diffSet_managed (mode : SyncMode) (h : managed ⊆ current) :
    (diffSet desired current managed mode strip).marks managed ⊆
      (diffSet desired current managed mode strip).members current := by
  intro x
  have hx : x ∈ managed → x ∈ current := fun hx ↦ h hx
  cases mode with
  | managed =>
    simp only [diffSet, SetDiff.members, SetDiff.marks, Finset.mem_sdiff, Finset.mem_union,
      Finset.mem_inter]
    tauto
  | authoritative =>
    rw [SetDiff.mem_members, mem_stripped]
    simp only [diffSet, SetDiff.marks, Finset.mem_sdiff, Finset.mem_union]
    tauto

end Sets

section Rules

variable {matched : RoleRule → Bool} {rules : List RoleRule} {validRoleIds validGroupIds : Finset ℕ}

theorem mem_foldr_union {α β : Type} [DecidableEq α] {f : β → Finset α} {l : List β} {x : α} :
    x ∈ l.foldr (fun b s ↦ f b ∪ s) ∅ ↔ ∃ b ∈ l, x ∈ f b := by
  induction l with
  | nil => simp
  | cons b l ih => simp [ih]

theorem mem_granted {gid : ℕ} {p : String} : (gid, p) ∈ granted rules validGroupIds ↔
    gid ∈ validGroupIds ∧ ∃ rule ∈ rules, ∃ grant ∈ rule.groups,
      grant.groupId = gid ∧ p ∈ grant.permissions := by
  simp only [granted, mem_foldr_union, List.mem_filter, List.mem_flatMap, decide_eq_true_eq,
    Finset.mem_image, Prod.mk.injEq]
  constructor
  · rintro ⟨grant, ⟨⟨rule, hrule, hgrant⟩, hvalid⟩, p, hp, rfl, rfl⟩
    exact ⟨hvalid, rule, hrule, grant, hgrant, rfl, hp⟩
  · rintro ⟨hvalid, rule, hrule, grant, hgrant, rfl, hp⟩
    exact ⟨grant, ⟨⟨rule, hrule, hgrant⟩, hvalid⟩, p, hp, rfl, rfl⟩

/-- What is desired comes from a rule of its kind. -/
theorem hasRoleRules_of_desired {r : ℕ}
    (hr : r ∈ (evaluateRules matched rules validRoleIds validGroupIds).roleIds) :
    (evaluateRules matched rules validRoleIds validGroupIds).hasRoleRules := by
  obtain ⟨rule, hrule, hr⟩ := mem_foldr_union.1 hr
  refine List.any_eq_true.2 ⟨rule, List.mem_of_mem_filter hrule, decide_eq_true fun hnone ↦ ?_⟩
  exact Finset.notMem_empty r (hnone ▸ (Finset.mem_inter.1 hr).1)

theorem hasGroupRules_of_desired {x : Perm}
    (hx : x ∈ (evaluateRules matched rules validRoleIds validGroupIds).groupPerms) :
    (evaluateRules matched rules validRoleIds validGroupIds).hasGroupRules := by
  obtain ⟨_, rule, hrule, grant, hgrant, _⟩ := mem_granted.1 (Finset.mem_filter.1 hx).1
  refine List.any_eq_true.2 ⟨rule, List.mem_of_mem_filter hrule, ?_⟩
  cases hgroups : rule.groups with
  | nil => exact absurd (hgroups ▸ hgrant) List.not_mem_nil
  | cons => rfl

/-- A full right is the only desired key of its group. -/
theorem rw_collapses {gid : ℕ} {p : String}
    (hrw : (gid, "rw") ∈ (evaluateRules matched rules validRoleIds validGroupIds).groupPerms)
    (hp : (gid, p) ∈ (evaluateRules matched rules validRoleIds validGroupIds).groupPerms) :
    p = "rw" :=
  (Finset.mem_filter.1 hp).2.resolve_right fun h ↦ h (Finset.mem_filter.1 hrw).1

end Rules

section Keys

variable {desired : DesiredAssignments} {state : AssignmentState} {perms : Finset Perm}
  {gid : ℕ} {p : String}

theorem mem_keys : p ∈ keys perms gid ↔ (gid, p) ∈ perms := by
  simp [keys]

/-- The desired keys that a group has without its stale managed ones, or a full right, suffice. -/
def Satisfied (want live : Finset String) : Prop := want = ∅ ∨ "rw" ∈ live ∨ want ⊆ live

/-- The keys without the stale managed ones. -/
def live (desired : DesiredAssignments) (state : AssignmentState) (gid : ℕ) : Finset String :=
  keys state.currentGroupPerms gid \
    (keys state.managedGroupPerms gid \ keys desired.groupPerms gid)

theorem managedFinal_cases (desired : DesiredAssignments) (state : AssignmentState) (gid : ℕ) :
    Satisfied (keys desired.groupPerms gid) (live desired state gid) ∧
        managedFinal desired state gid = live desired state gid ∨
      ¬ Satisfied (keys desired.groupPerms gid) (live desired state gid) ∧
        managedFinal desired state gid = keys desired.groupPerms gid ∪
          (keys state.currentGroupPerms gid \ keys state.managedGroupPerms gid) := by
  by_cases h : Satisfied (keys desired.groupPerms gid) (live desired state gid)
  · exact .inl ⟨h, if_pos h⟩
  · exact .inr ⟨h, if_neg h⟩

theorem managedFinal_of_satisfied
    (h : Satisfied (keys desired.groupPerms gid) (live desired state gid)) :
    managedFinal desired state gid = live desired state gid := if_pos h

theorem managedFinal_of_untouched
    (hgid : gid ∉ desired.groupPerms.image Prod.fst ∪ state.managedGroupPerms.image Prod.fst) :
    managedFinal desired state gid = keys state.currentGroupPerms gid := by
  have hwant : keys desired.groupPerms gid = ∅ := by
    refine Finset.eq_empty_of_forall_notMem fun p hp ↦ hgid ?_
    exact Finset.mem_union_left _ (Finset.mem_image_of_mem Prod.fst (mem_keys.1 hp))
  have hmanaged : keys state.managedGroupPerms gid = ∅ := by
    refine Finset.eq_empty_of_forall_notMem fun p hp ↦ hgid ?_
    exact Finset.mem_union_right _ (Finset.mem_image_of_mem Prod.fst (mem_keys.1 hp))
  rw [managedFinal_of_satisfied (.inl hwant), live, hmanaged]
  simp

theorem mem_pairs {gids : Finset ℕ} {f : ℕ → Finset String} :
    (gid, p) ∈ gids.biUnion (fun gid ↦ (f gid).image fun p ↦ (gid, p)) ↔
      gid ∈ gids ∧ p ∈ f gid := by
  simp only [Finset.mem_biUnion, Finset.mem_image, Prod.mk.injEq]
  constructor
  · rintro ⟨g, hg, q, hq, rfl, rfl⟩
    exact ⟨hg, hq⟩
  · exact fun ⟨hg, hp⟩ ↦ ⟨gid, hg, p, hp, rfl, rfl⟩

theorem mem_managedGroupDiff_add : (gid, p) ∈ (managedGroupDiff desired state).add ↔
    p ∈ managedFinal desired state gid ∧ (gid, p) ∉ state.currentGroupPerms := by
  simp only [managedGroupDiff, mem_pairs, Finset.mem_sdiff, mem_keys, and_iff_right_iff_imp]
  intro ⟨hp, hcur⟩
  by_contra hgid
  exact hcur (mem_keys.1 (managedFinal_of_untouched hgid ▸ hp))

theorem mem_managedGroupDiff_remove : (gid, p) ∈ (managedGroupDiff desired state).remove ↔
    (gid, p) ∈ state.currentGroupPerms ∧ p ∉ managedFinal desired state gid := by
  simp only [managedGroupDiff, mem_pairs, Finset.mem_sdiff, mem_keys, and_iff_right_iff_imp]
  intro ⟨hcur, hp⟩
  by_contra hgid
  exact hp (managedFinal_of_untouched hgid ▸ mem_keys.2 hcur)

theorem mem_managedGroupDiff_drop {x : Perm} : x ∈ (managedGroupDiff desired state).drop ↔
    x ∈ state.managedGroupPerms ∧ x ∉ desired.groupPerms := Finset.mem_sdiff

theorem mem_live : p ∈ live desired state gid ↔ (gid, p) ∈ state.currentGroupPerms ∧
    ((gid, p) ∈ state.managedGroupPerms → (gid, p) ∈ desired.groupPerms) := by
  simp only [live, Finset.mem_sdiff, mem_keys, not_and, not_not]

/-- Whatever a group ends with, it keeps what is not managed and loses what is stale. -/
theorem mem_managedFinal (hp : p ∈ managedFinal desired state gid) :
    (gid, p) ∈ desired.groupPerms ∨
      (gid, p) ∈ state.currentGroupPerms ∧ (gid, p) ∉ state.managedGroupPerms := by
  obtain ⟨_, hfinal⟩ | ⟨_, hfinal⟩ := managedFinal_cases desired state gid
  · rw [hfinal, mem_live] at hp
    tauto
  · rw [hfinal, Finset.mem_union, Finset.mem_sdiff, mem_keys, mem_keys, mem_keys] at hp
    exact hp

theorem managedFinal_of_unmanaged (hp : (gid, p) ∈ state.currentGroupPerms)
    (hm : (gid, p) ∈ state.managedGroupPerms → (gid, p) ∈ desired.groupPerms) :
    p ∈ managedFinal desired state gid := by
  obtain ⟨_, hfinal⟩ | ⟨_, hfinal⟩ := managedFinal_cases desired state gid
  · exact hfinal ▸ mem_live.2 ⟨hp, hm⟩
  · rw [hfinal, Finset.mem_union, Finset.mem_sdiff, mem_keys, mem_keys, mem_keys]
    tauto

theorem covered_of_desired (hp : (gid, p) ∈ desired.groupPerms) :
    p ∈ managedFinal desired state gid ∨ "rw" ∈ managedFinal desired state gid := by
  obtain ⟨hsat, hfinal⟩ | ⟨_, hfinal⟩ := managedFinal_cases desired state gid
  · obtain hnone | hrw | hall := hsat
    · exact absurd (mem_keys.2 hp) (Finset.eq_empty_iff_forall_notMem.1 hnone p)
    · exact .inr (hfinal ▸ hrw)
    · exact .inl (hfinal ▸ hall (mem_keys.2 hp))
  · exact .inl (hfinal ▸ Finset.mem_union_left _ (mem_keys.2 hp))

end Keys

section Groups

variable {desired : DesiredAssignments} {state : AssignmentState} {mode : SyncMode}
  {validRoleIds validGroupIds : Option (Finset ℕ)}

theorem absorbed {d : SetDiff Perm} {managed : Finset Perm} (h : d.remove ∩ managed ⊆ d.drop) :
    { d with drop := d.drop ∪ (d.remove ∩ managed) } = d := by
  rw [Finset.union_eq_left.2 h]

/-- A key that is removed is managed and not desired: its mark is dropped anyway. -/
theorem groupDiff_managed :
    groupDiff desired state .managed validGroupIds = managedGroupDiff desired state := by
  have hdrop : (managedGroupDiff desired state).remove ∩ state.managedGroupPerms ⊆
      (managedGroupDiff desired state).drop := by
    rintro ⟨gid, p⟩ hx
    obtain ⟨hrem, hm⟩ := Finset.mem_inter.1 hx
    obtain ⟨hcur, hfinal⟩ := mem_managedGroupDiff_remove.1 hrem
    exact Finset.mem_sdiff.2 ⟨hm, fun hd ↦ hfinal (managedFinal_of_unmanaged hcur fun _ ↦ hd)⟩
  rw [groupDiff]
  exact absorbed hdrop

/-- The current keys of the valid groups. -/
def strippable (perms : Finset Perm) (validGroupIds : Option (Finset ℕ)) : Option (Finset Perm) :=
  validGroupIds.map fun valid ↦ perms.filter fun x ↦ x.1 ∈ valid

theorem strippable_iff {perms : Finset Perm} {x : Perm} (hx : x ∈ perms) :
    Strippable (strippable perms validGroupIds) x ↔ Strippable validGroupIds x.1 := by
  cases validGroupIds with
  | none => simp [Strippable, strippable]
  | some valid => simp [Strippable, strippable, hx]

theorem groupDiff_authoritative : groupDiff desired state .authoritative validGroupIds =
    diffSet desired.groupPerms state.currentGroupPerms state.managedGroupPerms .authoritative
      (strippable state.currentGroupPerms validGroupIds) := by
  have hdrop : (diffSet desired.groupPerms state.currentGroupPerms state.managedGroupPerms
      .authoritative (strippable state.currentGroupPerms validGroupIds)).remove ∩
        state.managedGroupPerms ⊆ state.managedGroupPerms \ desired.groupPerms := by
    intro x hx
    obtain ⟨hrem, hm⟩ := Finset.mem_inter.1 hx
    exact Finset.mem_sdiff.2 ⟨hm, (mem_stripped.1 hrem).2.1⟩
  rw [groupDiff]
  exact absorbed hdrop

theorem mem_final_managed {gid : ℕ} {p : String} : (gid, p) ∈ (managedGroupDiff desired
    state).members state.currentGroupPerms ↔ p ∈ managedFinal desired state gid := by
  rw [SetDiff.mem_members, mem_managedGroupDiff_add, mem_managedGroupDiff_remove]
  tauto

/-- The state after a difference of the group keys. -/
def withGroups (state : AssignmentState) (d : SetDiff Perm) : AssignmentState :=
  { state with
    currentGroupPerms := d.members state.currentGroupPerms
    managedGroupPerms := d.marks state.managedGroupPerms }

/-- After a managed run no mark is stale, so that the same keys are wanted and found again. -/
theorem managedFinal_again (gid : ℕ) :
    managedFinal desired (withGroups state (managedGroupDiff desired state)) gid =
      managedFinal desired state gid := by
  have hcur : keys (withGroups state (managedGroupDiff desired state)).currentGroupPerms gid =
      managedFinal desired state gid :=
    Finset.ext fun p ↦ mem_keys.trans mem_final_managed
  have hlive : live desired (withGroups state (managedGroupDiff desired state)) gid =
      managedFinal desired state gid := by
    ext p
    rw [mem_live, ← mem_keys, hcur, and_iff_left_iff_imp]
    intro hp hm
    obtain ⟨hm, hdrop⟩ | hadd := SetDiff.mem_marks.1 hm
    · by_contra hd
      exact hdrop (mem_managedGroupDiff_drop.2 ⟨hm, hd⟩)
    · obtain ⟨_, hnew⟩ := mem_managedGroupDiff_add.1 hadd
      exact (mem_managedFinal hp).resolve_right fun h ↦ hnew h.1
  obtain ⟨_, hfinal⟩ | ⟨hunsat, _⟩ := managedFinal_cases desired
    (withGroups state (managedGroupDiff desired state)) gid
  · rw [hfinal, hlive]
  · rw [hlive] at hunsat
    obtain ⟨hsat, hfinal⟩ | ⟨_, hfinal⟩ := managedFinal_cases desired state gid
    · exact absurd (hfinal ▸ hsat) hunsat
    · exact absurd (.inr (.inr (hfinal ▸ Finset.subset_union_left))) hunsat

theorem managedGroupDiff_again :
    (managedGroupDiff desired (withGroups state (managedGroupDiff desired state))).empty := by
  refine SetDiff.empty_iff.2 fun x ↦ ?_
  obtain ⟨gid, p⟩ := x
  have hadd : (gid, p) ∉
      (managedGroupDiff desired (withGroups state (managedGroupDiff desired state))).add := by
    intro h
    obtain ⟨hp, hcur⟩ := mem_managedGroupDiff_add.1 h
    rw [managedFinal_again] at hp
    exact hcur (mem_final_managed.2 hp)
  have hremove : (gid, p) ∉
      (managedGroupDiff desired (withGroups state (managedGroupDiff desired state))).remove := by
    intro h
    obtain ⟨hcur, hp⟩ := mem_managedGroupDiff_remove.1 h
    rw [managedFinal_again] at hp
    exact hp (mem_final_managed.1 hcur)
  refine ⟨hadd, hremove, hadd, fun h ↦ ?_⟩
  obtain ⟨hm, hd⟩ := mem_managedGroupDiff_drop.1 h
  obtain ⟨hm, hdrop⟩ | hnew := SetDiff.mem_marks.1 hm
  · exact hdrop (mem_managedGroupDiff_drop.2 ⟨hm, hd⟩)
  · obtain ⟨hp, hcur⟩ := mem_managedGroupDiff_add.1 hnew
    obtain hwant | hcur' := mem_managedFinal hp
    · exact hd hwant
    · exact hcur hcur'.1

theorem groupDiff_again : (groupDiff desired
    (withGroups state (groupDiff desired state mode validGroupIds)) mode validGroupIds).empty := by
  cases mode with
  | managed =>
    rw [groupDiff_managed, groupDiff_managed]
    exact managedGroupDiff_again
  | authoritative =>
    rw [groupDiff_authoritative, groupDiff_authoritative]
    refine authoritative_again fun x hx hstrip ↦ ?_
    rw [strippable_iff hx]
    by_cases hmem : x ∈ (withGroups state (diffSet desired.groupPerms state.currentGroupPerms
      state.managedGroupPerms .authoritative
        (strippable state.currentGroupPerms validGroupIds))).currentGroupPerms
    · exact (strippable_iff hmem).1 hstrip
    · by_contra hnot
      exact hmem (mem_authoritative.2 (.inr ⟨hx, fun h ↦ hnot ((strippable_iff hx).1 h)⟩))

theorem groupDiff_managed_subset (h : state.managedGroupPerms ⊆ state.currentGroupPerms) :
    (groupDiff desired state mode validGroupIds).marks state.managedGroupPerms ⊆
      (groupDiff desired state mode validGroupIds).members state.currentGroupPerms := by
  cases mode with
  | authoritative =>
    rw [groupDiff_authoritative]
    exact diffSet_managed .authoritative h
  | managed =>
    rw [groupDiff_managed]
    rintro ⟨gid, p⟩ hx
    rw [mem_final_managed]
    obtain ⟨hm, hdrop⟩ | hadd := SetDiff.mem_marks.1 hx
    · refine managedFinal_of_unmanaged (h hm) fun _ ↦ ?_
      by_contra hd
      exact hdrop (mem_managedGroupDiff_drop.2 ⟨hm, hd⟩)
    · exact (mem_managedGroupDiff_add.1 hadd).1

/-- Replacing the keys of the groups that change is the same as adding and removing them. -/
theorem replaced_eq_members (d : SetDiff Perm) (touched : Finset ℕ) (perms : Finset Perm)
    (htouched : touched = (d.add ∪ d.remove).image Prod.fst) :
    perms.filter (fun x ↦ x.1 ∉ touched) ∪ touched.biUnion (fun gid ↦
      ((keys perms gid \ keys d.remove gid) ∪ keys d.add gid).image fun p ↦ (gid, p)) =
        d.members perms := by
  ext ⟨gid, p⟩
  have hadd : (gid, p) ∈ d.add → gid ∈ touched := fun h ↦
    htouched ▸ Finset.mem_image_of_mem Prod.fst (Finset.mem_union_left _ h)
  have hremove : (gid, p) ∈ d.remove → gid ∈ touched := fun h ↦
    htouched ▸ Finset.mem_image_of_mem Prod.fst (Finset.mem_union_right _ h)
  rw [Finset.mem_union, mem_pairs, SetDiff.mem_members]
  simp only [Finset.mem_filter, Finset.mem_union, Finset.mem_sdiff, mem_keys]
  tauto

end Groups

/-- What a run of the rules leaves behind. -/
structure Synced (desired : DesiredAssignments) (state after : AssignmentState) (mode : SyncMode)
    (validRoleIds validGroupIds : Option (Finset ℕ)) : Prop where
  again : (diffAssignments desired after mode validRoleIds validGroupIds).empty
  roles_marked : after.managedRoles ⊆ after.currentRoles
  groups_marked : after.managedGroupPerms ⊆ after.currentGroupPerms
  roles_manual : mode = .managed →
    ∀ r ∈ state.currentRoles, r ∉ state.managedRoles → r ∈ after.currentRoles
  groups_manual : mode = .managed →
    ∀ x ∈ state.currentGroupPerms, x ∉ state.managedGroupPerms → x ∈ after.currentGroupPerms
  roles_present : desired.hasRoleRules → desired.roleIds ⊆ after.currentRoles
  groups_present : desired.hasGroupRules → ∀ x ∈ desired.groupPerms,
    x ∈ after.currentGroupPerms ∨ mode = .managed ∧ (x.1, "rw") ∈ after.currentGroupPerms
  roles_stale : mode = .managed → desired.hasRoleRules →
    ∀ r ∈ state.managedRoles, r ∉ desired.roleIds → r ∉ after.currentRoles
  groups_stale : mode = .managed → desired.hasGroupRules →
    ∀ x ∈ state.managedGroupPerms, x ∉ desired.groupPerms → x ∉ after.currentGroupPerms
  roles_exact : mode = .authoritative → desired.hasRoleRules →
    ∀ r, Strippable validRoleIds r → (r ∈ after.currentRoles ↔ r ∈ desired.roleIds)
  groups_exact : mode = .authoritative → desired.hasGroupRules →
    ∀ x : Perm, Strippable validGroupIds x.1 →
      (x ∈ after.currentGroupPerms ↔ x ∈ desired.groupPerms)
  roles_left : ¬ desired.hasRoleRules →
    after.currentRoles = state.currentRoles ∧ after.managedRoles = state.managedRoles
  groups_left : ¬ desired.hasGroupRules →
    after.currentGroupPerms = state.currentGroupPerms ∧
      after.managedGroupPerms = state.managedGroupPerms

def synced (desired : DesiredAssignments) (state : AssignmentState) (mode : SyncMode)
    (validRoleIds validGroupIds : Option (Finset ℕ)) : AssignmentState :=
  applyAssignments (diffAssignments desired state mode validRoleIds validGroupIds) state

section Runs

variable {desired : DesiredAssignments} {state : AssignmentState} {mode : SyncMode}
  {validRoleIds validGroupIds : Option (Finset ℕ)}

theorem synced_groups : (synced desired state mode validRoleIds validGroupIds).currentGroupPerms =
    (diffAssignments desired state mode validRoleIds validGroupIds).groups.members
      state.currentGroupPerms :=
  replaced_eq_members _ _ _ rfl

theorem SetDiff.members_none {α : Type} [DecidableEq α] (current : Finset α) :
    SetDiff.none.members current = current := by
  simp [SetDiff.none, SetDiff.members]

theorem SetDiff.marks_none {α : Type} [DecidableEq α] (managed : Finset α) :
    SetDiff.none.marks managed = managed := by
  simp [SetDiff.none, SetDiff.marks]

theorem roles_of_rules (h : desired.hasRoleRules = true) :
    (diffAssignments desired state mode validRoleIds validGroupIds).roles =
      diffSet desired.roleIds state.currentRoles state.managedRoles mode validRoleIds := by
  simp only [diffAssignments, if_pos h]

theorem roles_of_none (h : ¬ desired.hasRoleRules = true) :
    (diffAssignments desired state mode validRoleIds validGroupIds).roles = .none := by
  simp only [diffAssignments, if_neg h]

theorem groups_of_rules (h : desired.hasGroupRules = true) :
    (diffAssignments desired state mode validRoleIds validGroupIds).groups =
      groupDiff desired state mode validGroupIds := by
  simp only [diffAssignments, if_pos h]

theorem groups_of_none (h : ¬ desired.hasGroupRules = true) :
    (diffAssignments desired state mode validRoleIds validGroupIds).groups = .none := by
  simp only [diffAssignments, if_neg h]

theorem synced_roles : (synced desired state mode validRoleIds validGroupIds).currentRoles =
    (diffAssignments desired state mode validRoleIds validGroupIds).roles.members
      state.currentRoles := rfl

theorem synced_managedRoles :
    (synced desired state mode validRoleIds validGroupIds).managedRoles =
      (diffAssignments desired state mode validRoleIds validGroupIds).roles.marks
        state.managedRoles := rfl

theorem synced_managedGroups :
    (synced desired state mode validRoleIds validGroupIds).managedGroupPerms =
      (diffAssignments desired state mode validRoleIds validGroupIds).groups.marks
        state.managedGroupPerms := rfl

theorem roles_again : (diffAssignments desired
    (synced desired state mode validRoleIds validGroupIds) mode validRoleIds
      validGroupIds).roles.empty := by
  by_cases h : desired.hasRoleRules = true
  · rw [roles_of_rules h, synced_roles, synced_managedRoles, roles_of_rules h]
    cases mode with
    | managed => exact managed_again
    | authoritative => exact authoritative_again fun _ _ hstrip ↦ hstrip
  · rw [roles_of_none h]
    exact ⟨rfl, rfl, rfl, rfl⟩

/-- The difference of the keys reads nothing but the keys and their marks. -/
theorem groupDiff_congr {state' : AssignmentState}
    (hcurrent : state'.currentGroupPerms = state.currentGroupPerms)
    (hmanaged : state'.managedGroupPerms = state.managedGroupPerms) :
    groupDiff desired state' mode validGroupIds = groupDiff desired state mode validGroupIds := by
  cases mode with
  | managed =>
    simp only [groupDiff, managedGroupDiff, managedFinal, hcurrent, hmanaged]
  | authoritative => simp only [groupDiff, hcurrent, hmanaged]

theorem groups_again : (diffAssignments desired
    (synced desired state mode validRoleIds validGroupIds) mode validRoleIds
      validGroupIds).groups.empty := by
  by_cases h : desired.hasGroupRules = true
  · have hcurrent :
        (synced desired state mode validRoleIds validGroupIds).currentGroupPerms =
          (groupDiff desired state mode validGroupIds).members state.currentGroupPerms := by
      rw [synced_groups, groups_of_rules h]
    have hmanaged :
        (synced desired state mode validRoleIds validGroupIds).managedGroupPerms =
          (groupDiff desired state mode validGroupIds).marks state.managedGroupPerms := by
      rw [synced_managedGroups, groups_of_rules h]
    have hcongr : groupDiff desired (synced desired state mode validRoleIds validGroupIds) mode
        validGroupIds = groupDiff desired
          (withGroups state (groupDiff desired state mode validGroupIds)) mode validGroupIds :=
      groupDiff_congr hcurrent hmanaged
    rw [groups_of_rules h, hcongr]
    exact groupDiff_again
  · rw [groups_of_none h]
    exact ⟨rfl, rfl, rfl, rfl⟩

theorem mem_synced_groups (h : desired.hasGroupRules = true) (x : Perm) :
    x ∈ (synced desired state mode validRoleIds validGroupIds).currentGroupPerms ↔
      x ∈ (groupDiff desired state mode validGroupIds).members state.currentGroupPerms := by
  rw [synced_groups, groups_of_rules h]

theorem mem_synced_roles (h : desired.hasRoleRules = true) (r : ℕ) :
    r ∈ (synced desired state mode validRoleIds validGroupIds).currentRoles ↔
      r ∈ (diffSet desired.roleIds state.currentRoles state.managedRoles mode
        validRoleIds).members state.currentRoles := by
  rw [synced_roles, roles_of_rules h]

theorem mem_groups_managed (x : Perm) :
    x ∈ (groupDiff desired state .managed validGroupIds).members state.currentGroupPerms ↔
      x.2 ∈ managedFinal desired state x.1 := by
  rw [groupDiff_managed]
  exact mem_final_managed

theorem mem_groups_authoritative (x : Perm) :
    x ∈ (groupDiff desired state .authoritative validGroupIds).members state.currentGroupPerms ↔
      x ∈ desired.groupPerms ∨
        x ∈ state.currentGroupPerms ∧ ¬ Strippable validGroupIds x.1 := by
  rw [groupDiff_authoritative, mem_authoritative]
  refine or_congr_right (and_congr_right fun hx ↦ ?_)
  rw [strippable_iff hx]

theorem synced_roles_left (h : ¬ desired.hasRoleRules = true) :
    (synced desired state mode validRoleIds validGroupIds).currentRoles = state.currentRoles ∧
      (synced desired state mode validRoleIds validGroupIds).managedRoles =
        state.managedRoles := by
  rw [synced_roles, synced_managedRoles, roles_of_none h]
  exact ⟨SetDiff.members_none _, SetDiff.marks_none _⟩

theorem synced_groups_left (h : ¬ desired.hasGroupRules = true) :
    (synced desired state mode validRoleIds validGroupIds).currentGroupPerms =
        state.currentGroupPerms ∧
      (synced desired state mode validRoleIds validGroupIds).managedGroupPerms =
        state.managedGroupPerms := by
  rw [synced_groups, synced_managedGroups, groups_of_none h]
  exact ⟨SetDiff.members_none _, SetDiff.marks_none _⟩

theorem synced_roles_marked (hroles : state.managedRoles ⊆ state.currentRoles) :
    (synced desired state mode validRoleIds validGroupIds).managedRoles ⊆
      (synced desired state mode validRoleIds validGroupIds).currentRoles := by
  by_cases h : desired.hasRoleRules = true
  · rw [synced_roles, synced_managedRoles, roles_of_rules h]
    exact diffSet_managed mode hroles
  · rwa [(synced_roles_left h).1, (synced_roles_left h).2]

theorem synced_groups_marked (hgroups : state.managedGroupPerms ⊆ state.currentGroupPerms) :
    (synced desired state mode validRoleIds validGroupIds).managedGroupPerms ⊆
      (synced desired state mode validRoleIds validGroupIds).currentGroupPerms := by
  by_cases h : desired.hasGroupRules = true
  · rw [synced_groups, synced_managedGroups, groups_of_rules h]
    exact groupDiff_managed_subset hgroups
  · rwa [(synced_groups_left h).1, (synced_groups_left h).2]

/-- A run of the rules settles: the next one changes nothing and no manual entry is lost. -/
theorem sync_converges (hroles : state.managedRoles ⊆ state.currentRoles)
    (hgroups : state.managedGroupPerms ⊆ state.currentGroupPerms) :
    Synced desired state (applyAssignments
      (diffAssignments desired state mode validRoleIds validGroupIds) state) mode validRoleIds
        validGroupIds where
  again := ⟨roles_again, groups_again⟩
  roles_marked := synced_roles_marked hroles
  groups_marked := synced_groups_marked hgroups
  roles_manual hmode r hr hm := by
    by_cases h : desired.hasRoleRules = true
    · subst hmode
      exact (mem_synced_roles h r).2 (mem_managed.2 (.inr ⟨hr, hm⟩))
    · exact (Finset.ext_iff.1 (synced_roles_left h).1 r).2 hr
  groups_manual hmode x hx hm := by
    by_cases h : desired.hasGroupRules = true
    · subst hmode
      exact (mem_synced_groups h x).2 ((mem_groups_managed x).2
        (managedFinal_of_unmanaged hx fun h ↦ absurd h hm))
    · exact (Finset.ext_iff.1 (synced_groups_left h).1 x).2 hx
  roles_present h r hr := by
    refine (mem_synced_roles h r).2 ?_
    cases mode with
    | managed => exact mem_managed.2 (.inl hr)
    | authoritative => exact mem_authoritative.2 (.inl hr)
  groups_present h x hx := by
    rw [show applyAssignments _ _ = synced _ _ _ _ _ from rfl, mem_synced_groups h,
      mem_synced_groups h]
    cases mode with
    | managed =>
      rw [mem_groups_managed, mem_groups_managed]
      exact (covered_of_desired hx).imp_right fun hrw ↦ ⟨rfl, hrw⟩
    | authoritative => exact .inl ((mem_groups_authoritative x).2 (.inl hx))
  roles_stale hmode h r hr hd hmem := by
    subst hmode
    obtain hr' | ⟨_, hm⟩ := mem_managed.1 ((mem_synced_roles h r).1 hmem)
    · exact hd hr'
    · exact hm hr
  groups_stale hmode h x hx hd hmem := by
    subst hmode
    obtain hx' | ⟨_, hm⟩ := mem_managedFinal
      ((mem_groups_managed x).1 ((mem_synced_groups h x).1 hmem))
    · exact hd hx'
    · exact hm hx
  roles_exact hmode h r hstrip := by
    subst hmode
    refine (mem_synced_roles h r).trans (mem_authoritative.trans ?_)
    tauto
  groups_exact hmode h x hstrip := by
    subst hmode
    refine (mem_synced_groups h x).trans ((mem_groups_authoritative x).trans ?_)
    tauto
  roles_left h := synced_roles_left h
  groups_left h := synced_groups_left h

theorem sync_converges_sample : Synced
    { roleIds := {1}, groupPerms := {(7, "rw")}, hasRoleRules := true, hasGroupRules := true }
    ⟨{1, 2}, {(7, "ro"), (8, "rw")}, {2}, {(8, "rw")}⟩
    (applyAssignments (diffAssignments
      { roleIds := {1}, groupPerms := {(7, "rw")}, hasRoleRules := true, hasGroupRules := true }
      ⟨{1, 2}, {(7, "ro"), (8, "rw")}, {2}, {(8, "rw")}⟩ .managed none none)
      ⟨{1, 2}, {(7, "ro"), (8, "rw")}, {2}, {(8, "rw")}⟩) .managed none none :=
  sync_converges (by simp) (by simp)

end Runs

end Tiqora.Identity.Mapping
