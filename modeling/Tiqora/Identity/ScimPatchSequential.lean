import Mathlib.Tactic.Tauto
import Tiqora.Identity.ScimPatch

namespace Tiqora.Identity.ScimPatch

open Foundation Scim

/-- What one operation asks for. -/
inductive Write
  | add (ids : Finset Text)
  | remove (ids : Finset Text)
  | replace (ids : Finset Text)
  | displayName (name : Text)
  | externalId (id : Option Text)
  deriving DecidableEq

namespace Write

def members : Finset Text → Write → Finset Text
  | current, .add ids => current ∪ ids
  | current, .remove ids => current \ ids
  | _, .replace ids => ids
  | current, _ => current

def name? : Write → Option Text
  | .displayName name => some name
  | _ => none

def externalId? : Write → Option (Option Text)
  | .externalId id => some id
  | _ => none

end Write

namespace MemberDelta

def write (d : MemberDelta) : Write → MemberDelta
  | .add ids => d.doAdd ids
  | .remove ids => d.doRemove ids
  | .replace ids => d.doReplace ids
  | .displayName name => { d with displayName := some name }
  | .externalId id => { d with externalId := some id }

/-- The members that a group ends with. -/
def wanted (d : MemberDelta) (current : Finset Text) : Finset Text :=
  (d.replaceAll.getD current ∪ d.add) \ d.remove

variable {d : MemberDelta} {current : Finset Text} {w : Write} {ws : List Write}

theorem mem_wanted {x : Text} :
    x ∈ d.wanted current ↔ (x ∈ d.replaceAll.getD current ∨ x ∈ d.add) ∧ x ∉ d.remove := by
  simp only [wanted, Finset.mem_sdiff, Finset.mem_union]

theorem wanted_initial : initial.wanted current = current := by
  simp [wanted, initial]

theorem wanted_doAdd (ids : Finset Text) :
    (d.doAdd ids).wanted current = d.wanted current ∪ ids := by
  ext x
  rw [Finset.mem_union, mem_wanted, mem_wanted, doAdd]
  cases d.replaceAll with
  | none =>
    simp only [Option.getD_none, Finset.mem_union, Finset.mem_sdiff]
    tauto
  | some all =>
    simp only [Option.getD_some, Finset.mem_union, Finset.mem_sdiff]
    tauto

theorem wanted_doRemove (ids : Finset Text) :
    (d.doRemove ids).wanted current = d.wanted current \ ids := by
  ext x
  rw [Finset.mem_sdiff, mem_wanted, mem_wanted, doRemove]
  cases d.replaceAll with
  | none =>
    simp only [Option.getD_none, Finset.mem_union, Finset.mem_sdiff]
    tauto
  | some all =>
    simp only [Option.getD_some, Finset.mem_sdiff]
    tauto

theorem wanted_write : (d.write w).wanted current = w.members (d.wanted current) := by
  cases w with
  | add ids => exact wanted_doAdd ids
  | remove ids => exact wanted_doRemove ids
  | replace ids => simp [write, doReplace, wanted, Write.members]
  | displayName name => rfl
  | externalId id => rfl

/-- The accumulators mean what the writes mean one after another. -/
theorem wanted_foldl : (ws.foldl write d).wanted current =
    ws.foldl Write.members (d.wanted current) := by
  induction ws generalizing d with
  | nil => rfl
  | cons w ws ih => rw [List.foldl_cons, ih, wanted_write, List.foldl_cons]

theorem displayName_write : (d.write w).displayName = w.name?.or d.displayName := by
  cases w with
  | add ids => cases h : d.replaceAll <;> simp [write, doAdd, Write.name?, h]
  | remove ids => cases h : d.replaceAll <;> simp [write, doRemove, Write.name?, h]
  | replace ids => rfl
  | displayName name => rfl
  | externalId id => rfl

theorem externalId_write : (d.write w).externalId = w.externalId?.or d.externalId := by
  cases w with
  | add ids => cases h : d.replaceAll <;> simp [write, doAdd, Write.externalId?, h]
  | remove ids => cases h : d.replaceAll <;> simp [write, doRemove, Write.externalId?, h]
  | replace ids => rfl
  | displayName name => rfl
  | externalId id => rfl

/-- A field that each write may set ends as the last one that does left it. -/
theorem last_of_foldl {α : Type} {field : MemberDelta → Option α} {set? : Write → Option α}
    (h : ∀ d w, field (d.write w) = (set? w).or (field d)) (ws : List Write) (d : MemberDelta) :
    field (ws.foldl write d) = (ws.filterMap set?).getLast?.or (field d) := by
  induction ws generalizing d with
  | nil => rfl
  | cons w ws ih =>
    rw [List.foldl_cons, ih, h]
    cases hw : set? w with
    | none => rw [List.filterMap_cons_none hw, Option.none_or]
    | some a =>
      rw [List.filterMap_cons_some hw, List.getLast?_cons]
      cases (ws.filterMap set?).getLast? <;> rfl

theorem displayName_foldl :
    (ws.foldl write initial).displayName = (ws.filterMap Write.name?).getLast? :=
  (last_of_foldl (fun _ _ ↦ displayName_write) ws initial).trans (Option.or_none ..)

theorem externalId_foldl :
    (ws.foldl write initial).externalId = (ws.filterMap Write.externalId?).getLast? :=
  (last_of_foldl (fun _ _ ↦ externalId_write) ws initial).trans (Option.or_none ..)

theorem wanted_eq : ((ws.foldl write initial).replaceAll.getD current ∪
    (ws.foldl write initial).add) \ (ws.foldl write initial).remove =
      ws.foldl Write.members current :=
  wanted_foldl.trans (by rw [wanted_initial])

end MemberDelta

section Reading

variable (folding : Folding) (maxMembers : ℕ)

/-- What an operation on a path asks for. -/
def readNamed (op : OpKind) (path : Text) (value : Value) : Except ScimError (List Write) :=
  match target folding path with
  | .ignored => .ok []
  | .member id =>
    if op = .remove then .ok [.remove {id}]
    else .error (invalidPath "members filter is only valid for remove")
  | .members =>
    if op = .remove ∧ value.isNull then .ok [.replace ∅]
    else do
      let ids ← memberIds maxMembers value
      return match op with
        | .add => [.add ids]
        | .remove => [.remove ids]
        | .replace => [.replace ids]
  | .displayName =>
    if op = .remove then .error ⟨400, some "mutability", "displayName cannot be removed"⟩
    else do
      let name ← stringValue "displayName" value
      return [.displayName name]
  | .externalId =>
    if op = .remove ∨ value.isNull then .ok [.externalId none]
    else do
      let id ← stringValue "externalId" value
      return [.externalId (some id)]
  | .unsupported => .error (invalidPath "Unsupported path")

def readOne (op : PatchOp) : Except ScimError (List Write) :=
  match op.path with
  | some path => readNamed folding maxMembers op.op path op.value
  | none =>
    match op.op, op.value with
    | .remove, _ => .error ⟨400, some "noTarget", "remove requires a path"⟩
    | kind, .object fields => do
      let writes ← fields.mapM fun field ↦ readNamed folding maxMembers kind field.1 field.2
      return writes.flatten
    | _, _ => .error (invalidValue "value must be an object without a path")

/-- The writes of a request, in its order. -/
def readPatch (ops : List PatchOp) : Except ScimError (List Write) := do
  let writes ← ops.mapM (readOne folding maxMembers)
  return writes.flatten

variable {folding maxMembers} {d d' : MemberDelta}

theorem applyNamed_ok {op : OpKind} {path : Text} {value : Value}
    (h : applyNamed folding maxMembers op d path value = .ok d') :
    ∃ ws, readNamed folding maxMembers op path value = .ok ws ∧ d' = ws.foldl .write d := by
  unfold applyNamed at h
  unfold readNamed
  cases htarget : target folding path with
  | ignored =>
    simp only [htarget] at h ⊢
    cases h
    exact ⟨[], rfl, rfl⟩
  | member id =>
    simp only [htarget] at h ⊢
    split at h
    · next hop =>
      cases h
      exact ⟨_, if_pos hop, rfl⟩
    · cases h
  | members =>
    simp only [htarget] at h ⊢
    split at h
    · next hop =>
      cases h
      exact ⟨_, if_pos hop, rfl⟩
    · next hop =>
      obtain ⟨ids, hids, h⟩ := bind_eq_ok.1 h
      rw [if_neg hop, hids]
      cases op <;> cases h <;> exact ⟨_, rfl, rfl⟩
  | displayName =>
    simp only [htarget] at h ⊢
    split at h
    · cases h
    · next hop =>
      obtain ⟨name, hname, h⟩ := bind_eq_ok.1 h
      cases h
      rw [if_neg hop, hname]
      exact ⟨_, rfl, rfl⟩
  | externalId =>
    simp only [htarget] at h ⊢
    split at h
    · next hop =>
      cases h
      exact ⟨_, if_pos hop, rfl⟩
    · next hop =>
      obtain ⟨id, hid, h⟩ := bind_eq_ok.1 h
      cases h
      rw [if_neg hop, hid]
      exact ⟨_, rfl, rfl⟩
  | unsupported =>
    simp only [htarget] at h
    cases h

/-- Operations that each add up to their writes add up to all of them. -/
theorem foldlM_ok {α : Type} {step : MemberDelta → α → Except ScimError MemberDelta}
    {read : α → Except ScimError (List Write)}
    (hstep : ∀ d x d', step d x = .ok d' → ∃ ws, read x = .ok ws ∧ d' = ws.foldl .write d)
    {xs : List α} (h : xs.foldlM step d = .ok d') :
    ∃ wss, xs.mapM read = .ok wss ∧ d' = wss.flatten.foldl .write d := by
  induction xs generalizing d with
  | nil =>
    cases h
    exact ⟨[], rfl, rfl⟩
  | cons x xs ih =>
    obtain ⟨d₁, hx, h⟩ := bind_eq_ok.1 h
    obtain ⟨ws, hws, rfl⟩ := hstep d x d₁ hx
    obtain ⟨wss, hwss, rfl⟩ := ih h
    refine ⟨ws :: wss, ?_, ?_⟩
    · rw [List.mapM_cons, hws, hwss]
      rfl
    · rw [List.flatten_cons, List.foldl_append]

theorem fields_ok {op : OpKind} {fields : List (Text × Value)}
    (h : fields.foldlM (fun d field ↦ applyNamed folding maxMembers op d field.1 field.2) d =
      .ok d') :
    ∃ wss, fields.mapM (fun field ↦ readNamed folding maxMembers op field.1 field.2) = .ok wss ∧
      d' = wss.flatten.foldl .write d := by
  have hstep : ∀ d (field : Text × Value) d',
      applyNamed folding maxMembers op d field.1 field.2 = .ok d' →
        ∃ ws, readNamed folding maxMembers op field.1 field.2 = .ok ws ∧
          d' = ws.foldl .write d := fun _ _ _ h ↦ applyNamed_ok h
  exact foldlM_ok hstep h

theorem applyOne_ok {op : PatchOp} (h : applyOne folding maxMembers d op = .ok d') :
    ∃ ws, readOne folding maxMembers op = .ok ws ∧ d' = ws.foldl .write d := by
  obtain ⟨kind, path, value⟩ := op
  cases path with
  | some path => exact applyNamed_ok h
  | none =>
    cases kind with
    | remove => cases h
    | add | replace =>
      cases value with
      | object fields =>
        obtain ⟨wss, hwss, hd⟩ := fields_ok h
        refine ⟨wss.flatten, ?_, hd⟩
        simp only [readOne, hwss]
        rfl
      | null | text | list | other => cases h

theorem applyGroupPatch_ok {ops : List PatchOp}
    (h : applyGroupPatch folding maxMembers ops = .ok d) :
    ∃ ws, readPatch folding maxMembers ops = .ok ws ∧ d = ws.foldl .write .initial := by
  obtain ⟨d', hfold, h⟩ := bind_eq_ok.1 h
  obtain ⟨-, h⟩ := require_bind_eq_ok.1 h
  cases h
  have hstep : ∀ d op d', applyOne folding maxMembers d op = .ok d' →
      ∃ ws, readOne folding maxMembers op = .ok ws ∧ d' = ws.foldl .write d :=
    fun _ _ _ h ↦ applyOne_ok h
  obtain ⟨wss, hwss, rfl⟩ := foldlM_ok hstep hfold
  refine ⟨wss.flatten, ?_, rfl⟩
  rw [readPatch, hwss]
  rfl

end Reading

section Groups

variable {directory : Directory} {stored : Finset ℕ} {current target : Finset ScimUser}
  {u : ScimUser}

/-- The users of a set that a group has or may get. -/
def Directory.available (directory : Directory) (stored : Finset ℕ) (ids : Finset Text) :
    Finset ScimUser :=
  (directory.currentMembers stored).filter (fun u ↦ u.scimId ∈ ids) ∪ directory.resolve ids

theorem mem_currentMembers :
    u ∈ directory.currentMembers stored ↔ u ∈ directory.users ∧ u.id ∈ stored :=
  Finset.mem_filter

theorem mem_resolve {ids : Finset Text} : u ∈ directory.resolve ids ↔ u ∈ directory.users ∧
    u.live = true ∧ u.scimId ∈ ids ∧ 0 < u.scimId.length ∧ u.scimId.length ≤ 36 :=
  Finset.mem_filter

/-- Looking up only the ids that the group does not have finds the same users. -/
theorem target_eq_available {wanted : Finset Text} :
    (directory.currentMembers stored).filter (fun u ↦ u.scimId ∈ wanted) ∪
        directory.resolve (wanted \ (directory.currentMembers stored).image ScimUser.scimId) =
      directory.available stored wanted := by
  ext u
  rw [Directory.available]
  simp only [Finset.mem_union, Finset.mem_filter, mem_resolve, Finset.mem_sdiff]
  constructor
  · rintro (hu | ⟨hu, hlive, ⟨hid, -⟩, hlen⟩)
    · exact .inl hu
    · exact .inr ⟨hu, hlive, hid, hlen⟩
  · rintro (hu | ⟨hu, hlive, hid, hlen⟩)
    · exact .inl hu
    · by_cases hcur : u.scimId ∈ (directory.currentMembers stored).image ScimUser.scimId
      · obtain ⟨v, hv, hvid⟩ := Finset.mem_image.1 hcur
        have huv := directory.scimId_unique v (mem_currentMembers.1 hv).1 u hu hvid
        exact .inl ⟨huv ▸ hv, hid⟩
      · exact .inr ⟨hu, hlive, ⟨hid, hcur⟩, hlen⟩

theorem available_subset {ids : Finset Text} : directory.available stored ids ⊆ directory.users := by
  refine Finset.union_subset ?_ (Finset.filter_subset _ _)
  exact (Finset.filter_subset _ _).trans (Finset.filter_subset _ _)

theorem mem_image_scimId (hcurrent : current ⊆ directory.users) (hu : u ∈ directory.users) :
    u.scimId ∈ current.image ScimUser.scimId ↔ u ∈ current := by
  constructor
  · intro h
    obtain ⟨v, hv, hid⟩ := Finset.mem_image.1 h
    exact directory.scimId_unique v (hcurrent hv) u hu hid ▸ hv
  · exact fun h ↦ Finset.mem_image_of_mem _ h

theorem mem_image_id (hcurrent : current ⊆ directory.users) (hu : u ∈ directory.users) :
    u.id ∈ current.image ScimUser.id ↔ u ∈ current := by
  constructor
  · intro h
    obtain ⟨v, hv, hid⟩ := Finset.mem_image.1 h
    exact directory.id_unique v (hcurrent hv) u hu hid ▸ hv
  · exact fun h ↦ Finset.mem_image_of_mem _ h

theorem writeMembers_eq (hcurrent : current ⊆ directory.users)
    (htarget : target ⊆ directory.users) :
    writeMembers current target = (target \ current, current \ target) := by
  refine Prod.ext ?_ ?_
  · ext u
    simp only [writeMembers, Finset.mem_filter, Finset.mem_sdiff]
    exact and_congr_right fun hu ↦ not_congr (mem_image_scimId hcurrent (htarget hu))
  · ext u
    simp only [writeMembers, Finset.mem_filter, Finset.mem_sdiff]
    exact and_congr_right fun hu ↦ not_congr (mem_image_scimId htarget (hcurrent hu))

/-- The rows that are deleted and inserted leave the target behind. -/
theorem currentMembers_written (stored : Finset ℕ) (htarget : target ⊆ directory.users) :
    directory.currentMembers
      ((stored \ (directory.currentMembers stored \ target).image ScimUser.id) ∪
        (target \ directory.currentMembers stored).image ScimUser.id) = target := by
  have hcurrent : directory.currentMembers stored ⊆ directory.users := Finset.filter_subset _ _
  ext u
  rw [mem_currentMembers]
  constructor
  · rintro ⟨hu, hid⟩
    rw [Finset.mem_union, Finset.mem_sdiff,
      mem_image_id (Finset.sdiff_subset.trans hcurrent) hu,
      mem_image_id (Finset.sdiff_subset.trans htarget) hu, Finset.mem_sdiff, Finset.mem_sdiff,
      mem_currentMembers] at hid
    tauto
  · intro hu
    have huser := htarget hu
    rw [Finset.mem_union, Finset.mem_sdiff,
      mem_image_id (Finset.sdiff_subset.trans hcurrent) huser,
      mem_image_id (Finset.sdiff_subset.trans htarget) huser, Finset.mem_sdiff, Finset.mem_sdiff,
      mem_currentMembers]
    tauto

/-- The users that are added or removed are those that are in only one of the sets. -/
theorem mem_touched {uid : ℕ} :
    uid ∈ ((target \ current) ∪ (current \ target)).image ScimUser.userId ↔
      ∃ u, (u ∈ target ↔ u ∉ current) ∧ u.userId = uid := by
  simp only [Finset.mem_image, Finset.mem_union, Finset.mem_sdiff]
  refine exists_congr fun u ↦ and_congr_left fun _ ↦ ?_
  tauto

end Groups

/-- The names that a group ends with, and the users that they and the members touch. -/
structure PatchedBy (clean : Text → Text) (directory : Directory) (row : GroupRow)
    (ws : List Write) (patched : Patched) : Prop where
  members : directory.currentMembers patched.row.members = directory.available row.members
    (ws.foldl Write.members ((directory.currentMembers row.members).image ScimUser.scimId))
  displayName : (ws.filterMap Write.name?).getLast?.elim (.ok row.displayName)
    (cleanText clean "displayName") = .ok patched.row.displayName
  externalId : (ws.filterMap Write.externalId?).getLast?.elim (.ok row.externalId)
    (cleanExternalId clean) = .ok patched.row.externalId
  affected : ∀ uid, uid ∈ patched.affected ↔
    (∃ u, (u ∈ directory.currentMembers patched.row.members ↔
        u ∉ directory.currentMembers row.members) ∧ u.userId = uid) ∨
      (patched.row.displayName ≠ row.displayName ∨ patched.row.externalId ≠ row.externalId) ∧
        ∃ u ∈ directory.currentMembers patched.row.members, u.userId = uid

section Main

variable {folding : Folding} {maxMembers : ℕ} {ops : List PatchOp} {delta : MemberDelta}

theorem patchGroup_ok {clean : Text → Text} {directory : Directory} {row : GroupRow}
    {ws : List Write} {patched : Patched}
    (hread : readPatch folding maxMembers ops = .ok ws)
    (h : patchGroup folding clean maxMembers directory row ops = .ok patched) :
    PatchedBy clean directory row ws patched := by
  obtain ⟨delta, hdelta, h⟩ := bind_eq_ok.1 h
  obtain ⟨ws', hread', rfl⟩ := applyGroupPatch_ok hdelta
  obtain rfl : ws = ws' := Except.ok.inj (hread.symm.trans hread')
  obtain ⟨name, hname, h⟩ := bind_eq_ok.1 h
  obtain ⟨externalId, hexternal, h⟩ := bind_eq_ok.1 h
  have hcurrent : directory.currentMembers row.members ⊆ directory.users :=
    Finset.filter_subset _ _
  have htarget : directory.available row.members
      (ws.foldl Write.members ((directory.currentMembers row.members).image ScimUser.scimId)) ⊆
        directory.users := available_subset
  simp only [MemberDelta.wanted_eq, target_eq_available,
    writeMembers_eq hcurrent htarget] at h
  cases h
  have hmembers := currentMembers_written row.members htarget
  refine ⟨hmembers, ?_, ?_, fun uid ↦ ?_⟩
  · rwa [MemberDelta.displayName_foldl] at hname
  · rwa [MemberDelta.externalId_foldl] at hexternal
  · dsimp only
    rw [hmembers]
    by_cases hrenamed : name ≠ row.displayName ∨ externalId ≠ row.externalId
    · rw [if_pos hrenamed, Finset.mem_union, mem_touched]
      simp only [Finset.mem_image, hrenamed, true_and]
    · rw [if_neg hrenamed, mem_touched]
      simp only [hrenamed, false_and, or_false]

/-- What operations add up to is what their writes mean one after another. -/
structure MeansInOrder (folding : Folding) (maxMembers : ℕ) (ops : List PatchOp)
    (delta : MemberDelta) (ws : List Write) : Prop where
  read : readPatch folding maxMembers ops = .ok ws
  members : ∀ current, (delta.replaceAll.getD current ∪ delta.add) \ delta.remove =
    ws.foldl Write.members current
  displayName : delta.displayName = (ws.filterMap Write.name?).getLast?
  externalId : delta.externalId = (ws.filterMap Write.externalId?).getLast?
  patched : ∀ clean directory row patched,
    patchGroup folding clean maxMembers directory row ops = .ok patched →
      PatchedBy clean directory row ws patched

/-- A group patch means its operations one after another. -/
theorem patch_sequential (h : applyGroupPatch folding maxMembers ops = .ok delta) :
    ∃ ws, MeansInOrder folding maxMembers ops delta ws := by
  obtain ⟨ws, hws, rfl⟩ := applyGroupPatch_ok h
  refine ⟨ws, hws, fun current ↦ ?_, ?_, ?_, fun _ _ _ _ hpatch ↦ patchGroup_ok hws hpatch⟩
  · exact MemberDelta.wanted_eq
  · exact MemberDelta.displayName_foldl
  · exact MemberDelta.externalId_foldl

end Main

/-- The folding of texts in small letters. -/
def plainFolding : Folding where
  ignoreCase := ⟨id, fun _ _ h _ _ ↦ h⟩
  casefold := id

def memberValue (id : String) : Value := .object [("value".toList, .text id.toList)]

def samplePatch : List PatchOp :=
  [⟨.add, some "members".toList, .list [memberValue "a", memberValue "b"]⟩,
    ⟨.remove, some "members".toList, .null⟩,
    ⟨.replace, none, .object [("displayname".toList, .text "Support".toList),
      ("members".toList, memberValue "c")]⟩,
    ⟨.add, some "members".toList, memberValue "a"⟩,
    ⟨.remove, some "members[value eq \"c\"]".toList, .null⟩]

theorem patch_sequential_sample : ∃ ws, MeansInOrder plainFolding 10 samplePatch
    ⟨∅, ∅, some {"a".toList}, some "Support".toList, none⟩ ws :=
  patch_sequential rfl

end Tiqora.Identity.ScimPatch
