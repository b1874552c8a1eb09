import Tiqora.Foundation.Tables
import Mathlib.Data.String.Basic

namespace Tiqora.Identity.Scim

open Foundation

/-- A provider id and the id of one of its agents. -/
abbrev Agent := ℕ × ℕ

/-- What a request says about a group; the members are resolved. -/
structure Document where
  displayName : String
  externalId : Option String
  members : List ℕ
  deriving DecidableEq

structure Group extends Document where
  providerId : ℕ
  deriving DecidableEq

abbrev Groups := Table ℕ Group

/-- The stored members become the target ones: the users added and the users removed. -/
def writeMembers (current target : List ℕ) : List ℕ × List ℕ :=
  (target.filter fun uid ↦ uid ∉ current, current.filter fun uid ↦ uid ∉ target)

/-- Whether the names change: that touches every member. -/
def applyNames (row : Group) (doc : Document) : Bool :=
  doc.displayName ≠ row.displayName ∨ doc.externalId ≠ row.externalId

/-- A group write, with the row that it has locked. -/
inductive GroupWrite
  | create (providerId : ℕ) (doc : Document)
  | replace (row : Group) (doc : Document)
  | patch (row : Group) (doc : Document)
  | delete (row : Group)
  deriving DecidableEq

namespace GroupWrite

def providerId : GroupWrite → ℕ
  | .create providerId _ => providerId
  | .replace row _ | .patch row _ | .delete row => row.providerId

def before : GroupWrite → Option Group
  | .create _ _ => none
  | .replace row _ | .patch row _ | .delete row => some row

def after : GroupWrite → Option Group
  | .create providerId doc => some { doc with providerId }
  | .replace row doc | .patch row doc => some { doc with providerId := row.providerId }
  | .delete _ => none

def affected : GroupWrite → List ℕ
  | .create _ doc => (writeMembers [] doc.members).1
  | .replace row doc =>
    let (added, removed) := writeMembers row.members doc.members
    added ++ removed ++ if applyNames row doc then row.members ++ added else []
  | .patch row doc =>
    let (added, removed) := writeMembers row.members doc.members
    added ++ removed ++ if applyNames row doc then doc.members else []
  | .delete row => row.members

def agents (w : GroupWrite) : List Agent := w.affected.map fun uid ↦ (w.providerId, uid)

end GroupWrite

/-- The names that a group gives to an agent. -/
def Group.labels (g : Group) (agent : Agent) : Option (String × Option String) :=
  if g.providerId = agent.1 ∧ agent.2 ∈ g.members then some (g.displayName, g.externalId) else none

/-- The `scim:groups` and `scim:group_ids` attributes. -/
structure Attributes where
  groups : List String
  groupIds : List String
  deriving DecidableEq

def scimAttributes (mapped : Agent → Bool) (groups : Groups) (agent : Agent) : Attributes :=
  let labels := if mapped agent then groups.rows.filterMap fun r ↦ r.2.labels agent else []
  ⟨sortedSet (labels.map (·.1)), sortedSet (labels.filterMap fun l ↦ l.2.filter (· ≠ ""))⟩

theorem scimAttributes_congr {mapped : Agent → Bool} {groups groups' : Groups} {agent : Agent}
    (h : ∀ l, (∃ r ∈ groups.rows, r.2.labels agent = some l) ↔
      ∃ r ∈ groups'.rows, r.2.labels agent = some l) :
    scimAttributes mapped groups agent = scimAttributes mapped groups' agent := by
  rw [scimAttributes, scimAttributes]
  by_cases hm : mapped agent = true
  · simp only [hm, if_true]
    congr 1
    · refine sortedSet_congr fun name ↦ ?_
      simp only [List.mem_map, List.mem_filterMap, h]
    · refine sortedSet_congr fun extId ↦ ?_
      simp only [List.mem_filterMap (l := List.filterMap _ _), List.mem_filterMap, h]
  · simp only [hm]
    rfl

variable {w : GroupWrite} {uid : ℕ}

theorem mem_agents {agent : Agent} :
    agent ∈ w.agents ↔ agent.1 = w.providerId ∧ agent.2 ∈ w.affected := by
  rw [GroupWrite.agents, List.mem_map]
  constructor
  · rintro ⟨uid, huid, rfl⟩
    exact ⟨rfl, huid⟩
  · rintro ⟨hp, huid⟩
    exact ⟨agent.2, huid, by rw [← hp]⟩

theorem members_unaffected {current target : List ℕ}
    (h : uid ∉ (writeMembers current target).1 ++ (writeMembers current target).2) :
    uid ∈ target ↔ uid ∈ current := by
  simp only [writeMembers, List.mem_append, List.mem_filter, decide_eq_true_eq, not_or, not_and,
    not_not] at h
  exact ⟨h.1, h.2⟩

theorem labels_eq_none {g : Group} {agent : Agent}
    (h : agent.1 = g.providerId → agent.2 ∉ g.members) : g.labels agent = none := if_neg fun hg ↦ h hg.1.symm hg.2

/-- A rewritten group gives an agent the same names if the agent stays in or out of it, and the
names stay where it is in. -/
theorem labels_rewritten {row : Group} {doc : Document} {agent : Agent}
    (h : agent.1 = row.providerId →
      agent.2 ∉ (writeMembers row.members doc.members).1 ++
        (writeMembers row.members doc.members).2 ∧
      (agent.2 ∈ row.members → applyNames row doc = false)) :
    ({ doc with providerId := row.providerId } : Group).labels agent = row.labels agent := by
  by_cases hp : agent.1 = row.providerId
  · obtain ⟨hnot, hnames⟩ := h hp
    have hmem := members_unaffected hnot
    rw [Group.labels, Group.labels]
    by_cases hin : agent.2 ∈ row.members
    · have heq := hnames hin
      rw [applyNames, decide_eq_false_iff_not, not_or, not_not, not_not] at heq
      simp only [hmem, heq.1, heq.2]
    · rw [if_neg fun h ↦ hin (hmem.1 h.2), if_neg fun h ↦ hin h.2]
  · have hnone : ∀ g : Group, g.providerId = row.providerId → g.labels agent = none :=
      fun g hg ↦ labels_eq_none fun h ↦ absurd (h.trans hg) hp
    exact (hnone { doc with providerId := row.providerId } rfl).trans (hnone row rfl).symm

/-- An agent that a write does not list keeps the names it had from the group. -/
theorem labels_unaffected {agent : Agent} (h : agent ∉ w.agents) :
    w.after.bind (·.labels agent) = w.before.bind (·.labels agent) := by
  have huid : agent.1 = w.providerId → agent.2 ∉ w.affected := fun hp huid ↦
    h (mem_agents.2 ⟨hp, huid⟩)
  cases w with
  | create providerId doc =>
    refine labels_eq_none fun hp hin ↦ huid hp ?_
    exact List.mem_filter.2 ⟨hin, decide_eq_true List.not_mem_nil⟩
  | delete row => exact (labels_eq_none huid).symm
  | replace row doc =>
    refine labels_rewritten fun hp ↦ ?_
    have hnot := huid hp
    rw [GroupWrite.affected, List.mem_append, not_or] at hnot
    refine ⟨hnot.1, fun hin ↦ ?_⟩
    by_contra hren
    rw [Bool.not_eq_false] at hren
    rw [if_pos hren] at hnot
    exact hnot.2 (List.mem_append_left _ hin)
  | patch row doc =>
    refine labels_rewritten fun hp ↦ ?_
    have hnot := huid hp
    rw [GroupWrite.affected, List.mem_append, not_or] at hnot
    refine ⟨hnot.1, fun hin ↦ ?_⟩
    by_contra hren
    rw [Bool.not_eq_false] at hren
    rw [if_pos hren] at hnot
    exact hnot.2 ((members_unaffected hnot.1).2 hin)

/-- Only the agents that a write lists can get other attributes from it. -/
theorem attributes_unaffected {mapped : Agent → Bool} {groups : Groups} {id : ℕ} {agent : Agent}
    (hrow : groups.find id = w.before) (h : agent ∉ w.agents) :
    scimAttributes mapped (groups.set id w.after) agent = scimAttributes mapped groups agent := by
  have hsame := labels_unaffected h
  refine scimAttributes_congr fun l ↦ ?_
  constructor
  · rintro ⟨⟨id', g⟩, hg, hl⟩
    rcases Table.mem_set.1 hg with ⟨hg, -⟩ | ⟨-, hafter⟩
    · exact ⟨_, hg, hl⟩
    · rw [hafter, Option.bind_some, hl] at hsame
      obtain ⟨g', hbefore, hl⟩ := Option.bind_eq_some_iff.1 hsame.symm
      exact ⟨_, Table.find_eq_some.1 (hrow.trans hbefore), hl⟩
  · rintro ⟨⟨id', g⟩, hg, hl⟩
    by_cases hid : id' = id
    · subst hid
      rw [← hrow, Table.find_eq_some.2 hg, Option.bind_some, hl] at hsame
      obtain ⟨g', hafter, hl⟩ := Option.bind_eq_some_iff.1 hsame
      exact ⟨(id', g'), Table.mem_set.2 (.inr ⟨rfl, hafter⟩), hl⟩
    · exact ⟨_, Table.mem_set.2 (.inl ⟨hg, hid⟩), hl⟩

end Tiqora.Identity.Scim
