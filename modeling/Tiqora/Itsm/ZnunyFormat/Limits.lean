import Tiqora.Cmdb.Values

namespace Tiqora.Itsm.ZnunyFormat

open Foundation Cmdb.Definition Cmdb.Values

def maxXmlDepth : ℕ := 16

def maxXmlLeaves : ℕ := 50000

/-- The text of a `ValueError`. -/
abbrev ValueError := String

def tooDeep : ValueError := "XMLData is nested deeper than 16 levels"

def tooMany : ValueError := "XMLData has more than 50000 values"

mutual

/-- The walk over the attributes of a node, with the values counted so far. -/
def walkItems : List (Text × Raw) → ℕ → ℕ → Except ValueError ℕ
  | [], _, leaves => do
    require (leaves ≤ maxXmlLeaves) tooMany
    return leaves
  | (_, value) :: rest, depth, leaves => do
    let leaves ← walkValue value depth leaves
    walkItems rest depth leaves

def walkValue : Raw → ℕ → ℕ → Except ValueError ℕ
  | .list entries, depth, leaves => do
    let leaves ← walkEntries entries depth leaves
    require (leaves ≤ maxXmlLeaves) tooMany
    return leaves
  | .null, _, leaves | .bool _, _, leaves | .int _, _, leaves | .float _, _, leaves
  | .str _, _, leaves | .dict _, _, leaves => return leaves + 1

def walkEntries : List Raw → ℕ → ℕ → Except ValueError ℕ
  | [], _, leaves => return leaves
  | entry :: rest, depth, leaves => do
    let leaves ← walkEntry entry depth leaves
    walkEntries rest depth leaves

def walkEntry : Raw → ℕ → ℕ → Except ValueError ℕ
  | .dict items, depth, leaves => do
    require (depth + 1 ≤ maxXmlDepth) tooDeep
    walkItems items (depth + 1) (leaves + 1)
  | .null, _, leaves => return leaves
  | .bool _, _, leaves | .int _, _, leaves | .float _, _, leaves | .str _, _, leaves
  | .list _, _, leaves => return leaves + 1

end

def guardXmlData (xmlData : Dict) : Except ValueError Unit := do
  require (1 ≤ maxXmlDepth) tooDeep
  let _ ← walkItems xmlData 1 0

mutual

/-- The values of a node: its entries and what is no list. -/
def leavesOf : List (Text × Raw) → ℕ
  | [] => 0
  | (_, value) :: rest => leavesIn value + leavesOf rest

def leavesIn : Raw → ℕ
  | .list entries => leavesAmong entries
  | .null | .bool _ | .int _ | .float _ | .str _ | .dict _ => 1

def leavesAmong : List Raw → ℕ
  | [] => 0
  | entry :: rest => leavesAt entry + leavesAmong rest

def leavesAt : Raw → ℕ
  | .dict items => 1 + leavesOf items
  | .null => 0
  | .bool _ | .int _ | .float _ | .str _ | .list _ => 1

end

mutual

/-- The levels below a node. -/
def levelsOf : List (Text × Raw) → ℕ
  | [] => 0
  | (_, value) :: rest => max (levelsIn value) (levelsOf rest)

def levelsIn : Raw → ℕ
  | .list entries => levelsAmong entries
  | .null | .bool _ | .int _ | .float _ | .str _ | .dict _ => 0

def levelsAmong : List Raw → ℕ
  | [] => 0
  | entry :: rest => max (levelsAt entry) (levelsAmong rest)

def levelsAt : Raw → ℕ
  | .dict items => 1 + levelsOf items
  | .null | .bool _ | .int _ | .float _ | .str _ | .list _ => 0

end

mutual

theorem walkItems_sound : ∀ (items : List (Text × Raw)) {depth leaves n : ℕ}, depth ≤ maxXmlDepth →
    walkItems items depth leaves = .ok n →
      n = leaves + leavesOf items ∧ n ≤ maxXmlLeaves ∧ depth + levelsOf items ≤ maxXmlDepth
  | [], _, _, _, hdepth, h => by
    obtain ⟨hle, h⟩ := require_bind_eq_ok.1 h
    cases h
    exact ⟨rfl, hle, hdepth⟩
  | (_, value) :: rest, depth, leaves, n, hdepth, h => by
    obtain ⟨m, hm, h⟩ := bind_eq_ok.1 h
    obtain ⟨rfl, hlevel⟩ := walkValue_sound value hdepth hm
    obtain ⟨rfl, hle, hlevels⟩ := walkItems_sound rest hdepth h
    refine ⟨Nat.add_assoc _ _ _, hle, ?_⟩
    rw [levelsOf, ← Nat.add_max_add_left]
    exact max_le hlevel hlevels

theorem walkValue_sound : ∀ (value : Raw) {depth leaves n : ℕ}, depth ≤ maxXmlDepth →
    walkValue value depth leaves = .ok n →
      n = leaves + leavesIn value ∧ depth + levelsIn value ≤ maxXmlDepth
  | .list entries, _, _, _, hdepth, h => by
    obtain ⟨m, hm, h⟩ := bind_eq_ok.1 h
    obtain ⟨-, h⟩ := require_bind_eq_ok.1 h
    cases h
    exact walkEntries_sound entries hdepth hm
  | .null, _, _, _, hdepth, h | .bool _, _, _, _, hdepth, h | .int _, _, _, _, hdepth, h
  | .float _, _, _, _, hdepth, h | .str _, _, _, _, hdepth, h | .dict _, _, _, _, hdepth, h => by
    cases h
    exact ⟨rfl, hdepth⟩

theorem walkEntries_sound : ∀ (entries : List Raw) {depth leaves n : ℕ}, depth ≤ maxXmlDepth →
    walkEntries entries depth leaves = .ok n →
      n = leaves + leavesAmong entries ∧ depth + levelsAmong entries ≤ maxXmlDepth
  | [], _, _, _, hdepth, h => by
    cases h
    exact ⟨rfl, hdepth⟩
  | entry :: rest, depth, leaves, n, hdepth, h => by
    obtain ⟨m, hm, h⟩ := bind_eq_ok.1 h
    obtain ⟨rfl, hlevel⟩ := walkEntry_sound entry hdepth hm
    obtain ⟨rfl, hlevels⟩ := walkEntries_sound rest hdepth h
    refine ⟨Nat.add_assoc _ _ _, ?_⟩
    rw [levelsAmong, ← Nat.add_max_add_left]
    exact max_le hlevel hlevels

theorem walkEntry_sound : ∀ (entry : Raw) {depth leaves n : ℕ}, depth ≤ maxXmlDepth →
    walkEntry entry depth leaves = .ok n →
      n = leaves + leavesAt entry ∧ depth + levelsAt entry ≤ maxXmlDepth
  | .dict items, depth, leaves, n, _, h => by
    obtain ⟨hdepth, h⟩ := require_bind_eq_ok.1 h
    obtain ⟨rfl, -, hlevels⟩ := walkItems_sound items hdepth h
    rw [leavesAt, levelsAt, ← Nat.add_assoc, ← Nat.add_assoc]
    exact ⟨rfl, hlevels⟩
  | .null, _, _, _, hdepth, h | .bool _, _, _, _, hdepth, h | .int _, _, _, _, hdepth, h
  | .float _, _, _, _, hdepth, h | .str _, _, _, _, hdepth, h | .list _, _, _, _, hdepth, h => by
    cases h
    exact ⟨rfl, hdepth⟩

end

mutual

theorem walkItems_complete : ∀ (items : List (Text × Raw)) {depth leaves : ℕ},
    depth + levelsOf items ≤ maxXmlDepth → leaves + leavesOf items ≤ maxXmlLeaves →
      walkItems items depth leaves = .ok (leaves + leavesOf items)
  | [], _, _, _, hleaves => require_bind_eq_ok.2 ⟨hleaves, rfl⟩
  | (_, value) :: rest, depth, leaves, hlevels, hleaves => by
    rw [levelsOf, ← Nat.add_max_add_left, max_le_iff] at hlevels
    rw [leavesOf, ← Nat.add_assoc] at hleaves ⊢
    exact bind_eq_ok.2 ⟨_, walkValue_complete value hlevels.1 (Nat.le_of_add_right_le hleaves),
      walkItems_complete rest hlevels.2 hleaves⟩

theorem walkValue_complete : ∀ (value : Raw) {depth leaves : ℕ},
    depth + levelsIn value ≤ maxXmlDepth → leaves + leavesIn value ≤ maxXmlLeaves →
      walkValue value depth leaves = .ok (leaves + leavesIn value)
  | .list entries, _, _, hlevels, hleaves =>
    bind_eq_ok.2 ⟨_, walkEntries_complete entries hlevels hleaves,
      require_bind_eq_ok.2 ⟨hleaves, rfl⟩⟩
  | .null, _, _, _, _ | .bool _, _, _, _, _ | .int _, _, _, _, _ | .float _, _, _, _, _
  | .str _, _, _, _, _ | .dict _, _, _, _, _ => rfl

theorem walkEntries_complete : ∀ (entries : List Raw) {depth leaves : ℕ},
    depth + levelsAmong entries ≤ maxXmlDepth → leaves + leavesAmong entries ≤ maxXmlLeaves →
      walkEntries entries depth leaves = .ok (leaves + leavesAmong entries)
  | [], _, _, _, _ => rfl
  | entry :: rest, depth, leaves, hlevels, hleaves => by
    rw [levelsAmong, ← Nat.add_max_add_left, max_le_iff] at hlevels
    rw [leavesAmong, ← Nat.add_assoc] at hleaves ⊢
    exact bind_eq_ok.2 ⟨_, walkEntry_complete entry hlevels.1 (Nat.le_of_add_right_le hleaves),
      walkEntries_complete rest hlevels.2 hleaves⟩

theorem walkEntry_complete : ∀ (entry : Raw) {depth leaves : ℕ},
    depth + levelsAt entry ≤ maxXmlDepth → leaves + leavesAt entry ≤ maxXmlLeaves →
      walkEntry entry depth leaves = .ok (leaves + leavesAt entry)
  | .dict items, depth, leaves, hlevels, hleaves => by
    rw [levelsAt, ← Nat.add_assoc] at hlevels
    rw [leavesAt, ← Nat.add_assoc] at hleaves ⊢
    exact require_bind_eq_ok.2 ⟨Nat.le_of_add_right_le hlevels,
      walkItems_complete items hlevels hleaves⟩
  | .null, _, _, _, _ | .bool _, _, _, _, _ | .int _, _, _, _, _ | .float _, _, _, _, _
  | .str _, _, _, _, _ | .list _, _, _, _, _ => rfl

end

/-- XMLData is let through if and only if it has no level below the sixteenth and at most 50000
values. -/
theorem guardXmlData_iff {xmlData : Dict} : guardXmlData xmlData = .ok () ↔
    1 + levelsOf xmlData ≤ maxXmlDepth ∧ leavesOf xmlData ≤ maxXmlLeaves := by
  rw [guardXmlData, require_bind_eq_ok]
  constructor
  · rintro ⟨hdepth, h⟩
    obtain ⟨n, hn, -⟩ := bind_eq_ok.1 h
    obtain ⟨rfl, hleaves, hlevels⟩ := walkItems_sound xmlData hdepth hn
    exact ⟨hlevels, (Nat.zero_add _).symm.trans_le hleaves⟩
  · rintro ⟨hlevels, hleaves⟩
    refine ⟨by decide, bind_eq_ok.2 ⟨_, walkItems_complete xmlData hlevels ?_, rfl⟩⟩
    rwa [Nat.zero_add]

end Tiqora.Itsm.ZnunyFormat
