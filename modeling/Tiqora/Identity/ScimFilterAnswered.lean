import Tiqora.Identity.ScimFilter
import Tiqora.Identity.ScimGroupList

namespace Tiqora.Identity.ScimGroupList

open Foundation Scim ScimFilter

/-- A filter whose value can be hashed or sent. -/
def Answerable (V : Driver) (flt : ScimFilter) : Prop :=
  match flt.attr with
  | .id => V.sends (flt.value.take 64) = true
  | .displayName | .externalId => flt.value.any isSurrogate = false
  | .userName | .emailsValue => True

/-- What is expected of the filter `raw`. -/
structure FilterAnswered (L : Lowering) (F : Casefold) (D : Digest) (V : Driver)
    (resource : Resource) (raw : Text) : Prop where
  blank : parseFilter L resource raw = .ok none ↔ raw.all isSpaceCode = true
  parsed : ∀ flt, parseFilter L resource raw = .ok (some flt) ↔ FilterText L resource raw flt
  answered : ∀ flt, parseFilter L resource raw = .ok (some flt) →
    ∀ rows tenant params includeMembers e,
      listGroups F D V rows tenant (some flt) params includeMembers = .error e →
        ∃ s, e = .scim s
  escaped : ∀ value, JsonString.Denotes (JsonString.dumps value) value
  printed : ∀ attr ∈ (allowed resource).map (·.2), ∀ token value, JsonString.Denotes token value →
    (codes attr.name ++ (codes " eq " ++ token)).length ≤ maxFilterLength →
      parseFilter L resource (codes attr.name ++ (codes " eq " ++ token)) =
        .ok (some ⟨attr, value⟩)

variable {L : Lowering} {F : Casefold} {D : Digest} {V : Driver} {resource : Resource} {raw : Text}
  {flt : ScimFilter} {rows : List GroupRow} {tenant : ScimTenant} {params : ListParams}
  {includeMembers : Bool}

theorem sha_ok {value : Text} (h : value.any isSurrogate = false) :
    ∃ hash, sha D value = .ok hash ∧ V.sends hash = true := by
  cases hbytes : encodeUtf8 value with
  | none =>
    rw [encodeUtf8_eq_none.1 hbytes] at h
    cases h
  | some bytes =>
    refine ⟨D.hex bytes, ?_, V.ascii _ (D.ascii bytes)⟩
    simp only [sha, hbytes]

theorem sha_surrogate {value : Text} (h : value.any isSurrogate = true) :
    sha D value = .error .unicodeEncode := by
  simp only [sha, encodeUtf8_eq_none.2 h]

theorem execute_ok {clause : Option (Text × (GroupRow → Bool))}
    (h : ∀ c ∈ clause, V.sends c.1 = true) : ∃ found, execute V rows tenant clause = .ok found := by
  refine ⟨_, require_bind_eq_ok.2 ⟨?_, rfl⟩⟩
  cases clause with
  | none => rfl
  | some c => exact h c rfl

theorem execute_unsent {text : Text} {keep : GroupRow → Bool} (h : ¬ V.sends text = true) :
    execute V rows tenant (some (text, keep)) = .error .driver := by
  simp only [execute, require, Option.all_some, if_neg h]
  rfl

/-- A query that can be sent raises nothing. -/
theorem listGroups_ok {clause : Option (Text × (GroupRow → Bool))}
    (hagent : tenant.userKind = .agent) (hclause : whereFilter F D V (some flt) = .ok clause)
    (hsends : ∀ c ∈ clause, V.sends c.1 = true) :
    ∃ r, listGroups F D V rows tenant (some flt) params includeMembers = .ok r := by
  obtain ⟨found, hfound⟩ : ∃ found, execute V rows tenant clause = .ok found := execute_ok hsends
  have hshape : listGroups F D V rows tenant (some flt) params includeMembers =
      if params.count = 0 then .ok (found.length, [])
      else .ok (found.length, ((found.drop (params.startIndex - 1)).take params.count).map
        (render includeMembers)) := by
    rw [listGroups, requireAgent, require, if_pos hagent, ok_bind, hclause, ok_bind, hfound, ok_bind]
    split <;> rfl
  rw [hshape]
  split
  · exact ⟨_, rfl⟩
  · exact ⟨_, rfl⟩

theorem listGroups_raises (h : Answerable V flt) {e : Raised}
    (he : listGroups F D V rows tenant (some flt) params includeMembers = .error e) :
    ∃ s, e = .scim s := by
  by_cases hagent : tenant.userKind = .agent
  · have hclause : (∃ clause, whereFilter F D V (some flt) = .ok clause ∧
        ∀ c ∈ clause, V.sends c.1 = true) ∨
        ∃ s, whereFilter F D V (some flt) = .error (.scim s) := by
      obtain ⟨attr, value⟩ := flt
      cases attr with
      | id =>
        refine .inl ⟨_, rfl, fun c hc ↦ ?_⟩
        cases hc
        exact h
      | displayName =>
        obtain ⟨hash, hhash, hsends⟩ := sha_ok (D := D) (V := V) ((F.surrogate value).trans h)
        refine .inl ⟨_, bind_eq_ok.2 ⟨hash, hhash, rfl⟩, fun c hc ↦ ?_⟩
        cases hc
        exact hsends
      | externalId =>
        obtain ⟨hash, hhash, hsends⟩ := sha_ok (D := D) (V := V) h
        refine .inl ⟨_, bind_eq_ok.2 ⟨hash, hhash, rfl⟩, fun c hc ↦ ?_⟩
        cases hc
        exact hsends
      | userName => exact .inr ⟨_, rfl⟩
      | emailsValue => exact .inr ⟨_, rfl⟩
    rcases hclause with ⟨clause, hclause, hsends⟩ | ⟨s, hs⟩
    · have hok : ∃ r, listGroups F D V rows tenant (some flt) params includeMembers = .ok r :=
        listGroups_ok hagent hclause hsends
      obtain ⟨r, hr⟩ := hok
      rw [hr] at he
      cases he
    · rw [listGroups, requireAgent, require, if_pos hagent, ok_bind, hs] at he
      cases he
      exact ⟨s, rfl⟩
  · rw [listGroups, requireAgent, require, if_neg hagent] at he
    cases he
    exact ⟨_, rfl⟩

/-- A value that cannot be hashed or sent raises for every agent provider. -/
theorem listGroups_fails (h : ¬ Answerable V flt) (rows : List GroupRow) (tenant : ScimTenant)
    (hagent : tenant.userKind = .agent) (params : ListParams) (includeMembers : Bool) :
    ∃ e, listGroups F D V rows tenant (some flt) params includeMembers = .error e ∧
      ∀ s, e ≠ .scim s := by
  have hstart : listGroups F D V rows tenant (some flt) params includeMembers =
      (do
        let clause ← whereFilter F D V (some flt)
        let counted ← execute V rows tenant clause
        let total := counted.length
        if params.count = 0 then return (total, [])
        else do
          let found ← execute V rows tenant clause
          let shown := (found.drop (params.startIndex - 1)).take params.count
          return (total, shown.map (render includeMembers))) := by
    rw [listGroups, requireAgent, require, if_pos hagent, ok_bind]
  rw [hstart]
  obtain ⟨attr, value⟩ := flt
  cases attr with
  | id =>
    refine ⟨.driver, ?_, fun s ↦ Raised.noConfusion⟩
    rw [whereFilter, ok_bind, execute_unsent h]
    rfl
  | displayName =>
    have hsurrogate := (F.surrogate value).trans (Bool.of_not_eq_false h)
    refine ⟨.unicodeEncode, ?_, fun s ↦ Raised.noConfusion⟩
    simp only [whereFilter, sha_surrogate hsurrogate]
    rfl
  | externalId =>
    refine ⟨.unicodeEncode, ?_, fun s ↦ Raised.noConfusion⟩
    simp only [whereFilter, sha_surrogate (Bool.of_not_eq_false h)]
    rfl
  | userName => exact absurd trivial h
  | emailsValue => exact absurd trivial h

theorem parseFilter_eq_none : parseFilter L resource raw = .ok none ↔ raw.all isSpaceCode = true := by
  constructor
  · intro h
    rw [parseFilter] at h
    split at h
    · next hblank => exact hblank
    · obtain ⟨-, h⟩ := require_bind_eq_ok.1 h
      obtain ⟨⟨path, rest⟩, -, h⟩ := bind_eq_ok.1 h
      dsimp only at h
      split at h
      · cases h
      · obtain ⟨-, h⟩ := require_bind_eq_ok.1 h
        obtain ⟨-, h⟩ := require_bind_eq_ok.1 h
        obtain ⟨-, h⟩ := require_bind_eq_ok.1 h
        obtain ⟨⟨value, after⟩, -, h⟩ := bind_eq_ok.1 h
        obtain ⟨-, h⟩ := require_bind_eq_ok.1 h
        cases h
  · intro hblank
    rw [parseFilter, if_pos hblank]

/-- The name of an attribute is an attribute path for it. -/
theorem attrPath_name {attr : FilterAttr} (h : attr ∈ (allowed resource).map (·.2)) :
    ∃ name, AttrPath L (codes attr.name) name ∧ (allowed resource).lookup name = some attr := by
  have hname : codes attr.name ≠ [] ∧ (codes attr.name).all isPathChar = true ∧
      (codes attr.name).all (· < 128) = true ∧
      (allowed resource).lookup ((codes attr.name).map asciiLower) = some attr := by
    cases resource <;> cases attr <;> first | exact absurd h (by decide) | decide
  obtain ⟨hnil, hchars, hascii, hlookup⟩ := hname
  refine ⟨_, .plain hnil (List.all_eq_true.1 hchars), ?_⟩
  rwa [L.ascii _ fun c hc ↦ of_decide_eq_true (List.all_eq_true.1 hascii c hc)]

theorem parseFilter_printed {attr : FilterAttr} (h : attr ∈ (allowed resource).map (·.2))
    {token value : Text} (htoken : JsonString.Denotes token value)
    (hshort : (codes attr.name ++ (codes " eq " ++ token)).length ≤ maxFilterLength) :
    parseFilter L resource (codes attr.name ++ (codes " eq " ++ token)) =
      .ok (some ⟨attr, value⟩) := by
  obtain ⟨name, hpath, hlookup⟩ := attrPath_name (L := L) h
  have heq : L.lower (codes "eq") = codes "eq" := by
    have hascii : (codes "eq").all (· < 128) = true := rfl
    rw [L.ascii _ fun c hc ↦ of_decide_eq_true (List.all_eq_true.1 hascii c hc)]
    rfl
  have hspace : (codes " ").all isBlank = true := rfl
  refine parseFilter_complete ⟨hshort, [], codes attr.name, name, codes " ", codes "eq", codes " ",
    token, [], ?_, fun c hc ↦ ?_, List.cons_ne_nil _ _, List.cons_ne_nil _ _, hpath, hlookup, rfl, heq,
    htoken, fun c hc ↦ absurd hc List.not_mem_nil⟩
  · rw [List.append_nil]
    rfl
  · rcases List.mem_append.1 hc with hc | hc
    · exact List.all_eq_true.1 hspace c hc
    · exact List.all_eq_true.1 hspace c hc

/-- Lists of groups are answered but for values with a lone surrogate and ids that the driver
cannot send. -/
theorem filter_answered_iff (L : Lowering) (F : Casefold) (D : Digest) (V : Driver)
    (resource : Resource) (raw : Text) : FilterAnswered L F D V resource raw ↔
      ∀ flt, FilterText L resource raw flt → Answerable V flt := by
  constructor
  · intro h flt hflt
    by_contra hfails
    obtain ⟨e, he, hscim⟩ := listGroups_fails (F := F) (D := D) hfails [] ⟨0, .agent⟩ rfl
      ⟨1, 0, Nat.one_pos⟩ false
    obtain ⟨s, hs⟩ := h.answered flt ((h.parsed flt).2 hflt) [] _ _ _ e he
    exact hscim s hs
  · intro h
    exact
      { blank := parseFilter_eq_none
        parsed := fun flt ↦ parseFilter_iff
        answered := fun flt hflt rows tenant params includeMembers e he ↦
          listGroups_raises (h flt (parseFilter_iff.1 hflt)) he
        escaped := JsonString.denotes_dumps
        printed := fun attr hattr token value htoken hshort ↦
          parseFilter_printed hattr htoken hshort }

def asciiLowering : Lowering where
  lower s := s.map asciiLower
  ascii _ _ := rfl
  head _ _ _ := rfl

theorem asciiLower_surrogate (c : ℕ) : isSurrogate (asciiLower c) = isSurrogate c := by
  rw [asciiLower]
  split
  · next h =>
    have hsmall : isSurrogate c = false ∧ isSurrogate (c + 32) = false := by
      simp only [isSurrogate, Bool.and_eq_false_iff, decide_eq_false_iff_not]
      omega
    rw [hsmall.1, hsmall.2]
  · rfl

def asciiCasefold : Casefold where
  fold s := s.map asciiLower
  surrogate s := by
    rw [List.any_map]
    exact congrArg s.any (funext asciiLower_surrogate)

def constDigest : Digest where
  hex _ := codes "00"
  ascii _ c hc := by
    have hascii : (codes "00").all (fun c ↦ 32 ≤ c ∧ c < 127) = true := rfl
    exact of_decide_eq_true (List.all_eq_true.1 hascii c hc)

def utf8Driver : Driver where
  sends s := ¬ s.any isSurrogate
  ascii s h := by
    refine decide_eq_true fun hany ↦ ?_
    obtain ⟨c, hc, hsurrogate⟩ := List.any_eq_true.1 hany
    have hascii := h c hc
    simp only [isSurrogate, Bool.and_eq_true, decide_eq_true_eq] at hsurrogate
    omega
  same s t := s = t

theorem lone_surrogate_not_answered : ¬ FilterAnswered asciiLowering asciiCasefold constDigest
    utf8Driver .group (codes "displayName eq \"\\ud800\"") := by
  intro h
  obtain ⟨s, hs⟩ := h.answered ⟨.displayName, [0xD800]⟩ rfl [] ⟨1, .agent⟩ ⟨1, 100, Nat.one_pos⟩ true
    .unicodeEncode rfl
  cases hs

end Tiqora.Identity.ScimGroupList
