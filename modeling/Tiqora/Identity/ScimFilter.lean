import Mathlib.Data.List.TakeWhile
import Mathlib.Data.Nat.Notation
import Mathlib.Order.Defs.LinearOrder
import Tiqora.Foundation.Guarded
import Tiqora.Foundation.JsonString
import Tiqora.Identity.ScimError

namespace Tiqora.Identity.ScimFilter

open Foundation Scim

abbrev Text := CodePoints

inductive Resource
  | user
  | group
  deriving DecidableEq

inductive FilterAttr
  | id
  | userName
  | externalId
  | emailsValue
  | displayName
  deriving DecidableEq

def FilterAttr.name : FilterAttr → String
  | .id => "id"
  | .userName => "userName"
  | .externalId => "externalId"
  | .emailsValue => "emails.value"
  | .displayName => "displayName"

def userAttrs : List (Text × FilterAttr) :=
  [(codes "id", .id), (codes "username", .userName), (codes "externalid", .externalId),
    (codes "emails.value", .emailsValue)]

def groupAttrs : List (Text × FilterAttr) :=
  [(codes "id", .id), (codes "displayname", .displayName), (codes "externalid", .externalId)]

def allowed : Resource → List (Text × FilterAttr)
  | .user => userAttrs
  | .group => groupAttrs

structure ScimFilter where
  attr : FilterAttr
  value : Text
  deriving DecidableEq

/-- The lower case of the ASCII letters. -/
def asciiLower (c : ℕ) : ℕ := if 65 ≤ c ∧ c ≤ 90 then c + 32 else c

/-- `str.lower`, of which only the ASCII letters are spelled out. -/
structure Lowering where
  lower : Text → Text
  ascii : ∀ s, (∀ c ∈ s, c < 128) → lower s = s.map asciiLower
  head : ∀ c s, c < 128 → (lower (c :: s)).head? = some (asciiLower c)

def badFilter (detail : String) : ScimError := ⟨400, some "invalidFilter", detail⟩

def malformed : ScimError := badFilter "Unsupported or malformed filter"

def isBlank (c : ℕ) : Bool := c = 32 || c = 9

def isPathChar (c : ℕ) : Bool :=
  (97 ≤ c && c ≤ 122) || (65 ≤ c && c ≤ 90) || (48 ≤ c && c ≤ 57) || c = 46 || c = 95

/-- `str.split`. -/
def splitWords (s : Text) : List Text := (s.splitOnP isSpaceCode).filter (· ≠ [])

def maxFilterLength : ℕ := 1000

section Parse

variable (L : Lowering)

/-- The words of a qualifier `type eq "work"`. -/
def isQualifier (inner : Text) : Bool :=
  match splitWords inner with
  | [word, op, value] => L.lower word = codes "type" && L.lower op = codes "eq" &&
      (L.lower value = codes "\"work\"" || L.lower value = codes "\"home\"" ||
        L.lower value = codes "\"other\"")
  | _ => false

/-- An attribute path in lower case and what follows it. -/
def scanPath (s : Text) : Except ScimError (Text × Text) := do
  let path := L.lower (s.takeWhile isPathChar)
  let rest := s.dropWhile isPathChar
  require (path ≠ []) malformed
  if rest.head? = some 91 then do
    let after := rest.drop 1
    require (path = codes "emails" ∧ 93 ∈ after) malformed
    let inner := after.takeWhile (· ≠ 93)
    let rest := (after.dropWhile (· ≠ 93)).drop 1
    require (isQualifier L inner) malformed
    require (L.lower (rest.take 6) = codes ".value") malformed
    return (codes "emails.value", rest.drop 6)
  else return (path, rest)

/-- One JSON string token and what follows it. -/
def scanString (s : Text) : Except ScimError (Text × Text) :=
  if s.head? = some 34 then
    match JsonString.closeQuote false (s.drop 1) with
    | none => .error (badFilter "Unterminated string in filter")
    | some (token, rest) =>
      match JsonString.loads (34 :: token) with
      | none => .error (badFilter "Invalid string escape in filter")
      | some value => .ok (value, rest)
  else .error (badFilter "Filter value must be a quoted string")

/-- None for a blank filter. -/
def parseFilter (resource : Resource) (raw : Text) : Except ScimError (Option ScimFilter) :=
  if raw.all isSpaceCode then .ok none
  else do
    require (raw.length ≤ maxFilterLength) (badFilter "Filter too long")
    let (path, rest) ← scanPath L (raw.dropWhile isBlank)
    match (allowed resource).lookup path with
    | none => .error (badFilter "Unsupported filter attribute")
    | some attr => do
      require (rest.head?.any isBlank) malformed
      let rest := rest.dropWhile isBlank
      require (L.lower (rest.take 2) = codes "eq")
        (badFilter "Only the eq operator is supported")
      let rest := rest.drop 2
      require (rest.head?.any isBlank) malformed
      let (value, rest) ← scanString (rest.dropWhile isBlank)
      require (rest.all isSpaceCode) (badFilter "Trailing text in filter")
      return some ⟨attr, value⟩

end Parse

variable {L : Lowering} {resource : Resource} {raw path rest : Text} {attr : FilterAttr}

/-- An attribute path, for mail addresses also with a type. -/
inductive AttrPath (L : Lowering) : Text → Text → Prop
  | plain {path : Text} : path ≠ [] → (∀ c ∈ path, isPathChar c = true) →
      AttrPath L path (L.lower path)
  | typed {name inner suffix : Text} : (∀ c ∈ name, isPathChar c = true) →
      L.lower name = codes "emails" → 93 ∉ inner → isQualifier L inner = true →
        suffix.length = 6 → L.lower suffix = codes ".value" →
          AttrPath L (name ++ 91 :: (inner ++ 93 :: suffix)) (codes "emails.value")

/-- The texts `attr eq "value"` with blanks between the parts. -/
structure FilterText (L : Lowering) (resource : Resource) (raw : Text) (flt : ScimFilter) : Prop where
  short : raw.length ≤ maxFilterLength
  parts : ∃ before path name between op between' token after,
    raw = before ++ (path ++ (between ++ (op ++ (between' ++ (token ++ after))))) ∧
    (∀ c ∈ before ++ between ++ between', isBlank c = true) ∧ between ≠ [] ∧ between' ≠ [] ∧
    AttrPath L path name ∧ (allowed resource).lookup name = some flt.attr ∧
    op.length = 2 ∧ L.lower op = codes "eq" ∧ JsonString.Denotes token flt.value ∧
    ∀ c ∈ after, isSpaceCode c = true

section Lists

variable {p : ℕ → Bool} {s t : Text}

theorem takeWhile_append_stop (hs : ∀ c ∈ s, p c = true) (ht : ∀ c ∈ t.head?, p c = false) :
    (s ++ t).takeWhile p = s ∧ (s ++ t).dropWhile p = t := by
  have htake : t.takeWhile p = [] ∧ t.dropWhile p = t := by
    cases t with
    | nil => exact ⟨rfl, rfl⟩
    | cons c t =>
      have hc := ht c rfl
      simp [hc]
  rw [List.takeWhile_append_of_pos hs, List.dropWhile_append_of_pos hs, htake.1, htake.2,
    List.append_nil]
  exact ⟨rfl, rfl⟩

/-- A text splits into a head that meets a condition and what stops it. -/
theorem exists_split (p : ℕ → Bool) (s : Text) :
    ∃ word tail, s = word ++ tail ∧ (∀ c ∈ word, p c = true) ∧ ∀ c ∈ tail.head?, p c = false := by
  refine ⟨s.takeWhile p, s.dropWhile p, List.takeWhile_append_dropWhile.symm,
    fun c hc ↦ List.mem_takeWhile_imp hc, fun c hc ↦ ?_⟩
  have hstop := List.head?_dropWhile_not p s
  rw [Option.mem_def.1 hc] at hstop
  exact hstop

theorem head?_any_iff : s.head?.any p = true ↔ s.takeWhile p ≠ [] := by
  cases s with
  | nil => simp
  | cons c s => cases hc : p c <;> simp [hc]

end Lists

theorem lower_ne_nil (hpath : path ≠ []) (hchars : ∀ c ∈ path, isPathChar c = true) :
    L.lower path ≠ [] := by
  have hascii : ∀ c ∈ path, c < 128 := by
    intro c hc
    have h := hchars c hc
    simp only [isPathChar, Bool.or_eq_true, Bool.and_eq_true, decide_eq_true_eq] at h
    omega
  rw [L.ascii path hascii]
  exact fun h ↦ hpath (List.map_eq_nil_iff.1 h)

theorem scanPath_plain (hpath : path ≠ []) (hchars : ∀ c ∈ path, isPathChar c = true)
    (hrest : ∀ c ∈ rest.head?, isPathChar c = false ∧ c ≠ 91) :
    scanPath L (path ++ rest) = .ok (L.lower path, rest) := by
  obtain ⟨htake, hdrop⟩ := takeWhile_append_stop hchars fun c hc ↦ (hrest c hc).1
  rw [scanPath, htake, hdrop]
  refine require_bind_eq_ok.2 ⟨lower_ne_nil hpath hchars, ?_⟩
  rw [if_neg fun h : rest.head? = some 91 ↦ (hrest 91 h).2 rfl]
  rfl

theorem scanPath_typed {name inner suffix : Text} (hchars : ∀ c ∈ name, isPathChar c = true)
    (hname : L.lower name = codes "emails") (hinner : 93 ∉ inner)
    (hqualifier : isQualifier L inner = true) (hlength : suffix.length = 6)
    (hsuffix : L.lower suffix = codes ".value") :
    scanPath L ((name ++ 91 :: (inner ++ 93 :: suffix)) ++ rest) =
      .ok (codes "emails.value", rest) := by
  have happend : (name ++ 91 :: (inner ++ 93 :: suffix)) ++ rest =
      name ++ 91 :: (inner ++ 93 :: (suffix ++ rest)) := by simp
  obtain ⟨htake, hdrop⟩ := takeWhile_append_stop (t := 91 :: (inner ++ 93 :: (suffix ++ rest)))
    hchars fun c hc ↦ by cases hc; rfl
  obtain ⟨htake', hdrop'⟩ := takeWhile_append_stop (p := fun c ↦ decide (c ≠ 93)) (s := inner)
    (t := 93 :: (suffix ++ rest)) (fun c hc ↦ decide_eq_true fun h ↦ hinner (h ▸ hc))
    fun c hc ↦ by cases hc; rfl
  rw [happend, scanPath, htake, hdrop, hname]
  refine require_bind_eq_ok.2 ⟨by decide, ?_⟩
  rw [List.head?_cons, if_pos rfl, List.drop_one, List.tail_cons]
  refine require_bind_eq_ok.2 ⟨⟨rfl, List.mem_append_right _ List.mem_cons_self⟩, ?_⟩
  rw [htake', hdrop', List.drop_one, List.tail_cons]
  refine require_bind_eq_ok.2 ⟨hqualifier, ?_⟩
  rw [List.take_append_of_le_length (Nat.le_of_eq hlength.symm), List.take_of_length_le (Nat.le_of_eq hlength)]
  refine require_bind_eq_ok.2 ⟨hsuffix, ?_⟩
  rw [List.drop_append_of_le_length (Nat.le_of_eq hlength.symm), List.drop_of_length_le (Nat.le_of_eq hlength)]
  rfl

theorem scanPath_complete {name : Text} (h : AttrPath L path name)
    (hrest : ∀ c ∈ rest.head?, isPathChar c = false ∧ c ≠ 91) :
    scanPath L (path ++ rest) = .ok (name, rest) := by
  cases h with
  | plain hpath hchars => exact scanPath_plain hpath hchars hrest
  | typed hchars hname hinner hqualifier hlength hsuffix =>
    exact scanPath_typed hchars hname hinner hqualifier hlength hsuffix

theorem scanPath_sound {s name : Text} (h : scanPath L s = .ok (name, rest))
    (hrest : rest ≠ []) : ∃ path, s = path ++ rest ∧ AttrPath L path name := by
  obtain ⟨word, tail, rfl, hchars, htail⟩ := exists_split isPathChar s
  obtain ⟨htake, hdrop⟩ := takeWhile_append_stop hchars htail
  rw [scanPath, htake, hdrop] at h
  obtain ⟨hpath, h⟩ := require_bind_eq_ok.1 h
  split at h
  · next hopen =>
    obtain ⟨after, rfl⟩ := List.head?_eq_some_iff.1 hopen
    rw [List.drop_one, List.tail_cons] at h
    obtain ⟨⟨hname, hclose⟩, h⟩ := require_bind_eq_ok.1 h
    obtain ⟨hqualifier, h⟩ := require_bind_eq_ok.1 h
    obtain ⟨hsuffix, h⟩ := require_bind_eq_ok.1 h
    cases h
    obtain ⟨inner, close, rfl, hinner, hstop⟩ := exists_split (fun c ↦ decide (c ≠ 93)) after
    obtain ⟨htake', hdrop'⟩ := takeWhile_append_stop hinner hstop
    have hnot : 93 ∉ inner := fun h ↦ of_decide_eq_true (hinner 93 h) rfl
    cases close with
    | nil => exact absurd ((List.mem_append.1 hclose).resolve_right List.not_mem_nil) hnot
    | cons c tail =>
      obtain rfl : c = 93 := by simpa using hstop c rfl
      rw [htake'] at hqualifier
      rw [hdrop', List.drop_one, List.tail_cons] at hsuffix hrest ⊢
      have hlong : 6 < tail.length := List.length_pos_iff.2 hrest |> fun h ↦ by
        rw [List.length_drop] at h
        omega
      have htail := List.take_append_drop 6 tail
      refine ⟨word ++ 91 :: (inner ++ 93 :: tail.take 6), by simp, ?_⟩
      refine .typed hchars hname hnot hqualifier ?_ hsuffix
      rw [List.length_take]
      omega
  · cases h
    refine ⟨word, rfl, .plain ?_ hchars⟩
    rintro rfl
    rw [L.ascii [] fun c hc ↦ absurd hc List.not_mem_nil] at hpath
    exact hpath rfl

theorem scanString_iff {s value : Text} : scanString s = .ok (value, rest) ↔
    ∃ token, s = token ++ rest ∧ JsonString.Denotes token value := by
  constructor
  · intro h
    rw [scanString] at h
    split at h
    · next hquote =>
      obtain ⟨body, rfl⟩ := List.head?_eq_some_iff.1 hquote
      rw [List.drop_one, List.tail_cons] at h
      split at h
      · cases h
      · next token rest' hcut =>
        split at h
        · cases h
        · next value' hloads =>
          cases h
          refine ⟨34 :: token, ?_, (JsonString.loads_token hcut).1 hloads⟩
          rw [(JsonString.closeQuote_append hcut).1, List.cons_append]
    · cases h
  · rintro ⟨token, rfl, hdenotes⟩
    obtain ⟨body, rfl, hcut⟩ := hdenotes.closeQuote rest
    have hloads := (JsonString.loads_token hcut).2 hdenotes
    simp [scanString, hcut, hloads]

theorem parseFilter_sound {flt : ScimFilter}
    (h : parseFilter L resource raw = .ok (some flt)) : FilterText L resource raw flt := by
  rw [parseFilter] at h
  split at h
  · cases h
  · obtain ⟨hshort, h⟩ := require_bind_eq_ok.1 h
    obtain ⟨⟨name, rest⟩, hpath, h⟩ := bind_eq_ok.1 h
    dsimp only at h
    split at h
    · cases h
    · next attr hattr =>
      obtain ⟨hbetween, h⟩ := require_bind_eq_ok.1 h
      obtain ⟨hop, h⟩ := require_bind_eq_ok.1 h
      obtain ⟨hbetween', h⟩ := require_bind_eq_ok.1 h
      obtain ⟨⟨value, after⟩, hstring, h⟩ := bind_eq_ok.1 h
      obtain ⟨hafter, h⟩ := require_bind_eq_ok.1 h
      cases h
      obtain ⟨between, s₁, rfl, hblank, hstop⟩ := exists_split isBlank rest
      obtain ⟨htake, hdrop⟩ := takeWhile_append_stop hblank hstop
      rw [head?_any_iff, htake] at hbetween
      rw [hdrop] at hop hbetween' hstring
      obtain ⟨between', s₂, hs₂, hblank', hstop'⟩ := exists_split isBlank (s₁.drop 2)
      obtain ⟨htake', hdrop'⟩ := takeWhile_append_stop hblank' hstop'
      rw [hs₂, head?_any_iff, htake'] at hbetween'
      rw [hs₂, hdrop'] at hstring
      have hs₁ : s₁ = s₁.take 2 ++ (between' ++ s₂) := by
        rw [← hs₂, List.take_append_drop]
      have hlength : (s₁.take 2).length = 2 := by
        have hpos : 0 < (s₁.drop 2).length := by
          rw [hs₂, List.length_append]
          exact Nat.add_pos_left (List.length_pos_iff.2 hbetween') _
        rw [List.length_drop] at hpos
        rw [List.length_take]
        omega
      obtain ⟨token, rfl, hdenotes⟩ := scanString_iff.1 hstring
      have hrest : between ++ s₁ ≠ [] := fun h ↦ hbetween (List.append_eq_nil_iff.1 h).1
      obtain ⟨path, hraw, hattrPath⟩ := scanPath_sound hpath hrest
      refine ⟨hshort, raw.takeWhile isBlank, path, name, between, s₁.take 2, between', token, after,
        ?_, ?_, hbetween, hbetween', hattrPath, hattr, hlength, hop, hdenotes,
        fun c hc ↦ List.all_eq_true.1 hafter c hc⟩
      · rw [← hs₁, ← hraw, List.takeWhile_append_dropWhile]
      · intro c hc
        rcases List.mem_append.1 hc with hc | hc
        · rcases List.mem_append.1 hc with hc | hc
          · exact List.mem_takeWhile_imp hc
          · exact hblank c hc
        · exact hblank' c hc

theorem isBlank_cases {c : ℕ} (h : isBlank c = true) : c = 32 ∨ c = 9 := by
  simpa [isBlank] using h

theorem op_not_blank {op t : Text} (hlength : op.length = 2) (hop : L.lower op = codes "eq") :
    ∀ c ∈ (op ++ t).head?, isBlank c = false := by
  intro c hc
  cases op with
  | nil => cases hlength
  | cons d op =>
    cases hc
    rw [Bool.eq_false_iff]
    intro hblank
    have hhead := L.head c op (by rcases isBlank_cases hblank with rfl | rfl <;> decide)
    rw [hop] at hhead
    rcases isBlank_cases hblank with rfl | rfl <;> cases hhead

theorem head?_blank {between : Text} (hnil : between ≠ [])
    (hblank : ∀ c ∈ between, isBlank c = true) (t : Text) :
    ∃ c, (between ++ t).head? = some c ∧ isBlank c = true := by
  cases between with
  | nil => exact absurd rfl hnil
  | cons c between => exact ⟨c, rfl, hblank c List.mem_cons_self⟩

/-- An attribute path starts with a character of a name. -/
theorem AttrPath.head? {name : Text} (h : AttrPath L path name) :
    ∃ c, path.head? = some c ∧ isPathChar c = true := by
  cases h with
  | plain hpath hchars =>
    cases path with
    | nil => exact absurd rfl hpath
    | cons c path => exact ⟨c, rfl, hchars c List.mem_cons_self⟩
  | typed hchars hname =>
    rename_i word inner suffix _ _ _ _
    cases word with
    | nil =>
      rw [L.ascii [] fun c hc ↦ absurd hc List.not_mem_nil] at hname
      cases hname
    | cons c word => exact ⟨c, rfl, hchars c List.mem_cons_self⟩

theorem not_space_of_pathChar {c : ℕ} (h : isPathChar c = true) :
    isSpaceCode c = false ∧ isBlank c = false := by
  simp only [isPathChar, Bool.or_eq_true, Bool.and_eq_true, decide_eq_true_eq] at h
  simp only [isSpaceCode, isBlank, Bool.or_eq_false_iff, Bool.and_eq_false_iff,
    decide_eq_false_iff_not]
  omega

theorem parseFilter_complete {flt : ScimFilter} (h : FilterText L resource raw flt) :
    parseFilter L resource raw = .ok (some flt) := by
  obtain ⟨hshort, before, path, name, between, op, between', token, after, rfl, hblank, hbetween,
    hbetween', hpath, hattr, hlength, hop, hdenotes, hafter⟩ := h
  have hblank₀ : ∀ c ∈ before, isBlank c = true := fun c hc ↦ hblank c (by simp [hc])
  have hblank₁ : ∀ c ∈ between, isBlank c = true := fun c hc ↦ hblank c (by simp [hc])
  have hblank₂ : ∀ c ∈ between', isBlank c = true := fun c hc ↦ hblank c (by simp [hc])
  obtain ⟨c, hhead, hchar⟩ := hpath.head?
  obtain ⟨hspace, hnotBlank⟩ := not_space_of_pathChar hchar
  have hstop₀ : ∀ d ∈ (path ++ (between ++ (op ++ (between' ++ (token ++ after))))).head?,
      isBlank d = false := by
    intro d hd
    rw [List.head?_append, hhead] at hd
    cases hd
    exact hnotBlank
  have hraw : ¬ (before ++ (path ++ (between ++ (op ++ (between' ++ (token ++ after)))))).all
      isSpaceCode = true := fun hall ↦ by
    have := List.all_eq_true.1 hall c (by simp [List.mem_of_mem_head? hhead])
    rw [hspace] at this
    cases this
  have hstop₁ : ∀ d ∈ (op ++ (between' ++ (token ++ after))).head?, isBlank d = false :=
    op_not_blank hlength hop
  obtain ⟨body, rfl, -⟩ := hdenotes.closeQuote after
  have hstop₂ : ∀ d ∈ (34 :: body ++ after).head?, isBlank d = false := by
    intro d hd
    cases hd
    rfl
  obtain ⟨b₁, hb₁, hblankb₁⟩ := head?_blank hbetween hblank₁
    (op ++ (between' ++ (34 :: body ++ after)))
  obtain ⟨b₂, hb₂, hblankb₂⟩ := head?_blank hbetween' hblank₂ (34 :: body ++ after)
  rw [parseFilter, if_neg hraw]
  refine require_bind_eq_ok.2 ⟨hshort, ?_⟩
  rw [(takeWhile_append_stop hblank₀ hstop₀).2]
  refine bind_eq_ok.2 ⟨_, scanPath_complete hpath fun d hd ↦ ?_, ?_⟩
  · rw [hb₁] at hd
    cases hd
    rcases isBlank_cases hblankb₁ with rfl | rfl <;> decide
  · dsimp only
    rw [hattr]
    refine require_bind_eq_ok.2 ⟨by rw [hb₁]; exact hblankb₁, ?_⟩
    rw [(takeWhile_append_stop hblank₁ hstop₁).2, List.take_append_of_le_length
      (Nat.le_of_eq hlength.symm), List.take_of_length_le (Nat.le_of_eq hlength),
      List.drop_append_of_le_length (Nat.le_of_eq hlength.symm),
      List.drop_of_length_le (Nat.le_of_eq hlength), List.nil_append]
    refine require_bind_eq_ok.2 ⟨hop, ?_⟩
    refine require_bind_eq_ok.2 ⟨by rw [hb₂]; exact hblankb₂, ?_⟩
    rw [(takeWhile_append_stop hblank₂ hstop₂).2]
    refine bind_eq_ok.2 ⟨_, scanString_iff.2 ⟨_, rfl, hdenotes⟩, ?_⟩
    exact require_bind_eq_ok.2 ⟨List.all_eq_true.2 hafter, rfl⟩

theorem parseFilter_iff {flt : ScimFilter} :
    parseFilter L resource raw = .ok (some flt) ↔ FilterText L resource raw flt :=
  ⟨parseFilter_sound, parseFilter_complete⟩

end Tiqora.Identity.ScimFilter
