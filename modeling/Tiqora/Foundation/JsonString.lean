import Mathlib.Data.List.Basic
import Mathlib.Data.Nat.Notation

namespace Tiqora.Foundation

/-- The code points of a text; a text may hold surrogates, which no `Char` is. -/
abbrev CodePoints := List ℕ

instance lawfulCodes : LawfulBEq CodePoints := inferInstance

def codes (s : String) : CodePoints := s.toList.map Char.toNat

def isSurrogate (c : ℕ) : Bool := 0xD800 ≤ c && c < 0xE000

/-- The white space of `str.strip` and `str.split`. -/
def isSpaceCode (n : ℕ) : Bool :=
  (9 ≤ n && n ≤ 13) || (28 ≤ n && n ≤ 32) || n = 0x85 || n = 0xA0 || n = 0x1680 ||
    (0x2000 ≤ n && n ≤ 0x200A) || n = 0x2028 || n = 0x2029 || n = 0x202F || n = 0x205F || n = 0x3000

/-- `str.encode("utf-8")`, which raises at a surrogate. -/
def encodeUtf8 (s : CodePoints) : Option (List ℕ) :=
  if s.any isSurrogate then none
  else some (s.flatMap fun c ↦
    if c < 0x80 then [c]
    else if c < 0x800 then [0xC0 + c / 0x40, 0x80 + c % 0x40]
    else if c < 0x10000 then [0xE0 + c / 0x1000, 0x80 + c / 0x40 % 0x40, 0x80 + c % 0x40]
    else [0xF0 + c / 0x40000, 0x80 + c / 0x1000 % 0x40, 0x80 + c / 0x40 % 0x40, 0x80 + c % 0x40])

theorem encodeUtf8_eq_none {s : CodePoints} : encodeUtf8 s = none ↔ s.any isSurrogate = true := by
  rw [encodeUtf8]
  split
  · next h => exact ⟨fun _ ↦ h, fun _ ↦ rfl⟩
  · next h => exact ⟨fun hnone ↦ absurd hnone (Option.some_ne_none _), fun hany ↦ absurd hany h⟩

namespace JsonString

/-- What a JSON string is read into before surrogate escapes are joined. -/
inductive JsonUnit
  | plain (c : ℕ)
  | code (u : ℕ)
  deriving DecidableEq

inductive Mode
  | plain
  | escape
  | hex (digits value : ℕ)
  deriving DecidableEq

def unescape (c : ℕ) : Option ℕ :=
  [(34, 34), (92, 92), (47, 47), (98, 8), (102, 12), (110, 10), (114, 13), (116, 9)].lookup c

def hexValue (c : ℕ) : Option ℕ :=
  if 48 ≤ c ∧ c ≤ 57 then some (c - 48)
  else if 65 ≤ c ∧ c ≤ 70 then some (c - 55)
  else if 97 ≤ c ∧ c ≤ 102 then some (c - 87)
  else none

/-- The units up to the closing quote and what follows it. -/
def scan : Mode → CodePoints → Option (List JsonUnit × CodePoints)
  | _, [] => none
  | .plain, c :: s =>
    if c = 34 then some ([], s)
    else if c = 92 then scan .escape s
    else if c < 32 then none
    else (scan .plain s).map fun r ↦ (.plain c :: r.1, r.2)
  | .escape, c :: s =>
    if c = 117 then scan (.hex 0 0) s
    else (unescape c).bind fun x ↦ (scan .plain s).map fun r ↦ (.plain x :: r.1, r.2)
  | .hex digits value, c :: s =>
    (hexValue c).bind fun d ↦
      if digits = 3 then
        (scan .plain s).map fun r ↦ (.code (value * 16 + d) :: r.1, r.2)
      else scan (.hex (digits + 1) (value * 16 + d)) s

def isHigh (u : ℕ) : Bool := 0xD800 ≤ u && u < 0xDC00

def isLow (u : ℕ) : Bool := 0xDC00 ≤ u && u < 0xE000

def JsonUnit.value : JsonUnit → ℕ
  | .plain c => c
  | .code u => u

/-- A high and a low surrogate that are escaped side by side are one code point. -/
def join : List JsonUnit → CodePoints
  | [] => []
  | [x] => [x.value]
  | .code u :: .code v :: rest =>
    if isHigh u && isLow v then (0x10000 + (u - 0xD800) * 0x400 + (v - 0xDC00)) :: join rest
    else u :: join (.code v :: rest)
  | x :: y :: rest => x.value :: join (y :: rest)

def isJsonBlank (c : ℕ) : Bool := c = 32 || c = 9 || c = 10 || c = 13

/-- `json.loads` of a text that starts with a quote. -/
def loads : CodePoints → Option CodePoints
  | 34 :: s => (scan .plain s).bind fun r ↦ if r.2.all isJsonBlank then some (join r.1) else none
  | _ => none

/-- A text is a JSON string for a value. -/
def Denotes (token value : CodePoints) : Prop :=
  ∃ body units, token = 34 :: body ∧ scan .plain body = some (units, []) ∧ value = join units

def hexDigit (n : ℕ) : ℕ := if n < 10 then 48 + n else 87 + n

/-- What stands for a code point in a printed string. -/
def escapeCode (c : ℕ) : CodePoints :=
  if c = 34 ∨ c = 92 then [92, c]
  else if c = 8 then [92, 98]
  else if c = 12 then [92, 102]
  else if c = 10 then [92, 110]
  else if c = 13 then [92, 114]
  else if c = 9 then [92, 116]
  else if c < 32 then [92, 117, 48, 48, hexDigit (c / 16), hexDigit (c % 16)]
  else [c]

/-- `json.dumps(value, ensure_ascii=False)`. -/
def dumps (value : CodePoints) : CodePoints := 34 :: value.flatMap escapeCode ++ [34]

/-- Where a hand-written scanner sees the closing quote: it skips what follows a backslash. -/
def closeQuote : Bool → CodePoints → Option (CodePoints × CodePoints)
  | _, [] => none
  | true, c :: s => (closeQuote false s).map fun r ↦ (c :: r.1, r.2)
  | false, c :: s =>
    if c = 92 then (closeQuote true s).map fun r ↦ (c :: r.1, r.2)
    else if c = 34 then some ([c], s)
    else (closeQuote false s).map fun r ↦ (c :: r.1, r.2)

def Mode.skips : Mode → Bool
  | .escape => true
  | _ => false

variable {mode : Mode} {s t rest token : CodePoints} {units : List JsonUnit}

/-- The scanner cuts a text behind the quote, and would cut there whatever followed. -/
theorem closeQuote_append {skip : Bool} (h : closeQuote skip s = some (token, rest)) :
    s = token ++ rest ∧ ∀ t, closeQuote skip (token ++ t) = some (token, t) := by
  induction s generalizing skip token with
  | nil => cases skip <;> cases h
  | cons c s ih =>
    cases skip with
    | true =>
      obtain ⟨r, hr, heq⟩ := Option.map_eq_some_iff.1 h
      cases heq
      obtain ⟨happend, hcut⟩ := ih hr
      refine ⟨by rw [List.cons_append, ← happend], fun t ↦ ?_⟩
      rw [List.cons_append, closeQuote, hcut]
      rfl
    | false =>
      rw [closeQuote] at h
      split at h
      · next hescape =>
        obtain ⟨r, hr, heq⟩ := Option.map_eq_some_iff.1 h
        cases heq
        obtain ⟨happend, hcut⟩ := ih hr
        refine ⟨by rw [List.cons_append, ← happend], fun t ↦ ?_⟩
        rw [List.cons_append, closeQuote, if_pos hescape, hcut]
        rfl
      · next hescape =>
        split at h
        · next hquote =>
          cases h
          refine ⟨rfl, fun t ↦ ?_⟩
          rw [List.singleton_append, closeQuote, if_neg hescape, if_pos hquote]
        · next hquote =>
          obtain ⟨r, hr, heq⟩ := Option.map_eq_some_iff.1 h
          cases heq
          obtain ⟨happend, hcut⟩ := ih hr
          refine ⟨by rw [List.cons_append, ← happend], fun t ↦ ?_⟩
          rw [List.cons_append, closeQuote, if_neg hescape, if_neg hquote, hcut]
          rfl

theorem hexValue_ne {c d : ℕ} (h : hexValue c = some d) : c ≠ 92 ∧ c ≠ 34 := by
  constructor
  · rintro rfl
    cases h
  · rintro rfl
    cases h

/-- A string token ends where the scanner sees its closing quote, whatever follows. -/
theorem scan_closeQuote (h : scan mode s = some (units, rest)) :
    ∃ token, s = token ++ rest ∧ scan mode token = some (units, []) ∧
      ∀ t, closeQuote mode.skips (token ++ t) = some (token, t) := by
  induction s generalizing mode units with
  | nil => cases mode <;> cases h
  | cons c s ih =>
    cases mode with
    | plain =>
      rw [scan] at h
      split at h
      · next hquote =>
        subst hquote
        cases h
        exact ⟨[34], rfl, rfl, fun t ↦ rfl⟩
      · next hquote =>
        split at h
        · next hescape =>
          subst hescape
          obtain ⟨token, rfl, hscan, hclose⟩ := ih h
          refine ⟨92 :: token, rfl, hscan, fun t ↦ ?_⟩
          have hnext : closeQuote true (token ++ t) = some (token, t) := hclose t
          simp [closeQuote, Mode.skips, hnext]
        · next hescape =>
          split at h
          · cases h
          · next hcontrol =>
            obtain ⟨r, hr, heq⟩ := Option.map_eq_some_iff.1 h
            cases heq
            obtain ⟨token, rfl, hscan, hclose⟩ := ih hr
            refine ⟨c :: token, rfl, ?_, fun t ↦ ?_⟩
            · rw [scan, if_neg hquote, if_neg hescape, if_neg hcontrol, hscan]
              rfl
            · have hnext : closeQuote false (token ++ t) = some (token, t) := hclose t
              simp [closeQuote, Mode.skips, hquote, hescape, hnext]
    | escape =>
      rw [scan] at h
      split at h
      · next hhex =>
        obtain ⟨token, rfl, hscan, hclose⟩ := ih h
        refine ⟨c :: token, rfl, by rw [scan, if_pos hhex, hscan], fun t ↦ ?_⟩
        have hnext : closeQuote false (token ++ t) = some (token, t) := hclose t
        simp [closeQuote, Mode.skips, hnext]
      · next hhex =>
        obtain ⟨x, hx, h⟩ := Option.bind_eq_some_iff.1 h
        obtain ⟨r, hr, heq⟩ := Option.map_eq_some_iff.1 h
        cases heq
        obtain ⟨token, rfl, hscan, hclose⟩ := ih hr
        refine ⟨c :: token, rfl, by rw [scan, if_neg hhex, hx, hscan]; rfl, fun t ↦ ?_⟩
        have hnext : closeQuote false (token ++ t) = some (token, t) := hclose t
        simp [closeQuote, Mode.skips, hnext]
    | hex digits value =>
      rw [scan] at h
      obtain ⟨d, hd, h⟩ := Option.bind_eq_some_iff.1 h
      obtain ⟨hescape, hquote⟩ := hexValue_ne hd
      split at h
      · next hlast =>
        obtain ⟨r, hr, heq⟩ := Option.map_eq_some_iff.1 h
        cases heq
        obtain ⟨token, rfl, hscan, hclose⟩ := ih hr
        refine ⟨c :: token, rfl, by rw [scan, hd, Option.bind_some, if_pos hlast, hscan]; rfl,
          fun t ↦ ?_⟩
        have hnext : closeQuote false (token ++ t) = some (token, t) := hclose t
        simp [closeQuote, Mode.skips, hquote, hescape, hnext]
      · next hlast =>
        obtain ⟨token, rfl, hscan, hclose⟩ := ih h
        refine ⟨c :: token, rfl, by rw [scan, hd, Option.bind_some, if_neg hlast, hscan],
          fun t ↦ ?_⟩
        have hnext : closeQuote false (token ++ t) = some (token, t) := hclose t
        simp [closeQuote, Mode.skips, hquote, hescape, hnext]

/-- What the scanner cuts out loads exactly if it is a JSON string. -/
theorem loads_token {value : CodePoints} (h : closeQuote false s = some (token, rest)) :
    loads (34 :: token) = some value ↔ Denotes (34 :: token) value := by
  constructor
  · intro hloads
    obtain ⟨r, hr, hvalue⟩ := Option.bind_eq_some_iff.1 hloads
    obtain ⟨pre, rfl, hscan, hcut⟩ := scan_closeQuote hr
    have hself := (closeQuote_append h).2 []
    rw [List.append_nil, show closeQuote false (pre ++ r.2) = some (pre, r.2) from hcut r.2] at hself
    obtain ⟨hpre, hrest⟩ := Prod.mk.inj (Option.some.inj hself)
    rw [← hpre]
    rw [hrest] at hvalue
    exact ⟨pre, r.1, rfl, hscan, (Option.some.inj hvalue).symm⟩
  · rintro ⟨body, units, heq, hscan, rfl⟩
    cases heq
    rw [loads, hscan]
    rfl

/-- The scanner finds a JSON string at the head of a text. -/
theorem Denotes.closeQuote {value : CodePoints} (h : Denotes token value) (t : CodePoints) :
    ∃ body, token = 34 :: body ∧ JsonString.closeQuote false (body ++ t) = some (body, t) := by
  obtain ⟨body, units, rfl, hscan, -⟩ := h
  obtain ⟨pre, hpre, -, hcut⟩ := scan_closeQuote hscan
  rw [List.append_nil] at hpre
  exact ⟨body, rfl, hpre ▸ hcut t⟩

/-- The unit that a printed code point is read back as. -/
def unitOf (c : ℕ) : JsonUnit :=
  if c < 32 ∧ c ≠ 8 ∧ c ≠ 12 ∧ c ≠ 10 ∧ c ≠ 13 ∧ c ≠ 9 then .code c else .plain c

theorem join_eq_map (h : ∀ u, .code u ∈ units → isHigh u = false) :
    join units = units.map JsonUnit.value := by
  induction units using join.induct with
  | case1 => rfl
  | case2 x => rfl
  | case3 u v rest hpair =>
    rw [h u List.mem_cons_self] at hpair
    cases hpair
  | case4 u v rest hpair ih =>
    rw [join, if_neg hpair, ih fun u hu ↦ h u (List.mem_cons_of_mem _ hu)]
    rfl
  | case5 x y rest hnot ih =>
    rw [join, ih fun u hu ↦ h u (List.mem_cons_of_mem _ hu)]
    · rfl
    · exact hnot

theorem hexValue_hexDigit {n : ℕ} (h : n < 16) : hexValue (hexDigit n) = some n := by
  rw [hexDigit]
  split
  · next hlt =>
    rw [hexValue, if_pos (by omega)]
    exact congrArg some (by omega)
  · next hge =>
    rw [hexValue, if_neg (by omega), if_neg (by omega), if_pos (by omega)]
    exact congrArg some (by omega)

/-- A simple escape is read as one unit. -/
theorem scan_escaped {c x : ℕ} (hc : c ≠ 117) (hx : unescape c = some x) (s : CodePoints) :
    scan .plain (92 :: c :: s) = (scan .plain s).map fun r ↦ (.plain x :: r.1, r.2) := by
  rw [scan, if_neg (by decide), if_pos rfl, scan, if_neg hc, hx]
  rfl

theorem scan_control {c : ℕ} (hc : c < 32) (s : CodePoints) :
    scan .plain (92 :: 117 :: 48 :: 48 :: hexDigit (c / 16) :: hexDigit (c % 16) :: s) =
      (scan .plain s).map fun r ↦ (.code c :: r.1, r.2) := by
  have hhigh : hexValue (hexDigit (c / 16)) = some (c / 16) := hexValue_hexDigit (by omega)
  have hlow : hexValue (hexDigit (c % 16)) = some (c % 16) := hexValue_hexDigit (by omega)
  have hzero : hexValue 48 = some 0 := rfl
  have hvalue : c / 16 * 16 + c % 16 = c := by omega
  simp [scan, hhigh, hlow, hzero, hvalue]

theorem scan_escapeCode (c : ℕ) (s : CodePoints) :
    scan .plain (escapeCode c ++ s) = (scan .plain s).map fun r ↦ (unitOf c :: r.1, r.2) := by
  rw [escapeCode]
  split
  · next hquote =>
    have hunit : unitOf c = .plain c := if_neg (by omega)
    rw [hunit]
    rcases hquote with rfl | rfl
    · exact scan_escaped (by decide) rfl s
    · exact scan_escaped (by decide) rfl s
  · next hquote =>
    split
    · next h => exact h ▸ scan_escaped (by decide) rfl s
    · split
      · next h => exact h ▸ scan_escaped (by decide) rfl s
      · split
        · next h => exact h ▸ scan_escaped (by decide) rfl s
        · split
          · next h => exact h ▸ scan_escaped (by decide) rfl s
          · split
            · next h => exact h ▸ scan_escaped (by decide) rfl s
            · split
              · next hcontrol =>
                have hunit : unitOf c = .code c := if_pos (by omega)
                rw [hunit]
                exact scan_control hcontrol s
              · next hcontrol =>
                have hunit : unitOf c = .plain c := if_neg (by omega)
                rw [not_or] at hquote
                rw [hunit, List.singleton_append, scan, if_neg hquote.1, if_neg hquote.2,
                  if_neg hcontrol]

theorem unitOf_value (c : ℕ) : (unitOf c).value = c := by
  rw [unitOf]
  split <;> rfl

/-- A printed string denotes its value. -/
theorem denotes_dumps (value : CodePoints) : Denotes (dumps value) value := by
  have hscan : scan .plain (value.flatMap escapeCode ++ [34]) = some (value.map unitOf, []) := by
    induction value with
    | nil => rfl
    | cons c value ih =>
      rw [List.flatMap_cons, List.append_assoc, scan_escapeCode, ih]
      rfl
  have hsmall : ∀ u, .code u ∈ value.map unitOf → isHigh u = false := by
    intro u hu
    obtain ⟨c, -, hc⟩ := List.mem_map.1 hu
    have hvalue := congrArg JsonUnit.value hc
    rw [unitOf_value] at hvalue
    rw [unitOf] at hc
    split at hc
    · next hcontrol =>
      rw [isHigh, Bool.and_eq_false_iff]
      refine .inl (decide_eq_false ?_)
      have : c = u := hvalue
      omega
    · cases hc
  refine ⟨_, _, rfl, hscan, ?_⟩
  rw [join_eq_map hsmall, List.map_map]
  exact (List.map_id'' unitOf_value value).symm

end JsonString

end Tiqora.Foundation
