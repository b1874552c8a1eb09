import Mathlib.Data.List.DropRight

namespace Tiqora.Foundation

instance lawfulText : LawfulBEq (List Char) := inferInstance

/-- The white space of `str.strip`, `str.isspace` and the pattern `\s`. -/
def isSpace (c : Char) : Bool :=
  let n := c.toNat
  (9 ≤ n && n ≤ 13) || (28 ≤ n && n ≤ 32) || n = 0x85 || n = 0xA0 || n = 0x1680 ||
    (0x2000 ≤ n && n ≤ 0x200A) || n = 0x2028 || n = 0x2029 || n = 0x202F || n = 0x205F || n = 0x3000

def strip (s : List Char) : List Char := (s.dropWhile isSpace).rdropWhile isSpace

/-- What patterns with `re.IGNORECASE` compare: only letters have other cases. -/
structure CaseFolding where
  lower : Char → Char
  caseless : ∀ c d, lower c = lower d → d.toNat < 128 → d.isAlpha = false → c = d

def CaseFolding.same (folding : CaseFolding) (c d : Char) : Bool :=
  folding.lower c = folding.lower d

/-- The zeros of Unicode's decimal digits. -/
def digitZeros : List ℕ :=
  [0x30, 0x660, 0x6F0, 0x7C0, 0x966, 0x9E6, 0xA66, 0xAE6, 0xB66, 0xBE6, 0xC66, 0xCE6, 0xD66, 0xDE6,
    0xE50, 0xED0, 0xF20, 0x1040, 0x1090, 0x17E0, 0x1810, 0x1946, 0x19D0, 0x1A80, 0x1A90, 0x1B50,
    0x1BB0, 0x1C40, 0x1C50, 0xA620, 0xA8D0, 0xA900, 0xA9D0, 0xA9F0, 0xAA50, 0xABF0, 0xFF10, 0x104A0,
    0x10D30, 0x11066, 0x110F0, 0x11136, 0x111D0, 0x112F0, 0x11450, 0x114D0, 0x11650, 0x116C0,
    0x11730, 0x118E0, 0x11950, 0x11C50, 0x11D50, 0x11DA0, 0x11F50, 0x16A60, 0x16AC0, 0x16B50,
    0x1D7CE, 0x1D7D8, 0x1D7E2, 0x1D7EC, 0x1D7F6, 0x1E140, 0x1E2F0, 0x1E4F0, 0x1E950, 0x1FBF0]

/-- `int(c)` of one character. -/
def digitValue (c : Char) : Option ℕ :=
  (digitZeros.find? fun start ↦ start ≤ c.toNat && c.toNat < start + 10).map fun start ↦
    c.toNat - start

/-- The pattern `\d`. -/
def isDigit (c : Char) : Bool := (digitValue c).isSome

/-- The digits beside the decimal ones, such as superscripts, as first and last. -/
def digitForms : List (ℕ × ℕ) :=
  [(0xB2, 0xB3), (0xB9, 0xB9), (0x1369, 0x1371), (0x19DA, 0x19DA), (0x2070, 0x2070),
    (0x2074, 0x2079), (0x2080, 0x2089), (0x2460, 0x2468), (0x2474, 0x247C), (0x2488, 0x2490),
    (0x24EA, 0x24EA), (0x24F5, 0x24FD), (0x24FF, 0x24FF), (0x2776, 0x277E), (0x2780, 0x2788),
    (0x278A, 0x2792), (0x10A40, 0x10A43), (0x10E60, 0x10E68), (0x11052, 0x1105A),
    (0x1F100, 0x1F10A)]

/-- `str.isdigit` of one character. -/
def isDigitForm (c : Char) : Bool :=
  isDigit c || digitForms.any fun (first, last) ↦ first ≤ c.toNat && c.toNat ≤ last

theorem forall_of_all {p : Char → Prop} [DecidablePred p] {s : List Char}
    (h : s.all fun c ↦ p c) : ∀ c ∈ s, p c :=
  fun c hc ↦ of_decide_eq_true (List.all_eq_true.1 h c hc)

theorem isDigit_of_ascii {c : Char} (h : c.isDigit = true) : isDigit c = true := by
  rw [Char.isDigit, Bool.and_eq_true, decide_eq_true_eq, decide_eq_true_eq] at h
  rw [isDigit, digitValue, Option.isSome_map, List.find?_isSome]
  refine ⟨0x30, by decide, ?_⟩
  rw [Bool.and_eq_true, decide_eq_true_eq, decide_eq_true_eq]
  exact ⟨h.1, Nat.lt_succ_of_le h.2⟩

theorem not_space_of_digit {c : Char} (h : c.isDigit = true) : isSpace c = false := by
  rw [Char.isDigit, Bool.and_eq_true, decide_eq_true_eq, decide_eq_true_eq] at h
  have hlow : 48 ≤ c.toNat := h.1
  have hhigh : c.toNat ≤ 57 := h.2
  simp only [isSpace, Bool.or_eq_false_iff, Bool.and_eq_false_iff, decide_eq_false_iff_not]
  omega

/-- `str.zfill` of the digits of a number. -/
def zfill (width n : ℕ) : List Char :=
  List.replicate (width - (Nat.toDigits 10 n).length) '0' ++ Nat.toDigits 10 n

theorem length_zfill (width n : ℕ) :
    (zfill width n).length = max width (Nat.toDigits 10 n).length := by
  rw [zfill, List.length_append, List.length_replicate]
  omega

theorem isDigit_toDigits (n : ℕ) : ∀ c ∈ Nat.toDigits 10 n, isDigit c = true := fun _ hc ↦
  isDigit_of_ascii (Nat.isDigit_of_mem_toDigits (by decide) (by decide) hc)

theorem isDigit_zfill (width n : ℕ) : ∀ c ∈ zfill width n, isDigit c = true := by
  intro c hc
  rcases List.mem_append.1 hc with hzero | hdigit
  · rw [List.eq_of_mem_replicate hzero]
    exact isDigit_of_ascii rfl
  · exact isDigit_toDigits n c hdigit

theorem strip_of_ends {s : List Char} (hhead : ∀ c ∈ s.head?, isSpace c = false)
    (hlast : ∀ c ∈ s.getLast?, isSpace c = false) : strip s = s := by
  have hdrop : s.dropWhile isSpace = s := by
    cases s with
    | nil => rfl
    | cons c s => rw [List.dropWhile_cons_of_neg (by rw [hhead c rfl]; decide)]
  rw [strip, hdrop, List.rdropWhile_eq_self_iff]
  intro hne
  rw [hlast _ (List.getLast?_eq_some_getLast hne)]
  decide

theorem strip_eq_self {s : List Char} (h : ∀ c ∈ s, isSpace c = false) : strip s = s :=
  strip_of_ends (fun c hc ↦ h c (List.mem_of_mem_head? hc)) fun c hc ↦ h c (List.mem_of_getLast? hc)

theorem strip_ends (s : List Char) : (∀ c ∈ (strip s).head?, isSpace c = false) ∧
    ∀ c ∈ (strip s).getLast?, isSpace c = false := by
  refine ⟨fun c hc ↦ ?_, fun c hc ↦ ?_⟩
  · obtain ⟨t, ht⟩ := List.rdropWhile_prefix isSpace (l := s.dropWhile isSpace)
    have hhead : (s.dropWhile isSpace).head? = some c := by
      rw [← ht, List.head?_append, ← strip, Option.mem_def.1 hc]
      rfl
    have hnot := List.head?_dropWhile_not isSpace s
    rw [hhead] at hnot
    exact hnot
  · cases hs : strip s with
    | nil =>
      rw [hs] at hc
      cases hc
    | cons d t =>
      have hne : strip s ≠ [] := by
        rw [hs]
        exact List.cons_ne_nil d t
      rw [List.getLast?_eq_some_getLast hne] at hc
      cases hc
      exact Bool.eq_false_iff.2 (List.rdropWhile_last_not isSpace _ hne)

theorem strip_strip (s : List Char) : strip (strip s) = strip s :=
  strip_of_ends (strip_ends s).1 (strip_ends s).2

theorem strip_ne_nil {c : Char} {s : List Char} (h : isSpace c = false) : strip (c :: s) ≠ [] := by
  rw [strip, List.dropWhile_cons_of_neg (by rw [h]; exact Bool.false_ne_true), Ne,
    List.rdropWhile_eq_nil_iff]
  intro hall
  have hc := hall c List.mem_cons_self
  rw [h] at hc
  exact Bool.false_ne_true hc

end Tiqora.Foundation
