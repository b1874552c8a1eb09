import Mathlib.Data.List.Dedup
import Mathlib.Data.List.Sort
import Tiqora.Foundation.JsonString
import Tiqora.Foundation.Replace

namespace Tiqora.Gi.Redact

open Foundation JsonString

def mask : CodePoints := codes "***"

def minSecretLength : ℕ := 4

/-- The order in which a set gives its elements. -/
structure IterationOrder where
  run : List CodePoints → List CodePoints
  perm : ∀ l, (run l).Perm l

/-- `sorted(…, key=len, reverse=True)`. -/
def longestFirst (l : List CodePoints) : List CodePoints :=
  l.mergeSort fun s t ↦ t.length ≤ s.length

/-- One unit of UTF-16 as an escape. -/
def escapeUnit (u : ℕ) : CodePoints :=
  [92, 117, hexDigit (u / 0x1000), hexDigit (u / 0x100 % 16), hexDigit (u / 16 % 16),
    hexDigit (u % 16)]

/-- What stands for a code point in a printed string of ASCII only. -/
def escapeAscii (c : ℕ) : CodePoints :=
  if c < 0x7F then escapeCode c
  else if c < 0x10000 then escapeUnit c
  else escapeUnit (0xD800 + (c - 0x10000) / 0x400) ++ escapeUnit (0xDC00 + (c - 0x10000) % 0x400)

/-- `json.dumps(secret, ensure_ascii=asciiOnly)`. -/
def jsonDumps (asciiOnly : Bool) (secret : CodePoints) : CodePoints :=
  if asciiOnly then 34 :: secret.flatMap escapeAscii ++ [34] else dumps secret

/-- `json.dumps(…)[1:-1]`. -/
def escapedForm (asciiOnly : Bool) (secret : CodePoints) : CodePoints :=
  ((jsonDumps asciiOnly secret).drop 1).dropLast

/-- A secret and its escaped forms. -/
def variants (secret : CodePoints) : List CodePoints :=
  [false, true].foldl (fun found asciiOnly ↦
    let escaped := escapedForm asciiOnly secret
    if escaped ∈ found then found else found ++ [escaped]) [secret]

section Redact

variable (order : IterationOrder)

/-- The distinct secrets that are long enough, longest first. -/
def usable (secrets : List CodePoints) : List CodePoints :=
  longestFirst (order.run (secrets.filter (minSecretLength ≤ ·.length)).dedup)

def allVariants (secrets : List CodePoints) : List CodePoints :=
  longestFirst (order.run ((usable order secrets).flatMap variants).dedup)

def redactText (text : CodePoints) (secrets : List CodePoints) : CodePoints :=
  (allVariants order secrets).foldl (fun text value ↦ replaceAll value mask text) text

end Redact

def asterisk : ℕ := 42

theorem mask_ne_nil : mask ≠ [] := List.cons_ne_nil _ _

theorem clear_mask {s : CodePoints} (h : asterisk ∉ s) : Clear mask s := by
  intro c hc hs
  have hstar : c = asterisk := List.eq_of_mem_replicate (n := 3) hc
  exact h (hstar ▸ hs)

theorem asterisk_ne_hexDigit (n : ℕ) : asterisk ≠ hexDigit n := by
  rw [hexDigit, asterisk]
  split <;> omega

theorem asterisk_notMem_escapeCode {c : ℕ} (h : asterisk ≠ c) : asterisk ∉ escapeCode c := by
  have hdigit := asterisk_ne_hexDigit
  rw [escapeCode]
  repeat' split
  all_goals simp only [List.mem_cons, List.not_mem_nil, or_false, not_or]
  all_goals simp only [asterisk] at h hdigit ⊢
  all_goals grind

theorem asterisk_notMem_escapeUnit (u : ℕ) : asterisk ∉ escapeUnit u := by
  simp only [escapeUnit, List.mem_cons, List.not_mem_nil, or_false, not_or]
  refine ⟨by decide, by decide, ?_, ?_, ?_, ?_⟩ <;> exact asterisk_ne_hexDigit _

theorem asterisk_notMem_escapeAscii {c : ℕ} (h : asterisk ≠ c) : asterisk ∉ escapeAscii c := by
  rw [escapeAscii]
  split
  · exact asterisk_notMem_escapeCode h
  · split
    · exact asterisk_notMem_escapeUnit c
    · rw [List.mem_append, not_or]
      exact ⟨asterisk_notMem_escapeUnit _, asterisk_notMem_escapeUnit _⟩

theorem escapeCode_ne_nil (c : ℕ) : escapeCode c ≠ [] := by
  rw [escapeCode]
  repeat' split
  all_goals exact List.cons_ne_nil _ _

theorem escapeAscii_ne_nil (c : ℕ) : escapeAscii c ≠ [] := by
  rw [escapeAscii]
  repeat' split
  · exact escapeCode_ne_nil c
  · exact List.cons_ne_nil _ _
  · exact List.cons_ne_nil _ _

theorem escapedForm_eq (asciiOnly : Bool) (secret : CodePoints) :
    escapedForm asciiOnly secret =
      secret.flatMap (if asciiOnly then escapeAscii else escapeCode) := by
  cases asciiOnly with
  | false => exact List.dropLast_concat
  | true => exact List.dropLast_concat

theorem asterisk_notMem_escapedForm {asciiOnly : Bool} {secret : CodePoints}
    (h : asterisk ∉ secret) : asterisk ∉ escapedForm asciiOnly secret := by
  rw [escapedForm_eq]
  intro hmem
  obtain ⟨c, hc, hmem⟩ := List.mem_flatMap.1 hmem
  have hne : asterisk ≠ c := fun heq ↦ h (heq ▸ hc)
  cases asciiOnly with
  | false => exact asterisk_notMem_escapeCode hne hmem
  | true => exact asterisk_notMem_escapeAscii hne hmem

theorem escapedForm_ne_nil {asciiOnly : Bool} {secret : CodePoints} (h : secret ≠ []) :
    escapedForm asciiOnly secret ≠ [] := by
  obtain ⟨c, secret, rfl⟩ := List.exists_cons_of_ne_nil h
  rw [escapedForm_eq, List.flatMap_cons]
  refine List.append_ne_nil_of_left_ne_nil ?_ _
  cases asciiOnly with
  | false => exact escapeCode_ne_nil c
  | true => exact escapeAscii_ne_nil c

theorem mem_variants {secret value : CodePoints} :
    value ∈ variants secret ↔ value = secret ∨ ∃ asciiOnly, value =
      escapedForm asciiOnly secret := by
  have hstep : ∀ (found : List CodePoints) (escaped : CodePoints),
      value ∈ (if escaped ∈ found then found else found ++ [escaped]) ↔
        value ∈ found ∨ value = escaped := by
    intro found escaped
    split
    · next h => exact ⟨.inl, fun hv ↦ hv.elim id fun heq ↦ heq ▸ h⟩
    · rw [List.mem_append, List.mem_singleton]
  rw [variants, List.foldl_cons, List.foldl_cons, List.foldl_nil]
  dsimp only
  rw [hstep, hstep, List.mem_singleton, Bool.exists_bool, or_assoc]

theorem mem_longestFirst {l : List CodePoints} {s : CodePoints} : s ∈ longestFirst l ↔ s ∈ l :=
  List.mem_mergeSort

variable {order : IterationOrder} {secrets : List CodePoints}

/-- Whatever the order, every form of every secret that is long enough is replaced. -/
theorem mem_allVariants {value : CodePoints} : value ∈ allVariants order secrets ↔
    ∃ s ∈ secrets, minSecretLength ≤ s.length ∧ value ∈ variants s := by
  rw [allVariants, mem_longestFirst, (order.perm _).mem_iff, List.mem_dedup, List.mem_flatMap]
  refine exists_congr fun s ↦ ?_
  rw [usable, mem_longestFirst, (order.perm _).mem_iff, List.mem_dedup, List.mem_filter,
    decide_eq_true_eq, and_assoc]

/-- What is hidden behind a mask: a secret that is long enough, or an escaped form of it. -/
def Hidden (secrets : List CodePoints) (value : CodePoints) : Prop :=
  ∃ s ∈ secrets, minSecretLength ≤ s.length ∧ (value = s ∨ ∃ asciiOnly, value =
    escapedForm asciiOnly s)

theorem Hidden.ne_nil {value : CodePoints} (h : Hidden secrets value) : value ≠ [] := by
  obtain ⟨s, -, hlen, hvalue⟩ := h
  have hs : s ≠ [] := List.length_pos_iff.1 (lt_of_lt_of_le (by decide) hlen)
  rcases hvalue with rfl | ⟨asciiOnly, rfl⟩
  · exact hs
  · exact escapedForm_ne_nil hs

theorem Hidden.clear {value : CodePoints} (h : Hidden secrets value)
    (hplain : ∀ s ∈ secrets, asterisk ∉ s) : Clear mask value := by
  obtain ⟨s, hs, -, hvalue⟩ := h
  rcases hvalue with rfl | ⟨asciiOnly, rfl⟩
  · exact clear_mask (hplain value hs)
  · exact clear_mask (asterisk_notMem_escapedForm (hplain s hs))

example : replaceAll (codes "p\\\"ss") mask (codes "ap\\\"ssp\\\"ssb") =
  codes "a******b" := by decide

/-- Replacements one after another: each value is gone for good, and the text is kept elsewhere. -/
theorem foldl_replaceAll {text shown : CodePoints} {values : List CodePoints}
    (hvalues : ∀ v ∈ values, v ≠ [] ∧ Clear mask v) {P : CodePoints → Prop}
    (hP : ∀ v ∈ values, P v) (hcovers : Covers P mask text shown) :
    Covers P mask text (values.foldl (fun text value ↦ replaceAll value mask text) shown) ∧
      (∀ v ∈ values, ¬ v <:+: values.foldl (fun text value ↦ replaceAll value mask text) shown) ∧
        ∀ v, Clear mask v → ¬ v <:+: shown →
          ¬ v <:+: values.foldl (fun text value ↦ replaceAll value mask text) shown := by
  induction values generalizing shown with
  | nil => exact ⟨hcovers, fun _ hv ↦ absurd hv List.not_mem_nil, fun _ _ h ↦ h⟩
  | cons value values ih =>
    obtain ⟨hne, hclear⟩ := hvalues value List.mem_cons_self
    have hnext := hcovers.replaceAll hne (hP value List.mem_cons_self) mask_ne_nil hclear
    obtain ⟨hcovers', hgone, hstill⟩ := ih (fun v hv ↦ hvalues v (List.mem_cons_of_mem _ hv))
      (fun v hv ↦ hP v (List.mem_cons_of_mem _ hv)) hnext
    rw [List.foldl_cons]
    refine ⟨hcovers', List.forall_mem_cons.2 ⟨?_, hgone⟩, fun v hv h ↦ hstill v hv fun hin ↦ ?_⟩
    · exact hstill value hclear (not_infix_replaceAll hne mask_ne_nil hclear)
    · exact h (infix_of_infix_replaceAll hne mask_ne_nil hv hin)

/-- No known secret is left, and what is shown between the masks stands in the text. -/
theorem redactText_hides (order : IterationOrder) (text : CodePoints) (secrets : List CodePoints)
    (hplain : ∀ s ∈ secrets, asterisk ∉ s) :
    (∀ s ∈ secrets, minSecretLength ≤ s.length →
      ¬ s <:+: redactText order text secrets ∧
        ∀ asciiOnly, ¬ escapedForm asciiOnly s <:+: redactText order text secrets) ∧
    ∃ (first : CodePoints) (rest : List (CodePoints × CodePoints)),
      text = first ++ rest.flatMap (fun p ↦ p.1 ++ p.2) ∧
      redactText order text secrets = first ++ rest.flatMap (fun p ↦ mask ++ p.2) ∧
      (∀ p ∈ rest, Hidden secrets p.1) ∧
      first <:+: text ∧ ∀ p ∈ rest, p.2 <:+: text := by
  have hhidden : ∀ v ∈ allVariants order secrets, Hidden secrets v := by
    intro v hv
    obtain ⟨s, hs, hlen, hv⟩ := mem_allVariants.1 hv
    exact ⟨s, hs, hlen, mem_variants.1 hv⟩
  have hstart : Covers (Hidden secrets) mask text text := .refl text
  obtain ⟨hcovers, hgone, -⟩ := foldl_replaceAll
    (fun v hv ↦ ⟨(hhidden v hv).ne_nil, (hhidden v hv).clear hplain⟩) hhidden hstart
  refine ⟨fun s hs hlen ↦ ⟨hgone s ?_, fun asciiOnly ↦ hgone _ ?_⟩, ?_⟩
  · exact mem_allVariants.2 ⟨s, hs, hlen, mem_variants.2 (.inl rfl)⟩
  · exact mem_allVariants.2 ⟨s, hs, hlen, mem_variants.2 (.inr ⟨asciiOnly, rfl⟩)⟩
  · obtain ⟨first, rest, htext, hshown, hrest⟩ := hcovers.parts
    refine ⟨first, rest, htext, hshown, hrest, ?_, fun p hp ↦ ?_⟩
    · rw [htext]
      exact (List.prefix_append _ _).isInfix
    · obtain ⟨before, after, hsplit⟩ := List.append_of_mem hp
      rw [htext, hsplit, List.flatMap_append, List.flatMap_cons]
      exact ⟨first ++ (before.flatMap (fun p ↦ p.1 ++ p.2) ++ p.1),
        after.flatMap (fun p ↦ p.1 ++ p.2), by simp only [List.append_assoc]⟩

def anyOrder : IterationOrder := ⟨id, fun l ↦ .refl l⟩

theorem redactText_hides_sample :
    ¬ codes "p\"ss" <:+: redactText anyOrder (codes "a=p\\\"ss") [codes "p\"ss"] :=
  ((redactText_hides anyOrder (codes "a=p\\\"ss") [codes "p\"ss"]
    (List.forall_mem_singleton.2 (by decide))).1 (codes "p\"ss") List.mem_cons_self (by decide)).1

end Tiqora.Gi.Redact
