import Mathlib.Data.List.Basic
import Mathlib.Data.Nat.Notation

namespace Tiqora.Foundation

variable {α σ : Type}

/-- Patterns as a backtracking engine reads them. `rep` is greedy, and its body consumes. -/
inductive Regex (α : Type)
  | one (p : α → Bool)
  | seq (r r' : Regex α)
  | alt (r r' : Regex α)
  | rep (r : Regex α) (low : ℕ) (high : Option ℕ)
  | boundary
  | start
  | stop
  | notBehind (p : α → Bool)
  | notAhead (r : Regex α)

/-- A place in a text; what lies behind it begins with the nearest. -/
structure Cursor (α : Type) where
  behind : List α
  ahead : List α

/-- A match and where in its text it lies. -/
structure Match (α : Type) where
  behind : List α
  value : List α
  ahead : List α

/-- Exactly `n` turns. -/
def turns (f : Cursor α → List (Cursor α)) : ℕ → Cursor α → List (Cursor α)
  | 0, c => [c]
  | n + 1, c => (f c).flatMap (turns f n)

/-- Up to `n` turns, more of them first. -/
def upTo (f : Cursor α → List (Cursor α)) : ℕ → Cursor α → List (Cursor α)
  | 0, c => [c]
  | n + 1, c => (f c).flatMap (upTo f n) ++ [c]

namespace Regex

/-- Where the matches that begin at a place end, in the order in which they are tried. `word` says
what `\b` takes for a letter. -/
def ends (word : α → Bool) : Regex α → Cursor α → List (Cursor α)
  | one p, c =>
    match c.ahead with
    | a :: ahead => if p a then [⟨a :: c.behind, ahead⟩] else []
    | [] => []
  | seq r r', c => (r.ends word c).flatMap (r'.ends word)
  | alt r r', c => r.ends word c ++ r'.ends word c
  | rep r low high, c =>
    (turns (r.ends word) low c).flatMap fun c' ↦
      upTo (r.ends word) (match high with | some n => n - low | none => c'.ahead.length) c'
  | boundary, c => if c.behind.head?.any word = c.ahead.head?.any word then [] else [c]
  | start, c => if c.behind.isEmpty then [c] else []
  | stop, c => if c.ahead.isEmpty then [c] else []
  | notBehind p, c => if c.behind.head?.any p then [] else [c]
  | notAhead r, c => if (r.ends word c).isEmpty then [c] else []

def option (r : Regex α) : Regex α := rep r 0 (some 1)

def star (r : Regex α) : Regex α := rep r 0 none

def plus (r : Regex α) : Regex α := rep r 1 none

def exactly (r : Regex α) (n : ℕ) : Regex α := rep r n (some n)

def all : List (Regex α) → Regex α
  | [] => notBehind fun _ ↦ false
  | r :: rs => seq r (all rs)

def any : List (Regex α) → Regex α
  | [] => one fun _ ↦ false
  | r :: rs => alt r (any rs)

/-- The elements one after the other, as `same` compares them. -/
def literal (same : α → α → Bool) (s : List α) : Regex α := all (s.map fun a ↦ one (same a))

variable (word : α → Bool) (r : Regex α)

/-- `re.match` at a place. -/
def matchAt (c : Cursor α) : Option (Match α) :=
  (r.ends word c).head?.map fun c' ↦
    ⟨c.behind, c.ahead.take (c.ahead.length - c'.ahead.length), c'.ahead⟩

def isMatch (s : List α) : Bool := (r.matchAt word ⟨[], s⟩).isSome

def isFullmatch (s : List α) : Bool := (r.ends word ⟨[], s⟩).any fun c ↦ c.ahead.isEmpty

/-- `re.search` from a place on. -/
def isFoundIn (behind : List α) : List α → Bool
  | [] => (r.matchAt word ⟨behind, []⟩).isSome
  | a :: ahead => (r.matchAt word ⟨behind, a :: ahead⟩).isSome || isFoundIn (a :: behind) ahead

end Regex

/-- A text as its leftmost matches, the empty ones apart, and the elements between them. -/
def pieces (m : Cursor α → Option (Match α)) : ℕ → List α → List α → List (α ⊕ Match α)
  | _, _, [] => []
  | skip + 1, behind, a :: ahead => pieces m skip (a :: behind) ahead
  | 0, behind, a :: ahead =>
    match m ⟨behind, a :: ahead⟩ with
    | some found =>
      if found.value.isEmpty then .inl a :: pieces m 0 (a :: behind) ahead
      else .inr found :: pieces m (found.value.length - 1) (a :: behind) ahead
    | none => .inl a :: pieces m 0 (a :: behind) ahead

/-- `re.sub` with a function that keeps a state. -/
def substitute (f : σ → Match α → List α × σ) : σ → List (α ⊕ Match α) → List α × σ
  | s, [] => ([], s)
  | s, .inl a :: ps =>
    let (out, s') := substitute f s ps
    (a :: out, s')
  | s, .inr found :: ps =>
    let (value, s₁) := f s found
    let (out, s₂) := substitute f s₁ ps
    (value ++ out, s₂)

/-- `re.split`. -/
def splitPieces : List (α ⊕ Match α) → List (List α)
  | [] => [[]]
  | .inl a :: ps =>
    match splitPieces ps with
    | part :: parts => (a :: part) :: parts
    | [] => [[a]]
  | .inr _ :: ps => [] :: splitPieces ps

namespace Regex

variable {word : α → Bool} {P : α → Prop} {r : Regex α} {c c' : Cursor α}

/-- All that a match can consume meets `P`. -/
def Within (P : α → Prop) : Regex α → Prop
  | one p => ∀ a, p a = true → P a
  | seq r r' | alt r r' => r.Within P ∧ r'.Within P
  | rep r _ _ => r.Within P
  | boundary | start | stop | notBehind _ | notAhead _ => True

/-- Every match consumes something that meets `P`. -/
def Needs (P : α → Prop) : Regex α → Prop
  | one p => ∀ a, p a = true → P a
  | seq r r' => r.Needs P ∨ r'.Needs P
  | alt r r' => r.Needs P ∧ r'.Needs P
  | rep r low _ => 0 < low ∧ r.Needs P
  | boundary | start | stop | notBehind _ | notAhead _ => False

end Regex

/-- The text between two places. -/
def Cursor.Reads (c c' : Cursor α) (w : List α) : Prop :=
  c'.behind = w.reverse ++ c.behind ∧ c.ahead = w ++ c'.ahead

theorem Cursor.Reads.nil (c : Cursor α) : c.Reads c [] := ⟨rfl, rfl⟩

theorem Cursor.Reads.unique {c c' : Cursor α} {w w' : List α} (h : c.Reads c' w)
    (h' : c.Reads c' w') : w = w' := List.append_cancel_right (h.2.symm.trans h'.2)

theorem Cursor.Reads.append {c c' c'' : Cursor α} {w w' : List α} (h : c.Reads c' w)
    (h' : c'.Reads c'' w') : c.Reads c'' (w ++ w') := by
  refine ⟨?_, ?_⟩
  · rw [h'.1, h.1, List.reverse_append, List.append_assoc]
  · rw [h.2, h'.2, List.append_assoc]

/-- What single turns read, several turns read. -/
theorem turns_reads {f : Cursor α → List (Cursor α)} {P : α → Prop}
    (hf : ∀ c, ∀ c' ∈ f c, ∃ w, c.Reads c' w ∧ ∀ a ∈ w, P a) {n : ℕ} {c c' : Cursor α}
    (h : c' ∈ turns f n c) : ∃ w, c.Reads c' w ∧ ∀ a ∈ w, P a := by
  induction n generalizing c with
  | zero =>
    rw [List.mem_singleton.1 h]
    exact ⟨[], .nil c, fun _ h ↦ by cases h⟩
  | succ n ih =>
    obtain ⟨c₁, h₁, h⟩ := List.mem_flatMap.1 h
    obtain ⟨w₁, hr₁, hw₁⟩ := hf c c₁ h₁
    obtain ⟨w, hr, hw⟩ := ih h
    exact ⟨w₁ ++ w, hr₁.append hr, List.forall_mem_append.2 ⟨hw₁, hw⟩⟩

theorem upTo_reads {f : Cursor α → List (Cursor α)} {P : α → Prop}
    (hf : ∀ c, ∀ c' ∈ f c, ∃ w, c.Reads c' w ∧ ∀ a ∈ w, P a) {n : ℕ} {c c' : Cursor α}
    (h : c' ∈ upTo f n c) : ∃ w, c.Reads c' w ∧ ∀ a ∈ w, P a := by
  induction n generalizing c with
  | zero =>
    rw [List.mem_singleton.1 h]
    exact ⟨[], .nil c, fun _ h ↦ by cases h⟩
  | succ n ih =>
    rcases List.mem_append.1 h with h | h
    · obtain ⟨c₁, h₁, h⟩ := List.mem_flatMap.1 h
      obtain ⟨w₁, hr₁, hw₁⟩ := hf c c₁ h₁
      obtain ⟨w, hr, hw⟩ := ih h
      exact ⟨w₁ ++ w, hr₁.append hr, List.forall_mem_append.2 ⟨hw₁, hw⟩⟩
    · rw [List.mem_singleton.1 h]
      exact ⟨[], .nil c, fun _ h ↦ by cases h⟩

namespace Regex

variable {word : α → Bool} {P : α → Prop} {r : Regex α} {c c' : Cursor α}

theorem Within.reads (h : r.Within P) (hc : c' ∈ r.ends word c) :
    ∃ w, c.Reads c' w ∧ ∀ a ∈ w, P a := by
  induction r generalizing c c' with
  | one p =>
    unfold ends at hc
    split at hc
    · rename_i a ahead hahead
      split at hc
      · rename_i hp
        rw [List.mem_singleton.1 hc]
        exact ⟨[a], ⟨rfl, hahead⟩, List.forall_mem_singleton.2 (h a hp)⟩
      · cases hc
    · cases hc
  | seq r r' ih ih' =>
    obtain ⟨c₁, h₁, hc⟩ := List.mem_flatMap.1 hc
    obtain ⟨w₁, hr₁, hw₁⟩ := ih h.1 h₁
    obtain ⟨w, hr, hw⟩ := ih' h.2 hc
    exact ⟨w₁ ++ w, hr₁.append hr, List.forall_mem_append.2 ⟨hw₁, hw⟩⟩
  | alt r r' ih ih' =>
    rcases List.mem_append.1 hc with hc | hc
    · exact ih h.1 hc
    · exact ih' h.2 hc
  | rep r low high ih =>
    obtain ⟨c₁, h₁, hc⟩ := List.mem_flatMap.1 hc
    obtain ⟨w₁, hr₁, hw₁⟩ := turns_reads (fun _ _ ↦ ih h) h₁
    obtain ⟨w, hr, hw⟩ := upTo_reads (fun _ _ ↦ ih h) hc
    exact ⟨w₁ ++ w, hr₁.append hr, List.forall_mem_append.2 ⟨hw₁, hw⟩⟩
  | boundary | start | stop | notBehind | notAhead =>
    have heq : c' = c := by
      unfold ends at hc
      split at hc <;> simpa using hc
    exact ⟨[], heq ▸ .nil c, fun _ h ↦ by cases h⟩

theorem within_true : r.Within fun _ ↦ True := by
  induction r with
  | one p => exact fun _ _ ↦ trivial
  | seq r r' ih ih' | alt r r' ih ih' => exact ⟨ih, ih'⟩
  | rep r low high ih => exact ih
  | boundary | start | stop | notBehind | notAhead => exact trivial

theorem Needs.reads (h : r.Needs P) (hc : c' ∈ r.ends word c) :
    ∃ w, c.Reads c' w ∧ ∃ a ∈ w, P a := by
  induction r generalizing c c' with
  | one p =>
    unfold ends at hc
    split at hc
    · rename_i a ahead hahead
      split at hc
      · rename_i hp
        rw [List.mem_singleton.1 hc]
        exact ⟨[a], ⟨rfl, hahead⟩, a, List.mem_singleton_self a, h a hp⟩
      · cases hc
    · cases hc
  | seq r r' ih ih' =>
    obtain ⟨c₁, h₁, hc⟩ := List.mem_flatMap.1 hc
    rcases h with h | h
    · obtain ⟨w₁, hr₁, a, ha, hP⟩ := ih h h₁
      obtain ⟨w, hr, -⟩ := within_true.reads hc
      exact ⟨w₁ ++ w, hr₁.append hr, a, List.mem_append_left _ ha, hP⟩
    · obtain ⟨w₁, hr₁, -⟩ := within_true.reads h₁
      obtain ⟨w, hr, a, ha, hP⟩ := ih' h hc
      exact ⟨w₁ ++ w, hr₁.append hr, a, List.mem_append_right _ ha, hP⟩
  | alt r r' ih ih' =>
    rcases List.mem_append.1 hc with hc | hc
    · exact ih h.1 hc
    · exact ih' h.2 hc
  | rep r low high ih =>
    obtain ⟨c₁, h₁, hc⟩ := List.mem_flatMap.1 hc
    obtain ⟨w, hr, -⟩ := upTo_reads (fun _ _ ↦ within_true.reads) hc
    cases low with
    | zero => exact absurd h.1 (Nat.lt_irrefl 0)
    | succ low =>
      obtain ⟨c₂, h₂, h₁⟩ := List.mem_flatMap.1 h₁
      obtain ⟨w₂, hr₂, a, ha, hP⟩ := ih h.2 h₂
      obtain ⟨w₁, hr₁, -⟩ := turns_reads (fun _ _ ↦ within_true.reads) h₁
      exact ⟨w₂ ++ w₁ ++ w, (hr₂.append hr₁).append hr, a,
        List.mem_append_left _ (List.mem_append_left _ ha), hP⟩
  | boundary | start | stop | notBehind | notAhead => exact h.elim

theorem within_all {rs : List (Regex α)} : (all rs).Within P ↔ ∀ r ∈ rs, r.Within P := by
  induction rs with
  | nil => simp [all, Within]
  | cons r rs ih => rw [all, Within, ih, List.forall_mem_cons]

theorem within_any {rs : List (Regex α)} : (any rs).Within P ↔ ∀ r ∈ rs, r.Within P := by
  induction rs with
  | nil => simp [any, Within]
  | cons r rs ih => rw [any, Within, ih, List.forall_mem_cons]

theorem needs_all {rs : List (Regex α)} : (all rs).Needs P ↔ ∃ r ∈ rs, r.Needs P := by
  induction rs with
  | nil => simp [all, Needs]
  | cons r rs ih => rw [all, Needs, ih, List.exists_mem_cons_iff]

theorem needs_any {rs : List (Regex α)} : (any rs).Needs P ↔ ∀ r ∈ rs, r.Needs P := by
  induction rs with
  | nil => simp [any, Needs]
  | cons r rs ih => rw [any, Needs, ih, List.forall_mem_cons]

theorem mem_ends_any {rs : List (Regex α)} :
    c' ∈ (any rs).ends word c ↔ ∃ r ∈ rs, c' ∈ r.ends word c := by
  induction rs with
  | nil =>
    have hnone : (any ([] : List (Regex α))).ends word c = [] := by
      rw [any, ends]
      split <;> rfl
    simp [hnone]
  | cons r rs ih => rw [any, ends, List.mem_append, ih, List.exists_mem_cons_iff]

theorem mem_ends_all_nil : c' ∈ (all []).ends word c ↔ c' = c := by simp [all, ends]

theorem mem_ends_all_cons {rs : List (Regex α)} :
    c' ∈ (all (r :: rs)).ends word c ↔ ∃ c₁ ∈ r.ends word c, c' ∈ (all rs).ends word c₁ :=
  List.mem_flatMap

theorem mem_ends_literal {same : α → α → Bool} {s : List α}
    (h : c' ∈ (literal same s).ends word c) :
    ∃ w, c.Reads c' w ∧ List.Forall₂ (fun a b ↦ same a b = true) s w := by
  induction s generalizing c with
  | nil =>
    exact ⟨[], mem_ends_all_nil.1 h ▸ .nil c, .nil⟩
  | cons a s ih =>
    obtain ⟨c₁, h₁, h⟩ := List.mem_flatMap.1 h
    obtain ⟨w, hr, hw⟩ := ih h
    unfold ends at h₁
    split at h₁
    · rename_i b ahead hahead
      split at h₁
      · rename_i hsame
        rw [List.mem_singleton.1 h₁] at hr
        have hone : c.Reads ⟨b :: c.behind, ahead⟩ [b] := ⟨rfl, hahead⟩
        exact ⟨b :: w, hone.append hr, .cons hsame hw⟩
      · cases h₁
    · cases h₁

theorem literal_mem_ends {same : α → α → Bool} (hsame : ∀ a, same a a = true) {s rest : List α}
    (h : c.ahead = s ++ rest) :
    ⟨s.reverse ++ c.behind, rest⟩ ∈ (literal same s).ends word c := by
  induction s generalizing c with
  | nil =>
    rw [List.nil_append] at h
    simp [literal, all, ends, ← h]
  | cons a s ih =>
    refine List.mem_flatMap.2 ⟨⟨a :: c.behind, s ++ rest⟩, ?_, ?_⟩
    · rw [List.cons_append] at h
      simp [ends, h, hsame]
    · have hmem := ih (c := ⟨a :: c.behind, s ++ rest⟩) rfl
      rwa [List.reverse_cons, List.append_assoc]

theorem matchAt_eq_some {found : Match α} (h : r.matchAt word c = some found) :
    ∃ c' ∈ r.ends word c, c.Reads c' found.value ∧ found.behind = c.behind ∧
      found.ahead = c'.ahead := by
  obtain ⟨c', hc', rfl⟩ := Option.map_eq_some_iff.1 h
  have hmem := List.mem_of_head? hc'
  obtain ⟨w, hr, -⟩ := within_true.reads hmem
  have hw : c.ahead.take (c.ahead.length - c'.ahead.length) = w := by
    rw [hr.2, List.length_append, Nat.add_sub_cancel, List.take_left]
  exact ⟨c', hmem, by rw [hw]; exact hr, rfl, rfl⟩

theorem matchAt_ne_none (h : c' ∈ r.ends word c) : r.matchAt word c ≠ none := by
  intro hnone
  rw [matchAt, Option.map_eq_none_iff, List.head?_eq_none_iff] at hnone
  rw [hnone] at h
  cases h

end Regex

theorem substitute_append {f : σ → Match α → List α × σ} {s : σ} {w : List α}
    {ps : List (α ⊕ Match α)} :
    substitute f s (w.map .inl ++ ps) = (w ++ (substitute f s ps).1, (substitute f s ps).2) := by
  induction w with
  | nil => rfl
  | cons a w ih => rw [List.map_cons, List.cons_append, substitute, ih, List.cons_append]

theorem pieces_of_none {m : Cursor α → Option (Match α)} {a : α} {behind ahead : List α}
    (h : m ⟨behind, a :: ahead⟩ = none) :
    pieces m 0 behind (a :: ahead) = .inl a :: pieces m 0 (a :: behind) ahead := by
  rw [pieces, h]

theorem pieces_skip {m : Cursor α → Option (Match α)} {w behind ahead : List α} :
    pieces m w.length behind (w ++ ahead) = pieces m 0 (w.reverse ++ behind) ahead := by
  induction w generalizing behind with
  | nil => rfl
  | cons a w ih =>
    rw [List.length_cons, List.cons_append, pieces, ih, List.reverse_cons, List.append_assoc]
    rfl

theorem pieces_of_some {m : Cursor α → Option (Match α)} {w behind ahead : List α}
    {found : Match α} (hw : found.value = w) (hne : w ≠ []) (h : m ⟨behind, w ++ ahead⟩ = some found) :
    pieces m 0 behind (w ++ ahead) = .inr found :: pieces m 0 (w.reverse ++ behind) ahead := by
  cases w with
  | nil => exact absurd rfl hne
  | cons a w =>
    have hempty : found.value.isEmpty = false := by rw [hw, List.isEmpty_cons]
    rw [List.cons_append] at h ⊢
    rw [pieces, h]
    dsimp only
    rw [hempty, hw, List.length_cons, Nat.add_sub_cancel, pieces_skip, List.reverse_cons,
      List.append_assoc]
    rfl

end Tiqora.Foundation
