import Mathlib.Data.List.Infix

namespace Tiqora.Foundation

universe u

/-- A part of a `LIKE` pattern. -/
inductive LikeToken (α : Type u)
  | many | one
  | char (a : α)

variable {α : Type u} [DecidableEq α]

/-- The wild cards of a pattern and the character that escapes them. -/
structure LikeSyntax (α : Type u) where
  many : α
  one : α
  escape : α
  many_ne : many ≠ escape
  one_ne : one ≠ escape
  many_ne_one : many ≠ one

variable (S : LikeSyntax α)

def LikeSyntax.token (c : α) : LikeToken α :=
  if c = S.many then .many else if c = S.one then .one else .char c

/-- The pattern from here on, after an escape character or not. -/
def LikeSyntax.tokens : Bool → List α → List (LikeToken α)
  | _, [] => []
  | true, c :: cs => .char c :: LikeSyntax.tokens false cs
  | false, c :: cs =>
    if c = S.escape then LikeSyntax.tokens true cs else S.token c :: LikeSyntax.tokens false cs

/-- Characters match when they have the same fold. -/
def likeMatches (fold : α → α) : List (LikeToken α) → List α → Bool
  | [], s => s.isEmpty
  | .many :: ts, s => s.tails.any fun t ↦ likeMatches fold ts t
  | .one :: _, [] | .char _ :: _, [] => false
  | .one :: ts, _ :: s => likeMatches fold ts s
  | .char a :: ts, b :: s => fold a == fold b && likeMatches fold ts s

/-- `s.replace(c, [escape, c])`. -/
def LikeSyntax.escaped (c : α) (s : List α) : List α :=
  s.flatMap fun d ↦ if d = c then [S.escape, c] else [d]

/-- All three special characters are escaped, the escape character first. -/
def LikeSyntax.quote (s : List α) : List α := S.escaped S.one (S.escaped S.many (S.escaped S.escape s))

variable {S} {fold : α → α}

theorem quote_cons (c : α) (s : List α) : S.quote (c :: s) =
    (if c = S.escape ∨ c = S.many ∨ c = S.one then [S.escape, c] else [c]) ++ S.quote s := by
  have hmany := S.many_ne
  have hone := S.one_ne
  have hne := S.many_ne_one
  rw [LikeSyntax.quote, LikeSyntax.escaped, LikeSyntax.escaped, LikeSyntax.escaped,
    List.flatMap_cons, List.flatMap_append, List.flatMap_append]
  congr 1
  by_cases hescape : c = S.escape
  · subst hescape
    simp [hmany.symm, hone.symm]
  · by_cases hc : c = S.many
    · subst hc
      simp [hmany, hone.symm, hne]
    · by_cases hc' : c = S.one
      · subst hc'
        simp [hone, hne.symm]
      · simp [hescape, hc, hc']

/-- A quoted text stands for its characters. -/
theorem tokens_quote (v rest : List α) :
    S.tokens false (S.quote v ++ rest) = v.map .char ++ S.tokens false rest := by
  induction v with
  | nil => rfl
  | cons c v ih =>
    rw [quote_cons]
    by_cases hspecial : c = S.escape ∨ c = S.many ∨ c = S.one
    · rw [if_pos hspecial, List.append_assoc, List.cons_append, List.singleton_append,
        LikeSyntax.tokens, if_pos rfl, LikeSyntax.tokens, ih, List.map_cons, List.cons_append]
    · rw [if_neg hspecial]
      rw [not_or, not_or] at hspecial
      rw [List.append_assoc, List.singleton_append, LikeSyntax.tokens, if_neg hspecial.1,
        LikeSyntax.token, if_neg hspecial.2.1, if_neg hspecial.2.2, ih, List.map_cons,
        List.cons_append]

theorem likeMatches_many (s : List α) : likeMatches fold [.many] s = true := by
  rw [likeMatches, List.any_eq_true]
  exact ⟨[], (List.mem_tails _ _).2 List.nil_suffix, rfl⟩

theorem likeMatches_starts (v s : List α) :
    likeMatches fold (v.map .char ++ [.many]) s = (v.map fold).isPrefixOf (s.map fold) := by
  induction v generalizing s with
  | nil => exact likeMatches_many s
  | cons a v ih =>
    cases s with
    | nil => rfl
    | cons b s =>
      rw [List.map_cons, List.cons_append, likeMatches, ih]
      rfl

theorem likeMatches_contains (v s : List α) :
    likeMatches fold (.many :: (v.map .char ++ [.many])) s = decide (v.map fold <:+: s.map fold) := by
  rw [likeMatches, Bool.eq_iff_iff, List.any_eq_true, decide_eq_true_iff]
  constructor
  · rintro ⟨t, ht, hmatch⟩
    rw [likeMatches_starts, List.isPrefixOf_iff_prefix] at hmatch
    exact hmatch.isInfix.trans (((List.mem_tails _ _).1 ht).map fold).isInfix
  · intro h
    obtain ⟨t, hstarts, hends⟩ := List.infix_iff_prefix_suffix.1 h
    obtain ⟨u, hu⟩ := hends
    obtain ⟨s₁, s₂, hs, hmap₁, hmap₂⟩ := List.map_eq_append_iff.1 hu.symm
    refine ⟨s₂, (List.mem_tails _ _).2 ⟨s₁, hs.symm⟩, ?_⟩
    rw [likeMatches_starts, List.isPrefixOf_iff_prefix, hmap₂]
    exact hstarts

/-- `LIKE` with the pattern of `contains`. -/
theorem like_contains (v s : List α) :
    likeMatches fold (S.tokens false (S.many :: (S.quote v ++ [S.many]))) s =
      decide (v.map fold <:+: s.map fold) := by
  have htoken : S.token S.many = .many := if_pos rfl
  rw [LikeSyntax.tokens, if_neg S.many_ne, htoken, tokens_quote, LikeSyntax.tokens,
    if_neg S.many_ne, htoken]
  exact likeMatches_contains v s

/-- `LIKE` with the pattern of `starts_with`. -/
theorem like_starts (v s : List α) :
    likeMatches fold (S.tokens false (S.quote v ++ [S.many])) s =
      decide (v.map fold <+: s.map fold) := by
  have htoken : S.token S.many = .many := if_pos rfl
  rw [tokens_quote, LikeSyntax.tokens, if_neg S.many_ne, htoken, Bool.eq_iff_iff,
    decide_eq_true_iff, ← List.isPrefixOf_iff_prefix, ← likeMatches_starts]
  rfl

end Tiqora.Foundation
