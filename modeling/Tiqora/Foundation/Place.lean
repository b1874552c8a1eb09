import Mathlib.Data.Nat.Notation
import Tiqora.Foundation.Guarded

namespace Tiqora.Foundation

/-- A place in a text, and what has been spent of a budget on the way there. -/
structure Place (α : Type) where
  pos : ℕ
  rest : List α
  spent : ℕ

namespace Place

variable {α β γ ε : Type} {c c' c'' : Place α} {s t : List α} {m n : ℕ}

def advance (c : Place α) (n : ℕ) : Place α :=
  { c with pos := c.pos + n, rest := c.rest.drop n }

def spend (c : Place α) (n : ℕ) : Place α := { c with spent := c.spent + n }

@[simp] theorem rest_spend (c : Place α) (n : ℕ) : (c.spend n).rest = c.rest := rfl

@[simp] theorem pos_spend (c : Place α) (n : ℕ) : (c.spend n).pos = c.pos := rfl

@[simp] theorem spent_spend (c : Place α) (n : ℕ) : (c.spend n).spent = c.spent + n := rfl

@[simp] theorem rest_advance (c : Place α) (n : ℕ) : (c.advance n).rest = c.rest.drop n := rfl

@[simp] theorem pos_advance (c : Place α) (n : ℕ) : (c.advance n).pos = c.pos + n := rfl

@[simp] theorem spent_advance (c : Place α) (n : ℕ) : (c.advance n).spent = c.spent := rfl

/-- The place moves over `s` and spends `n`. -/
structure Moves (c : Place α) (s : List α) (n : ℕ) (c' : Place α) : Prop where
  rest_eq : c.rest = s ++ c'.rest
  pos_eq : c'.pos = c.pos + s.length
  spent_eq : c'.spent = c.spent + n

theorem Moves.refl (c : Place α) : Moves c [] 0 c := ⟨rfl, rfl, rfl⟩

theorem Moves.trans (h : Moves c s m c') (h' : Moves c' t n c'') :
    Moves c (s ++ t) (m + n) c'' := by
  refine ⟨?_, ?_, ?_⟩
  · rw [h.rest_eq, h'.rest_eq, List.append_assoc]
  · rw [h'.pos_eq, h.pos_eq, List.length_append, Nat.add_assoc]
  · rw [h'.spent_eq, h.spent_eq, Nat.add_assoc]

theorem moves_spend (c : Place α) (n : ℕ) : Moves c [] n (c.spend n) := ⟨rfl, rfl, rfl⟩

theorem moves_advance (h : c.rest = s ++ t) : Moves c s 0 (c.advance s.length) := by
  refine ⟨?_, rfl, rfl⟩
  rw [rest_advance, h, List.drop_left]

/-- A move over two stretches stops between them. -/
theorem Moves.split {k : ℕ} (h : Moves c (s ++ t) k c') (m n : ℕ) (hk : k = m + n) :
    ∃ c'', Moves c s m c'' ∧ Moves c'' t n c' := by
  refine ⟨⟨c.pos + s.length, t ++ c'.rest, c.spent + m⟩, ⟨?_, rfl, rfl⟩, rfl, ?_, ?_⟩
  · rw [h.rest_eq, List.append_assoc]
  · rw [h.pos_eq, List.length_append, Nat.add_assoc]
  · rw [h.spent_eq, hk, Nat.add_assoc]

theorem Moves.advance_eq (h : Moves c s 0 c') : c.advance s.length = c' := by
  obtain ⟨pos, rest, spent⟩ := c
  obtain ⟨pos', rest', spent'⟩ := c'
  obtain ⟨hrest, hpos, hspent⟩ := h
  dsimp only at hrest hpos hspent
  subst hrest hpos hspent
  simp [advance]

/-- Where the text ends. -/
def finish (c : Place α) : ℕ := c.pos + c.rest.length

theorem Moves.finish_eq (h : Moves c s n c') : c'.finish = c.finish := by
  rw [finish, finish, h.pos_eq, h.rest_eq, List.length_append, Nat.add_assoc]

theorem Moves.length_rest (h : Moves c s n c') : c.rest.length = s.length + c'.rest.length := by
  rw [h.rest_eq, List.length_append]

section Outcome

variable {E : Place α → ε → Prop} {limit : ℕ} {G : β → ℕ → List α → Prop}
  {H : γ → ℕ → List α → Prop}

/-- What a reader does at a place: it goes over a stretch of the text that the grammar `G` allows
for its result and keeps to the budget, or it fails with an error of `E`. -/
def Outcome (E : Place α → ε → Prop) (limit : ℕ) (G : β → ℕ → List α → Prop) (c : Place α) :
    Except ε (β × Place α) → Prop
  | .ok (b, c') => ∃ s n, Moves c s n c' ∧ (c.spent ≤ limit → c'.spent ≤ limit) ∧ G b n s
  | .error e => E c e

theorem Outcome.ok {b : β} (h : Moves c s n c') (hspent : c.spent ≤ limit → c'.spent ≤ limit)
    (hG : G b n s) : Outcome E limit G c (.ok (b, c')) := ⟨s, n, h, hspent, hG⟩

theorem Outcome.free {b : β} (h : Moves c s 0 c') (hG : G b 0 s) :
    Outcome E limit G c (.ok (b, c')) :=
  ⟨s, 0, h, fun hle ↦ h.spent_eq ▸ hle, hG⟩

/-- Readers one after the other read stretches one after the other. -/
theorem Outcome.bind {x : Except ε (β × Place α)} {f : β × Place α → Except ε (γ × Place α)}
    (hE : ∀ {c s n c' e}, Moves c s n c' → E c' e → E c e) (hx : Outcome E limit G c x)
    (hf : ∀ b c' s m, Moves c s m c' → G b m s →
      Outcome E limit (fun a n t ↦ H a (m + n) (s ++ t)) c' (f (b, c'))) :
    Outcome E limit H c (x >>= f) := by
  cases x with
  | error e => exact hx
  | ok result =>
    obtain ⟨b, c'⟩ := result
    obtain ⟨s, m, hmove, hspent, hG⟩ := hx
    have hnext := hf b c' s m hmove hG
    change Outcome E limit H c (f (b, c'))
    cases hfc : f (b, c') with
    | error e =>
      rw [hfc] at hnext
      exact hE hmove hnext
    | ok result =>
      obtain ⟨a, c''⟩ := result
      rw [hfc] at hnext
      obtain ⟨t, n, hmove', hspent', hH⟩ := hnext
      exact ⟨s ++ t, m + n, hmove.trans hmove', fun hle ↦ hspent' (hspent hle), hH⟩

/-- A reader that starts after a stretch. -/
theorem Outcome.after {x : Except ε (β × Place α)}
    (hE : ∀ {c s n c' e}, Moves c s n c' → E c' e → E c e) (h : Moves c s m c')
    (hspent : c.spent ≤ limit → c'.spent ≤ limit)
    (hx : Outcome E limit (fun b n t ↦ G b (m + n) (s ++ t)) c' x) : Outcome E limit G c x := by
  cases x with
  | error e => exact hE h hx
  | ok result =>
    obtain ⟨b, c''⟩ := result
    obtain ⟨t, n, hmove, hspent', hG⟩ := hx
    exact ⟨s ++ t, m + n, h.trans hmove, fun hle ↦ hspent' (hspent hle), hG⟩

theorem Outcome.require {P : Prop} [Decidable P] {e : ε} {f : Unit → Except ε (β × Place α)}
    (he : ¬P → E c e) (hf : P → Outcome E limit G c (f ())) :
    Outcome E limit G c (Foundation.require P e >>= f) := by
  by_cases h : P
  · rw [Foundation.require, if_pos h]
    exact hf h
  · rw [Foundation.require, if_neg h]
    exact he h

theorem Outcome.mono {G' : β → ℕ → List α → Prop} {x : Except ε (β × Place α)}
    (hx : Outcome E limit G c x) (h : ∀ b n s, G b n s → G' b n s) : Outcome E limit G' c x := by
  cases x with
  | error e => exact hx
  | ok result =>
    obtain ⟨s, n, hmove, hspent, hG⟩ := hx
    exact ⟨s, n, hmove, hspent, h _ _ _ hG⟩

end Outcome

end Place

end Tiqora.Foundation
