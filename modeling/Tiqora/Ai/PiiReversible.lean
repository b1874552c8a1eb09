import Tiqora.Ai.Pii

namespace Tiqora.Ai.Pii

open Foundation Regex

/-- A text that a mapper may give out for a value. -/
def IsToken (τ : List Char) : Prop := ∃ kind n, τ = tokenText kind n

/-- What lies between the brackets of a token. -/
def inside (kind : Kind) (n : ℕ) : List Char := kind.text ++ '_' :: Nat.toDigits 10 n

def IsInner (c : Char) : Prop := c.isAlphanum = true ∨ c = '_'

/-- No brackets, and not empty. -/
def Plain (v : List Char) : Prop := v ≠ [] ∧ ∀ c ∈ v, c ≠ '[' ∧ c ≠ ']'

/-- The values of a mapper's tokens. -/
def Mapper.value (m : Mapper) (τ : List Char) : Option (List Char) := m.valueByToken.find τ

variable {kind kind' : Kind} {n n' : ℕ} {τ τ' v s t u w : List Char}

theorem tokenText_eq : tokenText kind n = '[' :: inside kind n ++ [']'] := rfl

theorem isAlphanum_of_mem_text (kind : Kind) : ∀ c ∈ kind.text, c.isAlphanum = true := by
  refine List.all_eq_true.1 ?_
  cases kind <;> rfl

theorem isInner_of_mem_inside {c : Char} (h : c ∈ inside kind n) : IsInner c := by
  rcases List.mem_append.1 h with h | h
  · exact .inl (isAlphanum_of_mem_text kind c h)
  · rcases List.mem_cons.1 h with rfl | h
    · exact .inr rfl
    · have hdigit := Nat.isDigit_of_mem_toDigits (by decide) (by decide) h
      exact .inl (by rw [Char.isAlphanum, hdigit, Bool.or_true])

theorem IsInner.ne {c : Char} (h : IsInner c) : c ≠ '[' ∧ c ≠ ']' := by
  rcases h with h | rfl
  · constructor
    · rintro rfl
      revert h
      decide
    · rintro rfl
      revert h
      decide
  · decide

/-- Up to a closing bracket there is one reading only. -/
theorem eq_of_append_bracket (hu : ∀ c ∈ u, c ≠ ']') (hw : ∀ c ∈ w, c ≠ ']')
    (h : u ++ ']' :: s = w ++ ']' :: t) : u = w := by
  induction u generalizing w with
  | nil =>
    cases w with
    | nil => rfl
    | cons c w =>
      rw [List.nil_append, List.cons_append, List.cons.injEq] at h
      exact absurd h.1.symm (hw c List.mem_cons_self)
  | cons c u ih =>
    cases w with
    | nil =>
      rw [List.nil_append, List.cons_append, List.cons.injEq] at h
      exact absurd h.1 (hu c List.mem_cons_self)
    | cons d w =>
      rw [List.cons_append, List.cons_append, List.cons.injEq] at h
      rw [h.1, ih (fun c hc ↦ hu c (List.mem_cons_of_mem _ hc))
        (fun c hc ↦ hw c (List.mem_cons_of_mem _ hc)) h.2]

theorem IsToken.prefix_unique (h : IsToken τ) (h' : IsToken τ') (hs : τ <+: s) (hs' : τ' <+: s) :
    τ = τ' := by
  obtain ⟨kind, n, rfl⟩ := h
  obtain ⟨kind', n', rfl⟩ := h'
  obtain ⟨rest, rfl⟩ := hs
  obtain ⟨rest', heq⟩ := hs'
  rw [tokenText_eq, tokenText_eq] at heq ⊢
  simp only [List.cons_append, List.append_assoc, List.cons.injEq, true_and,
    List.nil_append] at heq
  rw [eq_of_append_bracket (fun c hc ↦ (isInner_of_mem_inside hc).ne.2)
    (fun c hc ↦ (isInner_of_mem_inside hc).ne.2) heq]

theorem tokenText_inj (h : tokenText kind n = tokenText kind' n') : kind = kind' ∧ n = n' := by
  have hinside : inside kind n = inside kind' n' := by
    rw [tokenText_eq, tokenText_eq, List.cons_append, List.cons_append, List.cons.injEq] at h
    exact List.append_cancel_right h.2
  have hkind : kind = kind' := by
    have htext := congrArg (List.takeWhile fun c ↦ c ≠ '_') hinside
    cases kind <;> cases kind' <;> first | rfl | (revert htext; simp [inside, Kind.text])
  subst hkind
  refine ⟨rfl, ?_⟩
  have hdigits := congrArg (Nat.ofDigitChars 10 · 0)
    (List.cons.inj (List.append_cancel_left hinside)).2
  simpa only [Nat.ofDigitChars_ten_toDigits] using hdigits

/-- How a masked text stands to the one before: elements as they were, strings that were there and
read like a token, and tokens for values. -/
inductive Masked (value : List Char → Option (List Char)) : List Char → List Char → Prop
  | nil : Masked value [] []
  | char {c : Char} {t m : List Char} (hc : c = '[' → ∀ τ, IsToken τ → ¬ τ <+: c :: t)
      (h : Masked value t m) : Masked value (c :: t) (c :: m)
  | literal {τ t m : List Char} (hτ : IsToken τ) (h : Masked value t m) :
      Masked value (τ ++ t) (τ ++ m)
  | token {τ v t m : List Char} (hτ : IsToken τ) (hvalue : value τ = some v) (hv : Plain v)
      (h : Masked value t m) : Masked value (v ++ t) (τ ++ m)

variable {given given' : List Char → Option (List Char)} {m : List Char}

theorem IsToken.length_pos (h : IsToken τ) : 0 < τ.length := by
  obtain ⟨kind, n, rfl⟩ := h
  exact Nat.succ_pos _

/-- A text stands so to itself. -/
theorem masked_refl (given : List Char → Option (List Char)) (t : List Char) : Masked given t t := by
  induction hlength : t.length using Nat.strong_induction_on generalizing t with
  | _ length ih =>
    by_cases hτ : ∃ τ, IsToken τ ∧ τ <+: t
    · obtain ⟨τ, hτ, rest, rfl⟩ := hτ
      have hpos := hτ.length_pos
      rw [List.length_append] at hlength
      exact .literal hτ (ih rest.length (by omega) rest rfl)
    · cases t with
      | nil => exact .nil
      | cons c t =>
        refine .char (fun _ τ h h' ↦ hτ ⟨τ, h, h'⟩) (ih t.length ?_ t rfl)
        rw [← hlength]
        exact Nat.lt_succ_self _

theorem Masked.mono (h : Masked given t m)
    (hgiven : ∀ τ v, given τ = some v → given' τ = some v) : Masked given' t m := by
  induction h with
  | nil => exact .nil
  | char hc _ ih => exact .char hc ih
  | literal hτ _ ih => exact .literal hτ ih
  | token hτ hv hplain _ ih => exact .token hτ (hgiven _ _ hv) hplain ih

/-- What has no bracket was there before. -/
theorem Masked.split (h : Masked given t (w ++ m)) (hw : ∀ c ∈ w, c ≠ '[') :
    ∃ t', t = w ++ t' ∧ Masked given t' m := by
  induction w generalizing t with
  | nil => exact ⟨t, rfl, h⟩
  | cons c w ih =>
    have hne := hw c List.mem_cons_self
    have hbracket : ∀ τ rest, IsToken τ → τ ++ rest ≠ c :: (w ++ m) := by
      rintro τ rest ⟨kind, n, rfl⟩ heq
      rw [tokenText_eq] at heq
      exact hne (List.cons.inj heq).1.symm
    generalize hs : c :: w ++ m = s at h
    cases h with
    | nil => cases hs
    | char _ h =>
      cases hs
      obtain ⟨t', rfl, ht'⟩ := ih h fun d hd ↦ hw d (List.mem_cons_of_mem _ hd)
      exact ⟨t', rfl, ht'⟩
    | literal hτ _ => exact absurd hs.symm (hbracket _ _ hτ)
    | token hτ _ _ _ => exact absurd hs.symm (hbracket _ _ hτ)

theorem Masked.append (h : Masked given t m) (hw : ∀ c ∈ w, c ≠ '[') :
    Masked given (w ++ t) (w ++ m) := by
  induction w with
  | nil => exact h
  | cons c w ih =>
    exact .char (fun heq ↦ absurd heq (hw c List.mem_cons_self))
      (ih fun d hd ↦ hw d (List.mem_cons_of_mem _ hd))

/-- A pass whose matches are plain, and begin in no token. -/
structure Quiet (find : Cursor Char → Option (Match Char)) : Prop where
  plain : ∀ c found, find c = some found → Plain found.value
  reads : ∀ c found, find c = some found → found.value <+: c.ahead
  away : ∀ kind n u w behind ahead, u ++ w = inside kind n → w ≠ [] →
    find ⟨u.reverse ++ '[' :: behind, w ++ ']' :: ahead⟩ = none

theorem Quiet.bracket {find : Cursor Char → Option (Match Char)} (h : Quiet find) {c : Char}
    (hc : c = '[' ∨ c = ']') (behind ahead : List Char) : find ⟨behind, c :: ahead⟩ = none := by
  cases hfind : find ⟨behind, c :: ahead⟩ with
  | none => rfl
  | some found =>
    obtain ⟨hne, hplain⟩ := h.plain _ _ hfind
    obtain ⟨rest, hrest⟩ := h.reads _ _ hfind
    cases hvalue : found.value with
    | nil => exact absurd hvalue hne
    | cons d value =>
      rw [hvalue] at hrest hplain
      have hd := hplain d List.mem_cons_self
      have heq : d = c := (List.cons.inj hrest).1
      rw [heq] at hd
      rcases hc with rfl | rfl
      · exact absurd rfl hd.1
      · exact absurd rfl hd.2

theorem Quiet.pieces_inside {find : Cursor Char → Option (Match Char)} (h : Quiet find)
    (behind ahead : List Char) (huw : u ++ w = inside kind n) :
    pieces find 0 (u.reverse ++ '[' :: behind) (w ++ ']' :: ahead) =
      w.map Sum.inl ++ .inl ']' :: pieces find 0 (']' :: (u ++ w).reverse ++ '[' :: behind) ahead := by
  induction w generalizing u with
  | nil =>
    rw [List.nil_append, pieces_of_none (h.bracket (.inr rfl) _ _), List.append_nil]
    rfl
  | cons c w ih =>
    have hnone : find ⟨u.reverse ++ '[' :: behind, c :: (w ++ ']' :: ahead)⟩ = none :=
      h.away kind n u (c :: w) behind ahead huw (List.cons_ne_nil c w)
    rw [List.cons_append, pieces_of_none hnone]
    have hrest := ih (u := u ++ [c]) (by rw [List.append_assoc]; exact huw)
    rw [List.reverse_append, List.append_assoc, List.append_assoc] at hrest
    rw [List.map_cons, List.cons_append]
    exact congrArg (Sum.inl c :: ·) hrest

/-- A pass leaves a token as it is. -/
theorem Quiet.pieces_token {find : Cursor Char → Option (Match Char)} (h : Quiet find)
    (hτ : IsToken τ) (behind ahead : List Char) :
    ∃ behind', pieces find 0 behind (τ ++ ahead) = τ.map Sum.inl ++ pieces find 0 behind' ahead := by
  obtain ⟨kind, n, rfl⟩ := hτ
  refine ⟨']' :: (inside kind n).reverse ++ '[' :: behind, ?_⟩
  have hinside := h.pieces_inside (u := []) (w := inside kind n) behind ahead rfl
  have htext : tokenText kind n ++ ahead = '[' :: (inside kind n ++ ']' :: ahead) := by
    rw [tokenText_eq, List.cons_append, List.cons_append, List.append_assoc]
    rfl
  rw [htext, pieces_of_none (h.bracket (.inl rfl) _ _), tokenText_eq, List.cons_append,
    List.map_cons, List.map_append, List.cons_append, List.append_assoc]
  exact congrArg (Sum.inl '[' :: ·) hinside

structure Mapper.Sound (m : Mapper) : Prop where
  counted : ∀ τ v, m.value τ = some v →
    (∃ kind n, τ = tokenText kind n ∧ n ≤ m.counters kind) ∧ Plain v
  inverse : ∀ τ v, m.tokenByValue.find v = some τ ↔ m.value τ = some v

/-- A mapper only learns. -/
structure Mapper.Learns (m m' : Mapper) : Prop where
  neverMask : m'.neverMask = m.neverMask
  names : m'.names = m.names
  value : ∀ τ v, m.value τ = some v → m'.value τ = some v

theorem Mapper.Learns.refl (m : Mapper) : m.Learns m := ⟨rfl, rfl, fun _ _ h ↦ h⟩

variable {tables : CharacterTables} {pass : Pass} {p p' p'' : Mapper}

theorem Mapper.Learns.trans (h : p.Learns p') (h' : p'.Learns p'') : p.Learns p'' :=
  ⟨h'.neverMask.trans h.neverMask, h'.names.trans h.names, fun τ v hv ↦ h'.value τ v (h.value τ v hv)⟩

theorem Mapper.Sound.tokenFor (h : p.Sound) (kind : Kind) (hv : Plain v) :
    (p.tokenFor kind v).2.Sound ∧ p.Learns (p.tokenFor kind v).2 ∧
      IsToken (p.tokenFor kind v).1 ∧ (p.tokenFor kind v).2.value (p.tokenFor kind v).1 = some v := by
  unfold Mapper.tokenFor
  split
  · rename_i hfind
    have hfresh : p.value (tokenText kind (p.counters kind + 1)) = none := by
      cases hvalue : p.value (tokenText kind (p.counters kind + 1)) with
      | none => rfl
      | some v' =>
        obtain ⟨⟨kind', n, htext, hle⟩, -⟩ := h.counted _ _ hvalue
        obtain ⟨rfl, rfl⟩ := tokenText_inj htext
        exact absurd hle (Nat.not_succ_le_self _)
    have hset : ∀ τ v', (p.valueByToken.set (tokenText kind (p.counters kind + 1)) (some v)).find τ =
        some v' ↔ (τ = tokenText kind (p.counters kind + 1) ∧ v' = v) ∨ p.value τ = some v' := by
      intro τ v'
      by_cases heq : τ = tokenText kind (p.counters kind + 1)
      · subst heq
        rw [Table.find_set_self, hfresh, Option.some.injEq, eq_comm]
        simp
      · rw [Table.find_set_of_ne heq]
        simp [heq, Mapper.value]
    refine ⟨⟨?_, ?_⟩, ⟨rfl, rfl, ?_⟩, ⟨kind, _, rfl⟩, Table.find_set_self⟩
    · intro τ v' hvalue
      rcases (hset τ v').1 hvalue with ⟨rfl, rfl⟩ | hold
      · refine ⟨⟨kind, _, rfl, ?_⟩, hv⟩
        dsimp only
        rw [if_pos rfl]
      · obtain ⟨⟨kind', n, htext, hle⟩, hplain⟩ := h.counted _ _ hold
        refine ⟨⟨kind', n, htext, ?_⟩, hplain⟩
        dsimp only
        split
        · rename_i heq
          subst heq
          exact Nat.le_succ_of_le hle
        · exact hle
    · intro τ v'
      change (p.tokenByValue.set v _).find v' = some τ ↔ _
      rw [Mapper.value, hset]
      by_cases heq : v' = v
      · subst heq
        rw [Table.find_set_self, Option.some.injEq]
        have hnone : p.value τ ≠ some v' := by
          intro hvalue
          rw [(h.inverse _ _).2 hvalue] at hfind
          cases hfind
        simp [hnone, eq_comm]
      · rw [Table.find_set_of_ne heq, h.inverse]
        simp [heq]
    · intro τ v' hvalue
      exact (hset τ v').2 (.inr hvalue)
  · rename_i existing hfind
    have hvalue := (h.inverse _ _).1 hfind
    obtain ⟨⟨kind', n, htext, -⟩, -⟩ := h.counted _ _ hvalue
    exact ⟨h, .refl p, ⟨kind', n, htext⟩, hvalue⟩

/-- A match is left as it is, or it becomes the token of its value. -/
theorem Mapper.Sound.replace (h : p.Sound) (pass : Pass) {found : Match Char} (hv : Plain found.value) :
    (Mapper.replace pass p found).2.Sound ∧ p.Learns (Mapper.replace pass p found).2 ∧
      ((Mapper.replace pass p found).1 = found.value ∨
        IsToken (Mapper.replace pass p found).1 ∧
          (Mapper.replace pass p found).2.value (Mapper.replace pass p found).1 =
            some found.value) := by
  unfold Mapper.replace
  split
  · exact ⟨h, .refl p, .inl rfl⟩
  · split
    · exact ⟨h, .refl p, .inl rfl⟩
    · obtain ⟨hsound, hlearns, htoken, hvalue⟩ := h.tokenFor pass.kind hv
      exact ⟨hsound, hlearns, .inr ⟨htoken, hvalue⟩⟩

/-- A quiet pass turns plain texts into tokens and leaves the rest as it is. -/
theorem Mapper.Sound.substitute {find : Cursor Char → Option (Match Char)} (hq : Quiet find)
    (h : p.Sound) (behind : List Char) (hm : Masked p.value t m) :
    let r := substitute (Mapper.replace pass) p (pieces find 0 behind m)
    r.2.Sound ∧ p.Learns r.2 ∧ Masked r.2.value t r.1 := by
  induction hlength : m.length using Nat.strong_induction_on generalizing p behind t m with
  | _ length ih =>
    have htoken : ∀ τ t' m', IsToken τ → m = τ ++ m' → Masked p.value t' m' →
        ∃ out p', Foundation.substitute (Mapper.replace pass) p (pieces find 0 behind m) =
          (τ ++ out, p') ∧ p'.Sound ∧ p.Learns p' ∧ Masked p'.value t' out := by
      rintro τ t' m' hτ rfl hm'
      obtain ⟨behind', hpieces⟩ := hq.pieces_token hτ behind m'
      rw [List.length_append] at hlength
      have hpos := hτ.length_pos
      obtain ⟨hsound, hlearns, hmasked⟩ := ih m'.length (by omega) h behind' hm' rfl
      rw [hpieces, substitute_append]
      exact ⟨_, _, rfl, hsound, hlearns, hmasked⟩
    cases hm with
    | nil => exact ⟨h, .refl p, .nil⟩
    | literal hτ hm' =>
      obtain ⟨out, p', heq, hsound, hlearns, hmasked⟩ := htoken _ _ _ hτ rfl hm'
      dsimp only
      rw [heq]
      exact ⟨hsound, hlearns, .literal hτ hmasked⟩
    | token hτ hvalue hv hm' =>
      obtain ⟨out, p', heq, hsound, hlearns, hmasked⟩ := htoken _ _ _ hτ rfl hm'
      dsimp only
      rw [heq]
      exact ⟨hsound, hlearns, .token hτ (hlearns.value _ _ hvalue) hv hmasked⟩
    | @char c t m hc hm' =>
      have hall : Masked p.value (c :: t) (c :: m) := .char hc hm'
      rw [List.length_cons] at hlength
      dsimp only
      cases hfind : find ⟨behind, c :: m⟩ with
      | none =>
        obtain ⟨hsound, hlearns, hmasked⟩ := ih m.length (by omega) h (c :: behind) hm' rfl
        rw [pieces_of_none hfind, Foundation.substitute]
        exact ⟨hsound, hlearns, .char hc hmasked⟩
      | some found =>
        have hv := hq.plain _ _ hfind
        obtain ⟨rest, hrest⟩ := hq.reads _ _ hfind
        have hrest : found.value ++ rest = c :: m := hrest
        have hnobracket : ∀ d ∈ found.value, d ≠ '[' := fun d hd ↦ (hv.2 d hd).1
        rw [← hrest] at hall
        obtain ⟨t', ht', hmasked⟩ := hall.split hnobracket
        have hshorter : rest.length < length := by
          have hlen := congrArg List.length hrest
          have hpos := List.length_pos_iff.2 hv.1
          rw [List.length_append, List.length_cons] at hlen
          omega
        obtain ⟨hsound', hlearns', hout⟩ := h.replace _ hv
        rw [← hrest] at hfind ⊢
        rw [pieces_of_some rfl hv.1 hfind, Foundation.substitute, ht']
        obtain ⟨hsound, hlearns, hmasked⟩ := ih rest.length hshorter hsound'
          (found.value.reverse ++ behind) (hmasked.mono hlearns'.value) rfl
        refine ⟨hsound, hlearns'.trans hlearns, ?_⟩
        rcases hout with heq | ⟨hτ, hvalue⟩
        · dsimp only
          rw [heq]
          exact hmasked.append hnobracket
        · exact .token hτ (hlearns.value _ _ hvalue) hv hmasked

def NoBracket (c : Char) : Prop := c ≠ '[' ∧ c ≠ ']'

theorem noBracket_of_class {f : Char → Bool} (h : f '[' = false) (h' : f ']' = false) :
    ∀ c, f c = true → NoBracket c := by
  intro c hc
  refine ⟨?_, ?_⟩
  · rintro rfl
    rw [h] at hc
    cases hc
  · rintro rfl
    rw [h'] at hc
    cases hc

/-- A match that begins before a closing bracket ends before it. -/
theorem prefix_of_noBracket {rest ahead : List Char} (h : v ++ rest = w ++ ']' :: ahead)
    (hv : ∀ c ∈ v, NoBracket c) : v <+: w := by
  rcases List.append_eq_append_iff.1 h with ⟨x, rfl, -⟩ | ⟨x, rfl, hx⟩
  · exact List.prefix_append _ _
  · cases x with
    | nil => exact ⟨[], by simp⟩
    | cons c x =>
      have hc := hv c (List.mem_append_right _ List.mem_cons_self)
      exact absurd (List.cons.inj hx).1.symm hc.2

variable {r : Regex Char} {word : Char → Bool}

theorem matchAt_plain (hwithin : r.Within NoBracket) {Q : Char → Prop} (hneeds : r.Needs Q)
    {c : Cursor Char} {found : Match Char} (h : r.matchAt word c = some found) :
    Plain found.value ∧ found.value <+: c.ahead ∧ ∃ d ∈ found.value, Q d := by
  obtain ⟨c', hc', hreads, -, hahead⟩ := matchAt_eq_some h
  obtain ⟨w, hw, hplain⟩ := hwithin.reads hc'
  obtain ⟨w', hw', d, hd, hQ⟩ := hneeds.reads hc'
  rw [← hreads.unique hw] at hplain
  rw [← hreads.unique hw'] at hd
  exact ⟨⟨List.ne_nil_of_mem hd, hplain⟩, ⟨c'.ahead, hreads.2.symm⟩, d, hd, hQ⟩

/-- A pattern that needs what no token has inside. -/
theorem quiet_of_needs (hwithin : r.Within NoBracket) (hneeds : r.Needs fun c ↦ ¬IsInner c) :
    Quiet (r.matchAt word) where
  plain _ _ h := (matchAt_plain hwithin hneeds h).1
  reads _ _ h := (matchAt_plain hwithin hneeds h).2.1
  away kind n u w behind ahead huw _ := by
    rw [Option.eq_none_iff_forall_ne_some]
    intro found hfound
    obtain ⟨hplain, ⟨rest, hrest⟩, d, hd, hinner⟩ := matchAt_plain hwithin hneeds hfound
    have hmem := (prefix_of_noBracket hrest hplain.2).subset hd
    have hmem' : d ∈ inside kind n := huw ▸ List.mem_append_right _ hmem
    exact hinner (isInner_of_mem_inside hmem')

theorem not_isInner_of_eq {c d : Char} (hd : ¬IsInner d) : decide (c = d) = true → ¬IsInner c := by
  intro h
  rwa [of_decide_eq_true h]

instance (c : Char) : Decidable (IsInner c) := inferInstanceAs (Decidable (_ ∨ _))

theorem quiet_email : Quiet (emailRe.matchAt word) := by
  refine quiet_of_needs (within_all.2 ?_) (needs_all.2 ⟨char '@', by simp, ?_⟩)
  · simp only [List.forall_mem_cons]
    exact ⟨trivial, noBracket_of_class rfl rfl, noBracket_of_class rfl rfl,
      noBracket_of_class rfl rfl, noBracket_of_class rfl rfl, noBracket_of_class rfl rfl, trivial,
      fun _ h ↦ by cases h⟩
  · exact fun c ↦ not_isInner_of_eq (by decide)

theorem quiet_mac : Quiet (macRe.matchAt word) := by
  have hhex : (exactly (one isHex) 2).Within NoBracket := noBracket_of_class rfl rfl
  refine quiet_of_needs (within_all.2 ?_) (needs_all.2 ⟨_, List.mem_cons_of_mem _
    List.mem_cons_self, by decide, needs_all.2 ⟨_, List.mem_cons_of_mem _ List.mem_cons_self, ?_⟩⟩)
  · simp only [List.forall_mem_cons]
    exact ⟨trivial, ⟨hhex, noBracket_of_class rfl rfl, trivial⟩, hhex, trivial,
      fun _ h ↦ by cases h⟩
  · intro c hc
    rw [Bool.or_eq_true] at hc
    rcases hc with hc | hc
    · exact not_isInner_of_eq (by decide) hc
    · exact not_isInner_of_eq (by decide) hc

theorem quiet_ipv6 : Quiet (ipv6Re.matchAt word) := by
  have hhex : (rep (one isHex) 0 (some 4)).Within NoBracket := noBracket_of_class rfl rfl
  refine quiet_of_needs (within_all.2 ?_) (needs_all.2 ⟨_, List.mem_cons_of_mem _
    List.mem_cons_self, by decide, needs_all.2 ⟨_, List.mem_cons_of_mem _ List.mem_cons_self, ?_⟩⟩)
  · simp only [List.forall_mem_cons]
    exact ⟨trivial, ⟨hhex, noBracket_of_class rfl rfl, trivial⟩, hhex, trivial,
      fun _ h ↦ by cases h⟩
  · exact fun c ↦ not_isInner_of_eq (by decide)

theorem within_octet : octet.Within NoBracket := by
  refine within_any.2 ?_
  simp only [List.forall_mem_cons, within_all]
  exact ⟨⟨noBracket_of_class rfl rfl, noBracket_of_class rfl rfl, noBracket_of_class rfl rfl,
      fun _ h ↦ by cases h⟩,
    ⟨noBracket_of_class rfl rfl, noBracket_of_class rfl rfl, noBracket_of_class rfl rfl,
      fun _ h ↦ by cases h⟩,
    ⟨noBracket_of_class rfl rfl, noBracket_of_class rfl rfl, noBracket_of_class rfl rfl,
      fun _ h ↦ by cases h⟩, fun _ h ↦ by cases h⟩

theorem quiet_ipv4 : Quiet (ipv4Re.matchAt word) := by
  refine quiet_of_needs (within_all.2 ?_) (needs_all.2 ⟨_, List.mem_cons_of_mem _
    List.mem_cons_self, by decide, needs_all.2 ⟨_, List.mem_cons_of_mem _ List.mem_cons_self, ?_⟩⟩)
  · simp only [List.forall_mem_cons]
    exact ⟨trivial, ⟨within_octet, noBracket_of_class rfl rfl, trivial⟩, within_octet, trivial,
      fun _ h ↦ by cases h⟩
  · exact fun c ↦ not_isInner_of_eq (by decide)

theorem IsInner.isWord {c : Char} (h : IsInner c) : tables.word c = true := by
  have hlt : c.toNat < 128 := by
    rcases h with h | rfl
    · change (decide (c.val ≥ 65 ∧ c.val ≤ 90) || (c.val ≥ 97 && c.val ≤ 122) ||
        (c.val ≥ 48 && c.val ≤ 57)) = true at h
      simp only [Bool.or_eq_true, Bool.and_eq_true, decide_eq_true_eq,
        UInt32.le_iff_toNat_le] at h
      change c.val.toNat < 128
      rcases h with (⟨-, h⟩ | ⟨-, h⟩) | ⟨-, h⟩ <;> exact lt_of_le_of_lt h (by decide)
    · decide
  rw [tables.ascii c hlt]
  rcases h with h | rfl
  · rw [h, Bool.true_or]
  · rfl

theorem not_word_bracket : tables.word '[' = false := tables.ascii '[' (by decide)

/-- What lies just behind a place inside a token. -/
theorem head?_behind (behind : List Char) (huw : u ++ w = inside kind n)
    (h : (u.reverse ++ '[' :: behind).head?.any tables.word = false) : u = [] := by
  cases hu : u.reverse with
  | nil => exact List.reverse_eq_nil_iff.1 hu
  | cons c rest =>
    have hmem : c ∈ inside kind n := by
      rw [← huw]
      refine List.mem_append_left _ (List.mem_reverse.1 ?_)
      rw [hu]
      exact List.mem_cons_self
    rw [hu, List.cons_append, List.head?_cons, Option.any_some,
      (isInner_of_mem_inside hmem).isWord] at h
    cases h

theorem exists_text (kind : Kind) : ∃ c rest, kind.text = c :: rest ∧ c ≠ '+' ∧ isDigit c = false := by
  cases kind <;> exact ⟨_, _, rfl, by decide, by decide⟩

theorem quiet_phone : Quiet ((phoneRe tables).matchAt word) := by
  have hwithin : (phoneRe tables).Within NoBracket := by
    refine within_all.2 ?_
    simp only [List.forall_mem_cons]
    exact ⟨trivial, noBracket_of_class rfl rfl, noBracket_of_class (by decide) (by decide),
      noBracket_of_class (by decide) (by decide), noBracket_of_class (by decide) (by decide), trivial,
      fun _ h ↦ by cases h⟩
  have hneeds : (phoneRe tables).Needs fun _ ↦ True :=
    needs_all.2 ⟨one isDigit, by simp, fun _ _ ↦ trivial⟩
  refine ⟨fun _ _ h ↦ (matchAt_plain hwithin hneeds h).1,
    fun _ _ h ↦ (matchAt_plain hwithin hneeds h).2.1, ?_⟩
  intro kind n u w behind ahead huw hw
  rw [Option.eq_none_iff_forall_ne_some]
  intro found hfound
  obtain ⟨c', hc', -⟩ := matchAt_eq_some hfound
  obtain ⟨c₁, h₁, hc'⟩ := List.mem_flatMap.1 hc'
  obtain ⟨c₂, h₂, hc'⟩ := List.mem_flatMap.1 hc'
  obtain ⟨c₃, h₃, -⟩ := List.mem_flatMap.1 hc'
  unfold ends at h₁
  split at h₁
  · cases h₁
  rename_i hbehind
  rw [List.mem_singleton] at h₁
  subst h₁
  have hu := head?_behind behind huw (Bool.eq_false_iff.2 hbehind)
  subst hu
  obtain ⟨c, rest, htext, hplus, hdigit⟩ := exists_text kind
  have hw : w = c :: (rest ++ '_' :: Nat.toDigits 10 n) := by
    rw [List.nil_append] at huw
    rw [huw, inside, htext, List.cons_append]
  subst hw
  have heq : c₂ = ⟨'[' :: behind, c :: (rest ++ '_' :: Nat.toDigits 10 n ++ ']' :: ahead)⟩ := by
    simpa [Regex.option, ends, turns, upTo, char, hplus] using h₂
  subst heq
  simp [ends, hdigit] at h₃

/-- The name reads, whatever the case, like the inside of a token. -/
def ReadsAsToken (tables : CharacterTables) (name : List Char) : Prop :=
  ∃ kind n, List.Forall₂ (fun c d ↦ tables.folding.same c d = true) name (inside kind n)

theorem noBracket_of_same {c d : Char} (h : tables.folding.same c d = true) (hc : NoBracket c) :
    NoBracket d := by
  have h : tables.folding.lower c = tables.folding.lower d := of_decide_eq_true h
  refine ⟨?_, ?_⟩
  · rintro rfl
    exact hc.1 (tables.folding.caseless c _ h (by decide) (by decide))
  · rintro rfl
    exact hc.2 (tables.folding.caseless c _ h (by decide) (by decide))

theorem forall₂_noBracket (h : List.Forall₂ (fun c d ↦ tables.folding.same c d = true) u w)
    (hu : ∀ c ∈ u, NoBracket c) : ∀ d ∈ w, NoBracket d := by
  induction h with
  | nil => exact hu
  | cons hsame _ ih =>
    rw [List.forall_mem_cons] at hu ⊢
    exact ⟨noBracket_of_same hsame hu.1, ih hu.2⟩

/-- What a match of the name pattern is. -/
theorem mem_ends_names {names : List (List Char)} {c c' : Cursor Char}
    (h : c' ∈ (any (names.map fun n ↦ all [boundary, literal tables.folding.same n,
      boundary])).ends tables.word c) :
    ∃ name ∈ names, ∃ w, c.Reads c' w ∧
      List.Forall₂ (fun c d ↦ tables.folding.same c d = true) name w ∧
        c.behind.head?.any tables.word ≠ c.ahead.head?.any tables.word ∧
          c'.behind.head?.any tables.word ≠ c'.ahead.head?.any tables.word := by
  obtain ⟨r, hr, hc'⟩ := mem_ends_any.1 h
  obtain ⟨name, hname, rfl⟩ := List.mem_map.1 hr
  obtain ⟨c₁, h₁, hc₁⟩ := mem_ends_all_cons.1 hc'
  obtain ⟨c₂, h₂, hc₂⟩ := mem_ends_all_cons.1 hc₁
  obtain ⟨c₃, h₃, hc₃⟩ := mem_ends_all_cons.1 hc₂
  have heq := mem_ends_all_nil.1 hc₃
  have hboundary : ∀ d d' : Cursor Char, d' ∈ (boundary : Regex Char).ends tables.word d →
      d' = d ∧ d.behind.head?.any tables.word ≠ d.ahead.head?.any tables.word := by
    intro d d' hd
    unfold ends at hd
    split at hd
    · cases hd
    · rename_i hne
      exact ⟨List.mem_singleton.1 hd, hne⟩
  obtain ⟨rfl, hstart⟩ := hboundary _ _ h₁
  obtain ⟨rfl, hstop⟩ := hboundary _ _ h₃
  subst heq
  obtain ⟨w, hreads, hw⟩ := mem_ends_literal h₂
  exact ⟨name, hname, w, hreads, hw, hstart, hstop⟩

theorem quiet_names {names : List (List Char)}
    (hnames : ∀ name ∈ names, Plain name ∧ ¬ReadsAsToken tables name) :
    Quiet ((any (names.map fun n ↦ all [boundary, literal tables.folding.same n,
      boundary])).matchAt tables.word) := by
  have hfound : ∀ c found, (any (names.map fun n ↦ all [boundary, literal tables.folding.same n,
      boundary])).matchAt tables.word c = some found → Plain found.value ∧
        found.value <+: c.ahead := by
    intro c found h
    obtain ⟨c', hc', hreads, -⟩ := matchAt_eq_some h
    obtain ⟨name, hname, w, hw, hsame, -⟩ := mem_ends_names hc'
    obtain ⟨⟨hne, hplain⟩, -⟩ := hnames name hname
    rw [hreads.unique hw]
    refine ⟨⟨?_, forall₂_noBracket hsame hplain⟩, c'.ahead, hw.2.symm⟩
    rintro rfl
    cases hsame
    exact hne rfl
  refine ⟨fun c found h ↦ (hfound c found h).1, fun c found h ↦ (hfound c found h).2, ?_⟩
  intro kind n u w behind ahead huw hw
  rw [Option.eq_none_iff_forall_ne_some]
  intro found h
  obtain ⟨hplain, hprefix⟩ := hfound _ _ h
  obtain ⟨c', hc', hreads, -⟩ := matchAt_eq_some h
  obtain ⟨name, hname, w', hw', hsame, hstart, hstop⟩ := mem_ends_names hc'
  rw [← hreads.unique hw'] at hsame
  have hinner : ∀ c ∈ w, tables.word c = true := by
    intro c hc
    have hmem : c ∈ inside kind n := huw ▸ List.mem_append_right _ hc
    exact (isInner_of_mem_inside hmem).isWord
  obtain ⟨rest, hrest⟩ := hprefix
  obtain ⟨x, hx⟩ := prefix_of_noBracket hrest hplain.2
  have hbehind : (u.reverse ++ '[' :: behind).head?.any tables.word = false := by
    cases w with
    | nil => exact absurd rfl hw
    | cons c w =>
      have hc : ((c :: w) ++ ']' :: ahead).head?.any tables.word = true :=
        hinner c List.mem_cons_self
      dsimp only at hstart
      rw [hc] at hstart
      exact Bool.eq_false_iff.2 hstart
  have hu := head?_behind behind huw hbehind
  subst hu
  cases x with
  | nil =>
    rw [List.append_nil] at hx
    rw [hx] at hsame
    exact (hnames name hname).2 ⟨kind, n, (List.nil_append w).symm.trans huw ▸ hsame⟩
  | cons d x =>
    have hahead : c'.ahead = d :: (x ++ ']' :: ahead) := by
      refine List.append_cancel_left (hreads.2.symm.trans ?_)
      change w ++ ']' :: ahead = _
      rw [← hx, List.append_assoc]
      rfl
    have hbehind : c'.behind.head?.any tables.word = true := by
      rw [hreads.1]
      cases hvalue : found.value.reverse with
      | nil => exact absurd (List.reverse_eq_nil_iff.1 hvalue) hplain.1
      | cons e rest =>
        rw [List.cons_append, List.head?_cons, Option.any_some]
        refine hinner e ?_
        rw [← hx]
        refine List.mem_append_left _ (List.mem_reverse.1 ?_)
        rw [hvalue]
        exact List.mem_cons_self
    refine hstop ?_
    rw [hbehind, hahead, List.head?_cons, Option.any_some, hinner d]
    rw [← hx]
    exact List.mem_append_right _ List.mem_cons_self
theorem Mapper.Sound.passes {passes : List Pass}
    (hq : ∀ pass ∈ passes, Quiet (pass.pattern.matchAt tables.word)) (h : p.Sound)
    (hm : Masked p.value t m) :
    (passes.foldl (apply tables) (m, p)).2.Sound ∧
      p.Learns (passes.foldl (apply tables) (m, p)).2 ∧
        Masked (passes.foldl (apply tables) (m, p)).2.value t
          (passes.foldl (apply tables) (m, p)).1 := by
  induction passes generalizing p m with
  | nil => exact ⟨h, .refl p, hm⟩
  | cons pass passes ih =>
    rw [List.forall_mem_cons] at hq
    obtain ⟨hsound, hlearns, hmasked⟩ := Sound.substitute hq.1 h [] hm
    obtain ⟨hsound', hlearns', hmasked'⟩ := ih hq.2 hsound hmasked
    exact ⟨hsound', hlearns.trans hlearns', hmasked'⟩

theorem quiet_passes {names : List (List Char)}
    (hnames : ∀ name ∈ names, Plain name ∧ ¬ReadsAsToken tables name) :
    ∀ pass ∈ patterns tables ++ namePass tables names,
      Quiet (pass.pattern.matchAt tables.word) := by
  intro pass hpass
  rcases List.mem_append.1 hpass with hpass | hpass
  · simp only [patterns, List.mem_cons, List.not_mem_nil, or_false] at hpass
    rcases hpass with rfl | rfl | rfl | rfl | rfl
    · exact quiet_email
    · exact quiet_mac
    · exact quiet_ipv6
    · exact quiet_ipv4
    · exact quiet_phone
  · unfold namePass at hpass
    split at hpass
    · cases hpass
    · rw [List.mem_singleton.1 hpass]
      exact quiet_names hnames

theorem Mapper.Sound.mask (h : p.Sound)
    (hnames : ∀ name ∈ p.names, Plain name ∧ ¬ReadsAsToken tables name) (text : List Char) :
    (p.mask tables text).2.Sound ∧ p.Learns (p.mask tables text).2 ∧
      Masked (p.mask tables text).2.value text (p.mask tables text).1 := by
  unfold Mapper.mask
  split
  · rename_i htext
    rw [htext]
    exact ⟨h, .refl p, .nil⟩
  · exact h.passes (quiet_passes hnames) (masked_refl _ _)

/-- `unmask` from some place in a text on. -/
def Mapper.restored (tables : CharacterTables) (p : Mapper) (behind text : List Char) : List Char :=
  (substitute (fun _ found ↦ ((p.valueByToken.find found.value).getD found.value, ())) ()
    (pieces ((any (p.valueByToken.rows.map fun r ↦ literal (fun c d ↦ c = d) r.1)).matchAt
      tables.word) 0 behind text)).1

theorem eq_of_forall₂ (h : List.Forall₂ (fun c d : Char ↦ decide (c = d) = true) u w) : u = w := by
  induction h with
  | nil => rfl
  | cons hc _ ih => rw [of_decide_eq_true hc, ih]

theorem Mapper.matchAt_token {c : Cursor Char} {found : Match Char}
    (h : (any (p.valueByToken.rows.map fun r ↦ literal (fun c d ↦ c = d) r.1)).matchAt tables.word c =
      some found) : (p.value found.value).isSome ∧ found.value <+: c.ahead := by
  obtain ⟨c', hc', hreads, -⟩ := matchAt_eq_some h
  obtain ⟨r, hr, hc'⟩ := mem_ends_any.1 hc'
  obtain ⟨row, hrow, rfl⟩ := List.mem_map.1 hr
  obtain ⟨w, hw, hsame⟩ := mem_ends_literal hc'
  have heq : found.value = row.1 := (hreads.unique hw).trans (eq_of_forall₂ hsame).symm
  rw [Mapper.value, heq, Table.find_eq_some.2 hrow, ← heq]
  exact ⟨rfl, c'.ahead, hreads.2.symm⟩

theorem Mapper.Sound.isToken (h : p.Sound) (hv : p.value τ = some v) : IsToken τ := by
  obtain ⟨⟨kind, n, htext, -⟩, -⟩ := h.counted _ _ hv
  exact ⟨kind, n, htext⟩

theorem Mapper.Sound.restored_token (h : p.Sound) (hv : p.value τ = some v)
    {behind rest : List Char} :
    p.restored tables behind (τ ++ rest) = v ++ p.restored tables (τ.reverse ++ behind) rest := by
  have hτ := h.isToken hv
  have hmem : ⟨τ.reverse ++ behind, rest⟩ ∈
      (any (p.valueByToken.rows.map fun r ↦ literal (fun c d ↦ c = d) r.1)).ends tables.word
        ⟨behind, τ ++ rest⟩ := by
    refine mem_ends_any.2 ⟨_, List.mem_map.2 ⟨(τ, v), Table.find_eq_some.1 hv, rfl⟩, ?_⟩
    exact literal_mem_ends (c := ⟨behind, τ ++ rest⟩) (fun c ↦ decide_eq_true rfl) rfl
  cases hfound : (any (p.valueByToken.rows.map fun r ↦ literal (fun c d ↦ c = d) r.1)).matchAt
      tables.word ⟨behind, τ ++ rest⟩ with
  | none => exact absurd hfound (matchAt_ne_none hmem)
  | some found =>
    obtain ⟨hgiven, hprefix⟩ := Mapper.matchAt_token hfound
    obtain ⟨v', hv'⟩ := Option.isSome_iff_exists.1 hgiven
    have heq := (h.isToken hv').prefix_unique hτ hprefix (List.prefix_append _ _)
    have hne : τ ≠ [] := List.length_pos_iff.1 hτ.length_pos
    have hvalue : p.valueByToken.find τ = some v := hv
    unfold Mapper.restored
    rw [pieces_of_some heq hne hfound, Foundation.substitute]
    dsimp only
    rw [heq, hvalue, Option.getD_some]

theorem Mapper.restored_char {c : Char} {behind rest : List Char}
    (h : ∀ τ, (p.value τ).isSome → ¬τ <+: c :: rest) :
    p.restored tables behind (c :: rest) = c :: p.restored tables (c :: behind) rest := by
  have hnone : (any (p.valueByToken.rows.map fun r ↦ literal (fun c d ↦ c = d) r.1)).matchAt
      tables.word ⟨behind, c :: rest⟩ = none := by
    rw [Option.eq_none_iff_forall_ne_some]
    intro found hfound
    obtain ⟨hgiven, hprefix⟩ := Mapper.matchAt_token hfound
    exact h _ hgiven hprefix
  unfold Mapper.restored
  rw [pieces_of_none hnone, Foundation.substitute]

theorem Mapper.Sound.not_prefix (h : p.Sound) {c : Char} {rest : List Char} (hc : c ≠ '[') :
    ∀ τ, (p.value τ).isSome → ¬τ <+: c :: rest := by
  rintro τ hτ ⟨s, hs⟩
  obtain ⟨v, hv⟩ := Option.isSome_iff_exists.1 hτ
  obtain ⟨kind, n, rfl⟩ := h.isToken hv
  rw [tokenText_eq] at hs
  exact hc (List.cons.inj hs).1.symm

theorem Mapper.Sound.restored_append (h : p.Sound) {behind rest : List Char}
    (hw : ∀ c ∈ w, c ≠ '[') :
    p.restored tables behind (w ++ rest) = w ++ p.restored tables (w.reverse ++ behind) rest := by
  induction w generalizing behind with
  | nil => rfl
  | cons c w ih =>
    rw [List.forall_mem_cons] at hw
    rw [List.cons_append, Mapper.restored_char (h.not_prefix hw.1), ih hw.2, List.reverse_cons,
      List.append_assoc]
    rfl

theorem Mapper.Sound.unmask_eq (h : p.Sound) (text : List Char) :
    p.unmask tables text = p.restored tables [] text := by
  unfold Mapper.unmask
  split
  · rename_i hempty
    rw [hempty]
    rfl
  · split
    · rename_i hnone
      have hgiven : ∀ τ, ¬(p.value τ).isSome := by
        intro τ hτ
        obtain ⟨v, hv⟩ := Option.isSome_iff_exists.1 hτ
        have hmem := Table.find_eq_some.1 hv
        rw [hnone] at hmem
        cases hmem
      have hall : ∀ behind, p.restored tables behind text = text := by
        induction text with
        | nil => exact fun _ ↦ rfl
        | cons c text ih =>
          intro behind
          rw [Mapper.restored_char fun τ hτ ↦ absurd hτ (hgiven τ)]
          by_cases htext : text = []
          · rw [htext]
            rfl
          · rw [ih htext]
      exact (hall []).symm
    · rfl

theorem infix_of_append (hτ : IsToken τ) (hw : ∀ c ∈ w, c ≠ '[') (h : τ <:+: w ++ t) : τ <:+: t := by
  induction w with
  | nil => exact h
  | cons c w ih =>
    rw [List.forall_mem_cons] at hw
    rcases List.infix_cons_iff.1 h with ⟨s, hs⟩ | h
    · obtain ⟨kind, n, rfl⟩ := hτ
      rw [tokenText_eq] at hs
      exact absurd (List.cons.inj hs).1.symm hw.1
    · exact ih hw.2 h

/-- A masked text comes back if and only if no token had been in it from the start. -/
theorem Mapper.Sound.restored_iff (h : p.Sound) {given : List Char → Option (List Char)}
    (hgiven : ∀ τ v, given τ = some v → p.value τ = some v) (hm : Masked given t m)
    (behind : List Char) :
    p.restored tables behind m = t ↔ ∀ τ, (p.value τ).isSome → ¬τ <:+: t := by
  induction hm generalizing behind with
  | nil =>
    refine ⟨fun _ τ hτ hnil ↦ ?_, fun _ ↦ rfl⟩
    obtain ⟨v, hv⟩ := Option.isSome_iff_exists.1 hτ
    have hpos := (h.isToken hv).length_pos
    rw [List.infix_nil.1 hnil] at hpos
    exact absurd hpos (Nat.lt_irrefl 0)
  | @char c t m hc hm ih =>
    have hnone : ∀ τ, (p.value τ).isSome → ¬τ <+: c :: m := by
      intro τ hτ hprefix
      obtain ⟨v, hv⟩ := Option.isSome_iff_exists.1 hτ
      have htoken := h.isToken hv
      by_cases hbracket : c = '['
      · obtain ⟨kind, n, rfl⟩ := htoken
        obtain ⟨rest, hrest⟩ := hprefix
        rw [tokenText_eq, List.cons_append, List.cons_append] at hrest
        have hm' := hm
        rw [← (List.cons.inj hrest).2] at hm'
        obtain ⟨t', rfl, -⟩ := hm'.split (w := inside kind n ++ [']']) fun d hd ↦ by
          rcases List.mem_append.1 hd with hd | hd
          · exact (isInner_of_mem_inside hd).ne.1
          · rw [List.mem_singleton.1 hd]
            decide
        refine hc hbracket _ ⟨kind, n, rfl⟩ ⟨t', ?_⟩
        rw [tokenText_eq, hbracket]
        rfl
      · exact h.not_prefix hbracket τ hτ hprefix
    rw [Mapper.restored_char hnone, List.cons.injEq, ih]
    constructor
    · rintro ⟨-, hall⟩ τ hτ hinfix
      rcases List.infix_cons_iff.1 hinfix with hprefix | hinfix
      · obtain ⟨v, hv⟩ := Option.isSome_iff_exists.1 hτ
        have htoken := h.isToken hv
        obtain ⟨kind, n, rfl⟩ := htoken
        obtain ⟨rest, hrest⟩ := hprefix
        have hbracket : c = '[' := (List.cons.inj hrest).1.symm
        exact hc hbracket _ ⟨kind, n, rfl⟩ ⟨rest, hrest⟩
      · exact hall τ hτ hinfix
    · intro hall
      exact ⟨rfl, fun τ hτ hinfix ↦ hall τ hτ (List.infix_cons hinfix)⟩
  | @literal τ t m hτ hm ih =>
    obtain ⟨kind, n, rfl⟩ := hτ
    cases hvalue : p.value (tokenText kind n) with
    | some v =>
      rw [h.restored_token hvalue]
      constructor
      · intro heq
        obtain ⟨-, hne, hplain⟩ := h.counted _ _ hvalue
        cases v with
        | nil => exact absurd rfl hne
        | cons c v =>
          rw [tokenText_eq, List.cons_append, List.cons_append] at heq
          exact absurd (List.cons.inj heq).1 (hplain c List.mem_cons_self).1
      · intro hall
        refine absurd (List.prefix_append _ _).isInfix (hall (tokenText kind n) ?_)
        rw [hvalue]
        rfl
    | none =>
      have hinside : ∀ d ∈ inside kind n ++ [']'], d ≠ '[' := by
        intro d hd
        rcases List.mem_append.1 hd with hd | hd
        · exact (isInner_of_mem_inside hd).ne.1
        · rw [List.mem_singleton.1 hd]
          decide
      have hhead : ∀ rest τ', (p.value τ').isSome → ¬τ' <+: '[' :: (inside kind n ++ [']'] ++ rest) := by
        intro rest τ' hτ' hprefix
        obtain ⟨v, hv⟩ := Option.isSome_iff_exists.1 hτ'
        have heq : τ' = tokenText kind n := (h.isToken hv).prefix_unique ⟨kind, n, rfl⟩ hprefix
          ⟨rest, by rw [tokenText_eq]; rfl⟩
        rw [heq, hvalue] at hτ'
        cases hτ'
      have htext : ∀ rest, tokenText kind n ++ rest = '[' :: (inside kind n ++ [']'] ++ rest) :=
        fun _ ↦ rfl
      rw [htext, htext, Mapper.restored_char (hhead m), h.restored_append hinside, List.cons.injEq,
        List.append_cancel_left_eq, ih]
      constructor
      · rintro ⟨-, hall⟩ τ' hτ' hinfix
        obtain ⟨v, hv⟩ := Option.isSome_iff_exists.1 hτ'
        rcases List.infix_cons_iff.1 hinfix with hprefix | hinfix
        · exact hhead t τ' hτ' hprefix
        · exact hall τ' hτ' (infix_of_append (h.isToken hv) hinside hinfix)
      · intro hall
        exact ⟨rfl, fun τ' hτ' hinfix ↦
          hall τ' hτ' (List.infix_cons (List.infix_append_of_infix_right hinfix))⟩
  | @token τ v t m hτ hv hplain hm ih =>
    have hnobracket : ∀ c ∈ v, c ≠ '[' := fun c hc ↦ (hplain.2 c hc).1
    rw [h.restored_token (hgiven _ _ hv), List.append_cancel_left_eq, ih]
    constructor
    · intro hall τ' hτ' hinfix
      obtain ⟨v', hv'⟩ := Option.isSome_iff_exists.1 hτ'
      exact hall τ' hτ' (infix_of_append (h.isToken hv') hnobracket hinfix)
    · intro hall τ' hτ' hinfix
      exact hall τ' hτ' (List.infix_append_of_infix_right hinfix)

theorem sound_init (tables : CharacterTables) (neverMask knownNames : List (List Char)) :
    (init tables neverMask knownNames).Sound where
  counted τ v h := by cases h
  inverse τ v := by
    constructor
    · intro h
      cases h
    · intro h
      cases h

theorem names_init {neverMask knownNames : List (List Char)} {name : List Char}
    (h : name ∈ (init tables neverMask knownNames).names) :
    3 ≤ name.length ∧ ∃ known ∈ knownNames, name = strip known := by
  have h := List.mem_dedup.1 ((List.mem_insertionSort _).1 h)
  obtain ⟨hmem, hlength⟩ := List.mem_filter.1 h
  obtain ⟨known, hknown, rfl⟩ := List.mem_map.1 hmem
  exact ⟨of_decide_eq_true hlength, known, hknown, rfl⟩

theorem mem_of_mem_strip {c : Char} (h : c ∈ strip s) : c ∈ s :=
  (List.dropWhile_sublist _).subset ((List.rdropWhile_prefix _ _).subset h)

theorem Mapper.Sound.maskAll (h : p.Sound) (texts : List (List Char))
    (hnames : ∀ name ∈ p.names, Plain name ∧ ¬ReadsAsToken tables name) :
    (p.maskAll tables texts).2.Sound ∧ p.Learns (p.maskAll tables texts).2 ∧
      List.Forall₂ (Masked (p.maskAll tables texts).2.value) texts (p.maskAll tables texts).1 := by
  induction texts generalizing p with
  | nil => exact ⟨h, .refl p, .nil⟩
  | cons text texts ih =>
    obtain ⟨hsound, hlearns, hmasked⟩ := h.mask hnames text
    obtain ⟨hsound', hlearns', hmasked'⟩ := ih hsound (hlearns.names ▸ hnames)
    exact ⟨hsound', hlearns.trans hlearns', .cons (hmasked.mono hlearns'.value) hmasked'⟩

/-- A text comes back at any later time if and only if none of the tokens given out by then had been
in it. A token keeps its value, and values and tokens belong to each other one to one. -/
theorem masking_reversible (tables : CharacterTables) (neverMask knownNames : List (List Char))
    (hplain : ∀ name ∈ knownNames, ∀ c ∈ name, c ≠ '[' ∧ c ≠ ']')
    (hreads : ∀ name ∈ knownNames, ¬ReadsAsToken tables (strip name))
    (texts later : List (List Char)) :
    let before := (init tables neverMask knownNames).maskAll tables texts
    let after := before.2.maskAll tables later
    List.Forall₂ (fun text masked ↦ after.2.unmask tables masked = text ↔
        ∀ τ, (after.2.value τ).isSome → ¬τ <:+: text) texts before.1 ∧
      (∀ τ v, before.2.value τ = some v → after.2.value τ = some v) ∧
        ∀ τ v, after.2.tokenByValue.find v = some τ ↔ after.2.value τ = some v := by
  intro before after
  have hnames : ∀ name ∈ (init tables neverMask knownNames).names,
      Plain name ∧ ¬ReadsAsToken tables name := by
    intro name hname
    obtain ⟨hlength, known, hknown, rfl⟩ := names_init hname
    refine ⟨⟨?_, fun c hc ↦ hplain known hknown c (mem_of_mem_strip hc)⟩, hreads known hknown⟩
    intro hnil
    rw [hnil] at hlength
    exact absurd hlength (by decide)
  obtain ⟨hsound, hlearns, hmasked⟩ :=
    (sound_init tables neverMask knownNames).maskAll texts hnames
  obtain ⟨hsound', hlearns', -⟩ := hsound.maskAll later (hlearns.names ▸ hnames)
  refine ⟨?_, hlearns'.value, hsound'.inverse⟩
  refine hmasked.imp fun text masked hm ↦ ?_
  rw [hsound'.unmask_eq]
  exact hsound'.restored_iff hlearns'.value hm []

section Sample

def sampleTables : CharacterTables where
  word c := c.isAlphanum || c = '_'
  folding := ⟨id, fun _ _ h _ _ ↦ h⟩
  ascii _ _ := rfl

def sampleName : List Char := "Anna".toList

theorem not_readsAsToken_sampleName : ¬ReadsAsToken sampleTables (strip sampleName) := by
  rintro ⟨kind, n, h⟩
  have hmem : '_' ∈ inside kind n := List.mem_append_right _ List.mem_cons_self
  have heq : strip sampleName = inside kind n := eq_of_forall₂ h
  rw [← heq] at hmem
  revert hmem
  decide +kernel

theorem brackets_sampleName : ∀ name ∈ [sampleName], ∀ c ∈ name, c ≠ '[' ∧ c ≠ ']' := by
  have hall : sampleName.all (fun c ↦ c ≠ '[' && c ≠ ']') = true := rfl
  rw [List.forall_mem_singleton]
  intro c hc
  simpa using List.all_eq_true.1 hall c hc

def sampleTexts : List (List Char) := ["Anna: a@b.de".toList, "See [EMAIL_2]".toList]

def sampleBefore : List (List Char) × Mapper :=
  (init sampleTables [] [sampleName]).maskAll sampleTables sampleTexts

def sampleAfter : List (List Char) × Mapper :=
  sampleBefore.2.maskAll sampleTables ["c@d.de".toList]

theorem masking_reversible_sample :
    sampleBefore.1 = ["[NAME_1]: [EMAIL_1]".toList, "See [EMAIL_2]".toList] ∧
      sampleAfter.2.unmask sampleTables "[NAME_1]: [EMAIL_1]".toList = "Anna: a@b.de".toList ∧
        sampleAfter.2.unmask sampleTables "See [EMAIL_2]".toList ≠ "See [EMAIL_2]".toList := by
  have hall : List.Forall₂ (fun text masked ↦ sampleAfter.2.unmask sampleTables masked = text ↔
      ∀ τ, (sampleAfter.2.value τ).isSome → ¬τ <:+: text) sampleTexts sampleBefore.1 :=
    (masking_reversible sampleTables [] [sampleName] brackets_sampleName
      (List.forall_mem_singleton.2 not_readsAsToken_sampleName) sampleTexts ["c@d.de".toList]).1
  have hmasked : sampleBefore.1 = ["[NAME_1]: [EMAIL_1]".toList, "See [EMAIL_2]".toList] := by
    decide +kernel
  have hrows : sampleAfter.2.valueByToken.rows.map (·.1) =
      ["[EMAIL_1]".toList, "[NAME_1]".toList, "[EMAIL_2]".toList] := by
    decide +kernel
  have hgiven : (sampleAfter.2.value "[EMAIL_2]".toList).isSome := by
    decide +kernel
  have hapart : ∀ τ ∈ ["[EMAIL_1]".toList, "[NAME_1]".toList, "[EMAIL_2]".toList],
      ¬τ <:+: "Anna: a@b.de".toList := by
    decide +kernel
  rw [hmasked, sampleTexts] at hall
  generalize sampleAfter.2 = after at hall hrows hgiven ⊢
  obtain ⟨hfirst, hrest⟩ := List.forall₂_cons.1 hall
  obtain ⟨hsecond, -⟩ := List.forall₂_cons.1 hrest
  refine ⟨hmasked, hfirst.2 fun τ hτ ↦ hapart τ ?_, fun heq ↦ ?_⟩
  · obtain ⟨v, hv⟩ := Option.isSome_iff_exists.1 hτ
    rw [← hrows]
    exact List.mem_map.2 ⟨(τ, v), Table.find_eq_some.1 hv, rfl⟩
  · exact hsecond.1 heq _ hgiven ⟨"See ".toList, [], by decide⟩

/-- A text masked by a new mapper, and what comes back of it. -/
def maskedAndBack (knownNames : List (List Char)) (text : List Char) : List Char × List Char :=
  let r := (init sampleTables [] knownNames).mask sampleTables text
  (r.1, r.2.unmask sampleTables r.1)

/-- A text that quotes a token comes back with the token's value, and a name that reads like the
inside of a token takes the token apart. -/
theorem text_not_restored :
    maskedAndBack [] "[EMAIL_1] a@b.de".toList =
        ("[EMAIL_1] [EMAIL_1]".toList, "a@b.de a@b.de".toList) ∧
      maskedAndBack ["EMAIL_1".toList] "a@b.de".toList =
        ("[[NAME_1]]".toList, "[EMAIL_1]".toList) := by
  decide +kernel

end Sample

end Tiqora.Ai.Pii
