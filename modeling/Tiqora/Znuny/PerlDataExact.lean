import Tiqora.Znuny.PerlDataTokens

namespace Tiqora.Znuny.PerlData

open Foundation Foundation.Place

section Complete

variable {F : Type} {float : Text → F} {limits : Limits} {d n fuel depth : ℕ} {form : Form F}
  {v : Value F} {p p' q : Parser} {s t : Text}

theorem Renders.head (h : Renders float d (.value v) n s) : ∃ c t, s = c :: t ∧
    isWhitespace c = false ∧ c ≠ '#' ∧ c ≠ ']' ∧ c ≠ '\x7d' := by
  have hnumeral : ∀ {sign digits fraction : Text}, Numeral sign digits fraction →
      ∃ c t, sign ++ digits ++ fraction = c :: t ∧
        isWhitespace c = false ∧ c ≠ '#' ∧ c ≠ ']' ∧ c ≠ '\x7d' := by
    intro sign digits fraction hnum
    obtain ⟨c, t, ht, hc⟩ := hnum.head []
    rw [List.append_nil] at ht
    obtain ⟨hblank, hcomment⟩ := solid_of_digit hc
    refine ⟨c, t, ht, hblank, hcomment, ?_, ?_⟩ <;> rintro rfl <;> exact absurd hc (by decide)
  cases h with
  | array h => exact ⟨_, _, rfl, by decide⟩
  | hash h => exact ⟨_, _, rfl, by decide⟩
  | string h =>
    cases h with
    | single h => exact ⟨_, _, rfl, by decide⟩
    | double h => exact ⟨_, _, rfl, by decide⟩
  | int h hlength => exact hnumeral h
  | decimal h => exact hnumeral h
  | undef => exact ⟨_, _, rfl, by decide⟩

theorem Renders.solid (h : Renders float d (.value v) n s) (t : Text) : Solid (s ++ t) := by
  obtain ⟨c, s, rfl, hblank, hcomment, -⟩ := h.head
  exact solid_cons ⟨hblank, hcomment⟩

theorem array_done (hmove : Moves p [']'] 0 p') :
    array limits float (fuel + 1) depth p = .ok ([], p') := by
  have hrest : p.rest = ']' :: p'.rest := hmove.rest_eq
  have hskip : skipSpace p = p := Solid.skipSpace (hrest ▸ solid_cons (by decide))
  have hadvance : p.advance 1 = p' := hmove.advance_eq
  rw [array, hskip, hrest, List.head?_cons, if_pos rfl, hadvance]

theorem hash_done {out : List (Text × Value F)} (hmove : Moves p ['\x7d'] 0 p') :
    hash limits float (fuel + 1) depth out p = .ok (out, p') := by
  have hrest : p.rest = '\x7d' :: p'.rest := hmove.rest_eq
  have hskip : skipSpace p = p := Solid.skipSpace (hrest ▸ solid_cons (by decide))
  have hadvance : p.advance 1 = p' := hmove.advance_eq
  rw [hash, hskip, hrest, List.head?_cons, if_pos rfl, hadvance]

theorem array_gap {g : Text} (hg : Gap g) (hmove : Moves p g 0 q) (hsolid : Solid q.rest) :
    array limits float (fuel + 1) depth p = array limits float (fuel + 1) depth q := by
  rw [array, array, hg.skipSpace hmove hsolid, hsolid.skipSpace]

theorem hash_gap {g : Text} {out : List (Text × Value F)} (hg : Gap g) (hmove : Moves p g 0 q)
    (hsolid : Solid q.rest) :
    hash limits float (fuel + 1) depth out p = hash limits float (fuel + 1) depth out q := by
  rw [hash, hash, hg.skipSpace hmove hsolid, hsolid.skipSpace]

/-- An item and what follows it are read one after the other. -/
theorem array_item {r r' : Parser} {vs : List (Value F)} {c : Char} (hrest : p.rest = c :: s)
    (hc : isWhitespace c = false ∧ c ≠ '#' ∧ c ≠ ']')
    (hv : value limits float fuel depth p = .ok (v, r))
    (hsep : separator ']' .expectedInArray .unterminatedArray r = .ok ((), r'))
    (hvs : array limits float fuel depth r' = .ok (vs, p')) :
    array limits float (fuel + 1) depth p = .ok (v :: vs, p') := by
  have hskip : skipSpace p = p := Solid.skipSpace (hrest ▸ solid_cons ⟨hc.1, hc.2.1⟩)
  have hhead : ¬p.rest.head? = some ']' := by
    rw [hrest]
    exact fun heq ↦ hc.2.2 (Option.some.inj heq)
  rw [array, hskip, if_neg hhead, hv, ok_bind]
  dsimp only
  rw [hsep, ok_bind]
  dsimp only
  rw [hvs]
  rfl

theorem hash_pair {r₁ r₂ r₃ r₄ : Parser} {out ps : List (Text × Value F)} {k : Text} {c : Char}
    (hrest : p.rest = c :: s) (hc : isWhitespace c = false ∧ c ≠ '#' ∧ c ≠ '\x7d')
    (hk : hashKey p = .ok (k, r₁)) (hcomma : fatComma r₁ = .ok ((), r₂))
    (hv : value limits float fuel depth r₂ = .ok (v, r₃))
    (hsep : separator '\x7d' .expectedInHash .unterminatedHash r₃ = .ok ((), r₄))
    (hps : hash limits float fuel depth (put out (k, v)) r₄ = .ok (ps, p')) :
    hash limits float (fuel + 1) depth out p = .ok (ps, p') := by
  have hskip : skipSpace p = p := Solid.skipSpace (hrest ▸ solid_cons ⟨hc.1, hc.2.1⟩)
  have hhead : ¬p.rest.head? = some '\x7d' := by
    rw [hrest]
    exact fun heq ↦ hc.2.2 (Option.some.inj heq)
  rw [hash, hskip, if_neg hhead, hk, ok_bind]
  dsimp only
  rw [hcomma, ok_bind]
  dsimp only
  rw [hv, ok_bind]
  dsimp only
  rw [hsep, ok_bind]
  dsimp only
  rw [hps]

theorem value_gap {g : Text} (hg : Gap g) (hmove : Moves p g 0 q) (hsolid : Solid q.rest) :
    value limits float (fuel + 1) depth p = value limits float (fuel + 1) depth q := by
  rw [value, value, hg.skipSpace hmove hsolid, hsolid.skipSpace]

theorem enter_moves {c : Char} (hmove : Moves p [c] 1 q) (hdepth : depth ≤ limits.maxDepth)
    (hnodes : q.spent ≤ limits.maxNodes) : enter limits depth p = .ok ((), q) := by
  have hcharged : Moves (p.spend 1) [c] 0 q := ⟨hmove.rest_eq, hmove.pos_eq, hmove.spent_eq⟩
  have hadvance : (p.spend 1).advance 1 = q := hcharged.advance_eq
  rw [enter_eq hdepth (hmove.spent_eq ▸ hnodes), hadvance]

theorem countNode_moves (hmove : Moves p s 1 p') (hnodes : p'.spent ≤ limits.maxNodes) :
    countNode limits.maxNodes p = .ok ((), p.spend 1) ∧ Moves (p.spend 1) s 0 p' :=
  ⟨countNode_eq (hmove.spent_eq ▸ hnodes), hmove.rest_eq, hmove.pos_eq, hmove.spent_eq⟩

theorem number_moves {x : Except Error (Value F × Parser)} {sign digits fraction : Text}
    (h : Numeral sign digits fraction) (hmove : Moves p (sign ++ digits ++ fraction) 1 p')
    (hnodes : p'.spent ≤ limits.maxNodes) (hx : number float (p.spend 1) = x) :
    value limits float (fuel + 1) depth p = x := by
  obtain ⟨c, t, hrest, hc⟩ := h.head p'.rest
  rw [← hmove.rest_eq] at hrest
  have hskip : skipSpace p = p := Solid.skipSpace (hrest ▸ solid_cons (solid_of_digit hc))
  have hopen : c ≠ '[' ∧ c ≠ '\x7b' ∧ ¬(c = '\'' ∨ c = '"') := by
    refine ⟨?_, ?_, ?_⟩
    · rintro rfl
      exact absurd hc (by decide)
    · rintro rfl
      exact absurd hc (by decide)
    · rintro (rfl | rfl) <;> exact absurd hc (by decide)
  rw [value, hskip, hrest, List.head?_cons]
  dsimp only
  rw [if_neg hopen.1, if_neg hopen.2.1, if_neg hopen.2.2, if_pos hc,
    (countNode_moves hmove hnodes).1, ok_bind]
  exact hx

theorem moves_item {g g' : Text} {r : Parser} (hmove : Moves p (g ++ s ++ g') n r) :
    ∃ q q', Moves p g 0 q ∧ Moves q s n q' ∧ Moves q' g' 0 r := by
  obtain ⟨q', hitem, hgap'⟩ := hmove.split n 0 rfl
  obtain ⟨q, hgap, hvalue⟩ := hitem.split 0 n (Nat.zero_add n).symm
  exact ⟨q, q', hgap, hvalue, hgap'⟩

theorem moves_pair {g key g₁ g₂ g₃ : Text} {m k : ℕ} {r : Parser}
    (hmove : Moves p (g ++ key ++ g₁ ++ '=' :: '>' :: (g₂ ++ s ++ g₃ ++ t)) (m + k) r) :
    ∃ q q₁ q₂ q₃ q₄ q₅, Moves p g 0 q ∧ Moves q key 0 q₁ ∧ Moves q₁ (g₁ ++ ['=', '>']) 0 q₂ ∧
      Moves q₂ g₂ 0 q₃ ∧ Moves q₃ s m q₄ ∧ Moves q₄ g₃ 0 q₅ ∧ Moves q₅ t k r := by
  have hshape : g ++ key ++ g₁ ++ '=' :: '>' :: (g₂ ++ s ++ g₃ ++ t) =
      g ++ (key ++ ((g₁ ++ ['=', '>']) ++ (g₂ ++ (s ++ (g₃ ++ t))))) := by simp
  rw [hshape] at hmove
  have hzero : ∀ n, n = 0 + n := fun n ↦ (Nat.zero_add n).symm
  obtain ⟨q, hg, h⟩ := hmove.split 0 (m + k) (hzero _)
  obtain ⟨q₁, hkey, h⟩ := h.split 0 (m + k) (hzero _)
  obtain ⟨q₂, hcomma, h⟩ := h.split 0 (m + k) (hzero _)
  obtain ⟨q₃, hg₂, h⟩ := h.split 0 (m + k) (hzero _)
  obtain ⟨q₄, hs, h⟩ := h.split m k rfl
  obtain ⟨q₅, hg₃, h⟩ := h.split 0 k (hzero _)
  exact ⟨q, q₁, q₂, q₃, q₄, q₅, hg, hkey, hcomma, hg₂, hs, hg₃, h⟩

/-- A pair is read up to its separator. -/
theorem hash_step {g k key g₁ g₂ : Text} {q₁ q₂ q₃ q₄ r : Parser} {out ps : List (Text × Value F)}
    (hg : Gap g) (hk : Key k key) (hg₁ : Gap g₁) (hg₂ : Gap g₂) (h : Moves p g 0 q)
    (hkey : Moves q key 0 q₁) (hcomma : Moves q₁ (g₁ ++ ['=', '>']) 0 q₂) (hgap : Moves q₂ g₂ 0 q₃)
    (hsolid : Solid q₃.rest) (hv : value limits float (fuel + 1) depth q₃ = .ok (v, q₄))
    (hsep : separator '\x7d' .expectedInHash .unterminatedHash q₄ = .ok ((), r))
    (hps : hash limits float (fuel + 1) depth (put out (k, v)) r = .ok (ps, p')) :
    hash limits float (fuel + 2) depth out p = .ok (ps, p') := by
  obtain ⟨c, s, hhead, hblank, hcomment, hbrace⟩ := hk.head
  have hrest : q.rest = c :: (s ++ q₁.rest) := by rw [hkey.rest_eq, hhead, List.cons_append]
  have hfollow : Follow q₁.rest := by
    rw [hcomma.rest_eq, List.append_assoc]
    exact hg₁.follow (follow_cons (by decide))
  refine (hash_gap hg h (hrest ▸ solid_cons ⟨hblank, hcomment⟩)).trans ?_
  exact hash_pair hrest ⟨hblank, hcomment, hbrace⟩ (hk.hashKey hkey hfollow) (hg₁.fatComma hcomma)
    ((value_gap hg₂ hgap hsolid).trans hv) hsep hps

/-- What a form is read as, and where the reader stops. -/
def Reads (limits : Limits) (float : Text → F) (fuel depth : ℕ) : Form F → Parser → Parser → Prop
  | .value v, p, p' => value limits float fuel depth p = .ok (v, p')
  | .items vs, p, p' => array limits float fuel depth p = .ok (vs, p')
  | .pairs ps, p, p' => ∀ out, hash limits float fuel depth out p = .ok (ps.foldl put out, p')

def Form.weight : Form F → ℕ
  | .value _ => 1
  | .items _ => 2
  | .pairs _ => 2

theorem Renders.reads (h : Renders float d form n s) {fuel depth : ℕ} {p p' : Parser}
    (hmove : Moves p s n p') (ht : Follow p'.rest) (hdepth : depth + d ≤ limits.maxDepth)
    (hnodes : p'.spent ≤ limits.maxNodes) (hfuel : 2 * p.rest.length + form.weight ≤ fuel) :
    Reads limits float fuel depth form p p' := by
  induction h generalizing fuel depth p p' with
  | @array d n vs s h ih =>
    obtain ⟨fuel, rfl⟩ : ∃ f, fuel = f + 1 := ⟨fuel - 1, by rw [Form.weight] at hfuel; omega⟩
    obtain ⟨q, hopen, hitems⟩ := Moves.split (s := ['[']) hmove 1 n rfl
    have hrest : p.rest = '[' :: q.rest := hopen.rest_eq
    have hskip : skipSpace p = p := Solid.skipSpace (hrest ▸ solid_cons (by decide))
    have hspent := hitems.spent_eq
    have hlength := hopen.length_rest
    rw [Form.weight, hlength, List.length_singleton] at hfuel
    have hread := @ih fuel (depth + 1) q p' hitems ht (by omega) hnodes
      (by rw [Form.weight]; omega)
    change value limits float (fuel + 1) depth p = _
    rw [value, hskip, hrest, List.head?_cons]
    dsimp only
    rw [if_pos rfl, enter_moves hopen (by omega) (by omega), ok_bind]
    dsimp only
    rw [hread]
    rfl
  | @hash d n ps s h ih =>
    obtain ⟨fuel, rfl⟩ : ∃ f, fuel = f + 1 := ⟨fuel - 1, by rw [Form.weight] at hfuel; omega⟩
    obtain ⟨q, hopen, hpairs⟩ := Moves.split (s := ['\x7b']) hmove 1 n rfl
    have hrest : p.rest = '\x7b' :: q.rest := hopen.rest_eq
    have hskip : skipSpace p = p := Solid.skipSpace (hrest ▸ solid_cons (by decide))
    have hspent := hpairs.spent_eq
    have hlength := hopen.length_rest
    rw [Form.weight, hlength, List.length_singleton] at hfuel
    have hread := @ih fuel (depth + 1) q p' hpairs ht (by omega) hnodes
      (by rw [Form.weight]; omega) []
    change value limits float (fuel + 1) depth p = _
    rw [value, hskip, hrest, List.head?_cons]
    dsimp only
    rw [if_neg (by decide), if_pos rfl, enter_moves hopen (by omega) (by omega), ok_bind]
    dsimp only
    rw [hread]
    rfl
  | @string d v s h =>
    obtain ⟨fuel, rfl⟩ : ∃ f, fuel = f + 1 := ⟨fuel - 1, by rw [Form.weight] at hfuel; omega⟩
    obtain ⟨quote, body, rfl, hquote⟩ : ∃ quote body, s = quote :: body ∧
        (quote = '\'' ∨ quote = '"') := by
      cases h with
      | single h => exact ⟨_, _, rfl, .inl rfl⟩
      | double h => exact ⟨_, _, rfl, .inr rfl⟩
    have hrest : p.rest = quote :: (body ++ p'.rest) := hmove.rest_eq
    have hsolid : isWhitespace quote = false ∧ quote ≠ '#' ∧ quote ≠ '[' ∧ quote ≠ '\x7b' := by
      obtain rfl | rfl := hquote <;> decide
    have hskip : skipSpace p = p :=
      Solid.skipSpace (hrest ▸ solid_cons ⟨hsolid.1, hsolid.2.1⟩)
    obtain ⟨hcount, hcounted⟩ := countNode_moves hmove hnodes
    change value limits float (fuel + 1) depth p = _
    rw [value, hskip, hrest, List.head?_cons]
    dsimp only
    rw [if_neg hsolid.2.2.1, if_neg hsolid.2.2.2, if_pos hquote, hcount, ok_bind]
    dsimp only
    rw [h.string hcounted]
    rfl
  | int h hlength =>
    obtain ⟨fuel, rfl⟩ : ∃ f, fuel = f + 1 := ⟨fuel - 1, by rw [Form.weight] at hfuel; omega⟩
    exact number_moves h hmove hnodes
      (h.number_int hlength (countNode_moves hmove hnodes).2 ht)
  | decimal h =>
    obtain ⟨fuel, rfl⟩ : ∃ f, fuel = f + 1 := ⟨fuel - 1, by rw [Form.weight] at hfuel; omega⟩
    exact number_moves h hmove hnodes
      (h.number_decimal (List.cons_ne_nil _ _) (countNode_moves hmove hnodes).2 ht)
  | undef =>
    obtain ⟨fuel, rfl⟩ : ∃ f, fuel = f + 1 := ⟨fuel - 1, by rw [Form.weight] at hfuel; omega⟩
    have hrest : p.rest = 'u' :: (['n', 'd', 'e', 'f'] ++ p'.rest) := hmove.rest_eq
    have hskip : skipSpace p = p := Solid.skipSpace (hrest ▸ solid_cons (by decide))
    obtain ⟨q, hword, hcount⟩ :=
      Moves.split (s := ['u', 'n', 'd', 'e', 'f']) (t := []) hmove 0 1 rfl
    have hq : q.rest = p'.rest := hcount.rest_eq
    have hbare : bareword p = (['u', 'n', 'd', 'e', 'f'], q) :=
      bareword_eq (s := ['n', 'd', 'e', 'f']) (List.all_eq_true.1 rfl) hword (hq ▸ ht)
    have hcharge : q.spend 1 = p' := by
      have hzero := (countNode_moves hcount hnodes).2.advance_eq
      exact hzero
    change value limits float (fuel + 1) depth p = _
    rw [value, hskip, hrest, List.head?_cons]
    dsimp only
    rw [if_neg (by decide), if_neg (by decide), if_neg (by decide), if_neg (by decide),
      if_pos (by decide), hbare]
    dsimp only
    rw [if_pos rfl, (countNode_moves hcount hnodes).1, ok_bind]
    dsimp only
    rw [hcharge]
  | noItems hg =>
    obtain ⟨fuel, rfl⟩ : ∃ f, fuel = f + 1 := ⟨fuel - 1, by rw [Form.weight] at hfuel; omega⟩
    obtain ⟨q, hgap, hclose⟩ := hmove.split 0 0 rfl
    have hsolid : Solid q.rest := by
      rw [hclose.rest_eq]
      exact solid_cons (by decide)
    exact (array_gap hg hgap hsolid).trans (array_done hclose)
  | @lastItem d n v g s g' hg h hg' ih =>
    obtain ⟨fuel, rfl⟩ : ∃ f, fuel = f + 1 := ⟨fuel - 1, by rw [Form.weight] at hfuel; omega⟩
    obtain ⟨r, hparts, hclose⟩ := hmove.split n 0 rfl
    obtain ⟨q, q', hgap, hvalue, hgap'⟩ := moves_item hparts
    obtain ⟨c, t, hs, hblank, hcomment, hbracket, -⟩ := h.head
    have hrest : q.rest = c :: (t ++ q'.rest) := by rw [hvalue.rest_eq, hs, List.cons_append]
    have hr : r.rest = ']' :: p'.rest := hclose.rest_eq
    have hspent := hgap'.spent_eq
    have hspent' := hclose.spent_eq
    have hlength := hgap.length_rest
    have hlength' : q.rest.length = (t ++ q'.rest).length + 1 := by rw [hrest, List.length_cons]
    rw [Form.weight] at hfuel
    obtain ⟨fuel, rfl⟩ : ∃ f, fuel = f + 1 := ⟨fuel - 1, by omega⟩
    have hfollow : Follow q'.rest := by
      rw [hgap'.rest_eq, hr]
      exact hg'.follow (follow_cons (by decide))
    have hread := @ih (fuel + 1) depth q q' hvalue hfollow hdepth (by omega)
      (by rw [Form.weight]; omega)
    refine (array_gap hg hgap (hrest ▸ solid_cons ⟨hblank, hcomment⟩)).trans ?_
    exact array_item hrest ⟨hblank, hcomment, hbracket⟩ hread
      (hg'.separator_close hgap' hr (by decide)) (array_done hclose)
  | @item d m n v vs g s g' t hg h hg' ht' ih iht =>
    obtain ⟨fuel, rfl⟩ : ∃ f, fuel = f + 1 := ⟨fuel - 1, by rw [Form.weight] at hfuel; omega⟩
    obtain ⟨r, hparts, hnext⟩ := hmove.split m n rfl
    obtain ⟨r', hcomma, hitems⟩ := Moves.split (s := [',']) hnext 0 n (Nat.zero_add n).symm
    obtain ⟨q, q', hgap, hvalue, hgap'⟩ := moves_item hparts
    obtain ⟨c, u, hs, hblank, hcomment, hbracket, -⟩ := h.head
    have hrest : q.rest = c :: (u ++ q'.rest) := by rw [hvalue.rest_eq, hs, List.cons_append]
    have hr : r.rest = ',' :: r'.rest := hcomma.rest_eq
    have hspent := hgap'.spent_eq
    have hspent' := hnext.spent_eq
    have hlength := hgap.length_rest
    have hlength' : q.rest.length = (u ++ q'.rest).length + 1 := by rw [hrest, List.length_cons]
    have hlength'' := hgap'.length_rest
    have hlength''' := hcomma.length_rest
    rw [List.length_append] at hlength'
    rw [Form.weight] at hfuel
    have hfollow : Follow q'.rest := by
      rw [hgap'.rest_eq, hr]
      exact hg'.follow (follow_cons (by decide))
    have hread := @ih fuel depth q q' hvalue hfollow hdepth (by omega)
      (by rw [Form.weight]; omega)
    have hreads := @iht fuel depth r' p' hitems ht hdepth hnodes (by rw [Form.weight]; omega)
    refine (array_gap hg hgap (hrest ▸ solid_cons ⟨hblank, hcomment⟩)).trans ?_
    exact array_item hrest ⟨hblank, hcomment, hbracket⟩ hread
      (hg'.separator_comma (hgap'.trans hcomma)) hreads
  | noPairs hg =>
    obtain ⟨fuel, rfl⟩ : ∃ f, fuel = f + 1 := ⟨fuel - 1, by rw [Form.weight] at hfuel; omega⟩
    obtain ⟨q, hgap, hclose⟩ := hmove.split 0 0 rfl
    have hsolid : Solid q.rest := by
      rw [hclose.rest_eq]
      exact solid_cons (by decide)
    exact fun out ↦ (hash_gap hg hgap hsolid).trans (hash_done hclose)
  | @lastPair d n k v g key g₁ g₂ s g₃ hg hk hg₁ hg₂ h hg₃ ih =>
    obtain ⟨q, q₁, q₂, q₃, q₄, q₅, hgap, hkey, hcomma, hgap₂, hvalue, hgap₃, hclose⟩ :=
      moves_pair (m := n) (k := 0) hmove
    have hr : q₅.rest = '\x7d' :: p'.rest := hclose.rest_eq
    have hspent := hgap₃.spent_eq
    have hspent' := hclose.spent_eq
    have hlength := (((hgap.trans hkey).trans hcomma).trans hgap₂).length_rest
    simp only [List.length_append, List.length_cons, List.length_nil] at hlength
    rw [Form.weight] at hfuel
    obtain ⟨fuel, rfl⟩ : ∃ f, fuel = f + 2 := ⟨fuel - 2, by omega⟩
    have hfollow : Follow q₄.rest := by
      rw [hgap₃.rest_eq, hr]
      exact hg₃.follow (follow_cons (by decide))
    have hread := @ih (fuel + 1) depth q₃ q₄ hvalue hfollow hdepth (by omega)
      (by rw [Form.weight]; omega)
    exact fun out ↦ hash_step hg hk hg₁ hg₂ hgap hkey hcomma hgap₂ (hvalue.rest_eq ▸ h.solid _)
      hread (hg₃.separator_close hgap₃ hr (by decide)) (hash_done hclose)
  | @pair d m n k v ps g key g₁ g₂ s g₃ t hg hk hg₁ hg₂ h hg₃ ht' ih iht =>
    obtain ⟨q, q₁, q₂, q₃, q₄, q₅, hgap, hkey, hcomma, hgap₂, hvalue, hgap₃, hnext⟩ :=
      moves_pair (m := m) (k := n) hmove
    obtain ⟨r, hseparator, hpairs⟩ := Moves.split (s := [',']) hnext 0 n (Nat.zero_add n).symm
    have hr : q₅.rest = ',' :: r.rest := hseparator.rest_eq
    have hspent := hgap₃.spent_eq
    have hspent' := hnext.spent_eq
    have hlength := (((hgap.trans hkey).trans hcomma).trans hgap₂).length_rest
    have hlength' := ((hvalue.trans hgap₃).trans hseparator).length_rest
    simp only [List.length_append, List.length_cons, List.length_nil] at hlength hlength'
    rw [Form.weight] at hfuel
    obtain ⟨fuel, rfl⟩ : ∃ f, fuel = f + 2 := ⟨fuel - 2, by omega⟩
    have hfollow : Follow q₄.rest := by
      rw [hgap₃.rest_eq, hr]
      exact hg₃.follow (follow_cons (by decide))
    have hread := @ih (fuel + 1) depth q₃ q₄ hvalue hfollow hdepth (by omega)
      (by rw [Form.weight]; omega)
    have hreads := @iht (fuel + 1) depth r p' hpairs ht hdepth hnodes
      (by rw [Form.weight]; omega)
    exact fun out ↦ hash_step hg hk hg₁ hg₂ hgap hkey hcomma hgap₂ (hvalue.rest_eq ▸ h.solid _)
      hread (hg₃.separator_comma (hgap₃.trans hseparator)) (hreads _)

end Complete

section Sound

variable {F : Type} {float : Text → F} {limits : Limits} {d fuel depth : ℕ} {p p' : Parser}

theorem Renders.ne_nil {v : Value F} {n : ℕ} {s : Text} (h : Renders float d (.value v) n s) :
    0 < s.length := by
  obtain ⟨c, t, rfl, -⟩ := h.head
  exact Nat.succ_pos _

/-- What the reader of values has read. -/
def ReadsValue (float : Text → F) (d : ℕ) (v : Value F) (n : ℕ) (s : Text) : Prop :=
  ∃ g t, Gap g ∧ Renders float d (.value v) n t ∧ s = g ++ t

structure Sound (limits : Limits) (float : Text → F) (fuel : ℕ) : Prop where
  reads_value : ∀ {depth d : ℕ} {p : Parser}, depth + d = limits.maxDepth →
    2 * p.rest.length + 1 ≤ fuel →
    Outcome Fails limits.maxNodes (ReadsValue float d) p (value limits float fuel depth p)
  reads_array : ∀ {depth d : ℕ} {p : Parser}, depth + d = limits.maxDepth →
    2 * p.rest.length + 2 ≤ fuel →
    Outcome Fails limits.maxNodes (fun vs n s ↦ Renders float d (.items vs) n s) p
      (array limits float fuel depth p)
  reads_hash : ∀ {depth d : ℕ} {out : List (Text × Value F)} {p : Parser},
    depth + d = limits.maxDepth →
    2 * p.rest.length + 2 ≤ fuel → Outcome Fails limits.maxNodes
      (fun result n s ↦ ∃ ps, result = ps.foldl put out ∧ Renders float d (.pairs ps) n s) p
      (hash limits float fuel depth out p)

theorem Sound.value_succ (h : Sound limits float fuel) (hdepth : depth + d = limits.maxDepth)
    (hfuel : 2 * p.rest.length + 1 ≤ fuel + 1) :
    Outcome Fails limits.maxNodes (ReadsValue float d) p
      (value limits float (fuel + 1) depth p) := by
  obtain ⟨g, hmove, hsolid, hend, hgap⟩ := moves_skipSpace p
  have hlength := hmove.length_rest
  rw [PerlData.value]
  refine .after fails_of_moves hmove (fun hle ↦ hmove.spent_eq ▸ hle) ?_
  generalize skipSpace p = q at hmove hsolid hgap hlength
  cases hrest : q.rest with
  | nil => exact outcome_fail _ _
  | cons c s =>
    have hg : Gap g := hgap (by rw [hrest]; exact List.cons_ne_nil _ _)
    rw [hrest, List.length_cons] at hlength
    rw [List.head?_cons]
    dsimp only
    split_ifs with harray hhash hquote hnumber hbare hundef
    · subst harray
      refine (enter_spec hrest).bind fails_of_moves fun _ q' t n hopen hentered ↦ ?_
      obtain ⟨rfl, rfl, hle⟩ := hentered
      obtain ⟨d, rfl⟩ : ∃ e, d = e + 1 := ⟨d - 1, by omega⟩
      have hshorter := hopen.length_rest
      rw [hrest, List.length_cons, List.length_singleton] at hshorter
      refine (h.reads_array (d := d) (by omega) (by omega)).bind fails_of_moves
        fun vs q'' t n hitems hread ↦ ?_
      refine .free (.refl _) ⟨g, '[' :: t, hg, ?_, by simp⟩
      have hvalue := Renders.array hread
      simpa using hvalue
    · subst hhash
      refine (enter_spec hrest).bind fails_of_moves fun _ q' t n hopen hentered ↦ ?_
      obtain ⟨rfl, rfl, hle⟩ := hentered
      obtain ⟨d, rfl⟩ : ∃ e, d = e + 1 := ⟨d - 1, by omega⟩
      have hshorter := hopen.length_rest
      rw [hrest, List.length_cons, List.length_singleton] at hshorter
      refine (h.reads_hash (d := d) (by omega) (by omega)).bind fails_of_moves
        fun out q'' t n hpairs hread ↦ ?_
      obtain ⟨ps, rfl, hread⟩ := hread
      refine .free (.refl _) ⟨g, '\x7b' :: t, hg, ?_, by simp⟩
      have hvalue := Renders.hash hread
      simpa [dict] using hvalue
    · refine (countNode_spec q).bind fails_of_moves fun _ q' t n hcount hcounted ↦ ?_
      obtain ⟨rfl, rfl⟩ := hcounted
      have hrest' : q'.rest = c :: s := hcount.rest_eq.symm.trans hrest
      refine (string_spec hquote hrest').bind fails_of_moves fun v q'' t n hread hquoted ↦ ?_
      obtain ⟨rfl, hquoted⟩ := hquoted
      exact .free (.refl _) ⟨g, t, hg, .string hquoted, by simp⟩
    · refine (countNode_spec q).bind fails_of_moves fun _ q' t n hcount hcounted ↦ ?_
      obtain ⟨rfl, rfl⟩ := hcounted
      refine (number_spec q').mono fun v n t hread ↦ ?_
      obtain ⟨rfl, hread⟩ := hread
      exact ⟨g, t, hg, hread d, by simp⟩
    · obtain ⟨word, q', hword, hmove', hall⟩ := bareword_spec hrest
      rw [hword] at hundef ⊢
      dsimp only at hundef ⊢
      refine .after fails_of_moves hmove' (fun hle ↦ hmove'.spent_eq ▸ hle) ?_
      refine (countNode_spec q').bind fails_of_moves fun _ q'' t n hcount hcounted ↦ ?_
      obtain ⟨rfl, rfl⟩ := hcounted
      exact .free (.refl _) ⟨g, _, hg, .undef, by rw [hundef]; simp⟩
    · exact outcome_fail _ _
    · exact outcome_fail _ _

theorem Sound.array_succ (h : Sound limits float fuel) (hdepth : depth + d = limits.maxDepth)
    (hfuel : 2 * p.rest.length + 2 ≤ fuel + 1) :
    Outcome Fails limits.maxNodes (fun vs n s ↦ Renders float d (.items vs) n s) p
      (array limits float (fuel + 1) depth p) := by
  obtain ⟨g, hmove, hsolid, hend, hgap⟩ := moves_skipSpace p
  have hlength := hmove.length_rest
  rw [PerlData.array]
  refine .after fails_of_moves hmove (fun hle ↦ hmove.spent_eq ▸ hle) ?_
  generalize skipSpace p = q at hmove hsolid hgap hlength
  split
  · rename_i hclose
    obtain ⟨s, hs⟩ := List.head?_eq_some_iff.1 hclose
    have hg : Gap g := hgap (by rw [hs]; exact List.cons_ne_nil _ _)
    exact .free (moves_advance (s := [']']) hs) (.noItems hg)
  · refine (h.reads_value hdepth (by omega)).bind fails_of_moves fun v q₁ s m hvalue hread ↦ ?_
    obtain ⟨g', t, hg', hread, rfl⟩ := hread
    have hpos := hread.ne_nil
    have hlength₁ := hvalue.length_rest
    rw [List.length_append] at hlength₁
    have hg : Gap g := hgap fun hnil ↦ by rw [hnil, List.length_nil] at hlength₁; omega
    obtain ⟨g₁, q₂, hsep, hg₁, hnext⟩ | ⟨e, hsep, he⟩ :=
      separator_spec ']' .expectedInArray .unterminatedArray q₁
    · dsimp only
      rw [hsep, ok_bind]
      dsimp only
      obtain hcomma | ⟨hend, hclose⟩ := hnext
      · have hlength₂ := hcomma.length_rest
        refine .after fails_of_moves hcomma (fun hle ↦ hcomma.spent_eq ▸ hle) ?_
        refine (h.reads_array hdepth (by omega)).bind fails_of_moves fun vs q₃ u n hitems hrest ↦ ?_
        refine .free (.refl _) ?_
        have hitem := Renders.item (hg.append hg') hread hg₁ hrest
        simpa [Nat.add_assoc] using hitem
      · obtain ⟨s, hs⟩ := List.head?_eq_some_iff.1 hclose
        have hlength₂ := hend.length_rest
        obtain ⟨fuel, rfl⟩ : ∃ f, fuel = f + 1 := ⟨fuel - 1, by omega⟩
        have hdone := moves_advance (s := [']']) hs
        rw [array_done hdone, ok_bind]
        refine .free (hend.trans hdone) ?_
        have hitem := Renders.lastItem (hg.append hg') hread hg₁
        simpa using hitem
    · dsimp only
      rw [hsep]
      exact he

theorem Sound.hash_succ {out : List (Text × Value F)} (h : Sound limits float fuel)
    (hdepth : depth + d = limits.maxDepth) (hfuel : 2 * p.rest.length + 2 ≤ fuel + 1) :
    Outcome Fails limits.maxNodes
      (fun result n s ↦ ∃ ps, result = ps.foldl put out ∧ Renders float d (.pairs ps) n s) p
      (hash limits float (fuel + 1) depth out p) := by
  obtain ⟨g, hmove, hsolid, hend, hgap⟩ := moves_skipSpace p
  have hlength := hmove.length_rest
  rw [PerlData.hash]
  refine .after fails_of_moves hmove (fun hle ↦ hmove.spent_eq ▸ hle) ?_
  generalize skipSpace p = q at hmove hsolid hgap hlength
  split
  · rename_i hclose
    obtain ⟨s, hs⟩ := List.head?_eq_some_iff.1 hclose
    have hg : Gap g := hgap (by rw [hs]; exact List.cons_ne_nil _ _)
    exact .free (moves_advance (s := ['\x7d']) hs) ⟨[], rfl, .noPairs hg⟩
  · refine (hashKey_spec q).bind fails_of_moves fun k q₁ s m hkey hkeyed ↦ ?_
    obtain ⟨rfl, g', key, hg', hk, rfl⟩ := hkeyed
    obtain ⟨c, t, hhead, -⟩ := hk.head
    have hlength₁ := hkey.length_rest
    rw [List.length_append, hhead, List.length_cons] at hlength₁
    have hg : Gap g := hgap fun hnil ↦ by rw [hnil, List.length_nil] at hlength₁; omega
    refine (fatComma_spec q₁).bind fails_of_moves fun _ q₂ s m hcomma hfat ↦ ?_
    obtain ⟨rfl, g₁, hg₁, rfl⟩ := hfat
    have hlength₂ := hcomma.length_rest
    refine (h.reads_value hdepth (by omega)).bind fails_of_moves fun v q₃ s m hvalue hread ↦ ?_
    obtain ⟨g₂, t', hg₂, hread, rfl⟩ := hread
    have hpos := hread.ne_nil
    have hlength₃ := hvalue.length_rest
    rw [List.length_append] at hlength₃
    obtain ⟨g₃, q₄, hsep, hg₃, hnext⟩ | ⟨e, hsep, he⟩ :=
      separator_spec '\x7d' .expectedInHash .unterminatedHash q₃
    · dsimp only
      rw [hsep, ok_bind]
      dsimp only
      obtain hseparator | ⟨hend, hclose⟩ := hnext
      · have hlength₄ := hseparator.length_rest
        refine .after fails_of_moves hseparator (fun hle ↦ hseparator.spent_eq ▸ hle) ?_
        refine (h.reads_hash hdepth (by omega)).mono fun result n u hpairs ↦ ?_
        obtain ⟨ps, rfl, hpairs⟩ := hpairs
        refine ⟨(k, v) :: ps, rfl, ?_⟩
        have hpair := Renders.pair (hg.append hg') hk hg₁ hg₂ hread hg₃ hpairs
        simpa [Nat.add_assoc] using hpair
      · obtain ⟨s, hs⟩ := List.head?_eq_some_iff.1 hclose
        have hlength₄ := hend.length_rest
        obtain ⟨fuel, rfl⟩ : ∃ f, fuel = f + 1 := ⟨fuel - 1, by omega⟩
        have hdone := moves_advance (s := ['\x7d']) hs
        rw [hash_done hdone]
        refine .free (hend.trans hdone) ⟨[(k, v)], rfl, ?_⟩
        have hpair := Renders.lastPair (hg.append hg') hk hg₁ hg₂ hread hg₃
        simpa using hpair
    · dsimp only
      rw [hsep]
      exact he

theorem sound (limits : Limits) (float : Text → F) (fuel : ℕ) : Sound limits float fuel := by
  induction fuel with
  | zero => exact ⟨fun _ hfuel ↦ by omega, fun _ hfuel ↦ by omega, fun _ hfuel ↦ by omega⟩
  | succ fuel ih => exact ⟨ih.value_succ, ih.array_succ, ih.hash_succ⟩

end Sound

section Texts

variable {F : Type} {float : Text → F} {limits : Limits} {d d' n n' : ℕ} {v v' : Value F}
  {text : Text}

/-- A rendering is read to its end, whatever the text's length is. -/
theorem Rendering.reads (limits : Limits) (h : Rendering float d v n text)
    (hdepth : d ≤ limits.maxDepth)
    (hnodes : n ≤ limits.maxNodes) : ∃ r : Parser, (skipSpace ⟨0, text, 0⟩).rest ≠ [] ∧
      value limits float (2 * text.length + 1) 0 (skipSpace ⟨0, text, 0⟩) = .ok (v, r) ∧
      (skipSpace r).rest = [] ∧ r.spent = n := by
  obtain ⟨g, s, g', rfl, hg, hs, hg'⟩ := h
  obtain ⟨c, t, hhead, -⟩ := hs.head
  have hwhole : Moves ⟨0, g ++ s ++ g', 0⟩ (g ++ s) n (⟨(g ++ s).length, g', n⟩ : Parser) :=
    ⟨rfl, (Nat.zero_add _).symm, (Nat.zero_add _).symm⟩
  obtain ⟨q, hgap, hvalue⟩ := hwhole.split 0 n (Nat.zero_add n).symm
  have hrest : q.rest = s ++ g' := hvalue.rest_eq
  have hskip : skipSpace ⟨0, g ++ s ++ g', 0⟩ = q := hg.skipSpace hgap (hrest ▸ hs.solid g')
  have hlength := hgap.length_rest
  dsimp only at hlength
  refine ⟨⟨(g ++ s).length, g', n⟩, ?_, ?_, ?_, rfl⟩
  · rw [hskip, hrest, hhead]
    exact List.cons_ne_nil _ _
  · rw [hskip]
    exact hs.reads hvalue hg'.follow (by omega) hnodes (by rw [Form.weight]; omega)
  · rw [skipSpace, rest_advance, hg'.spaceWidth, List.drop_length]

/-- A text renders one value at most. -/
theorem Rendering.unique (h : Rendering float d v n text) (h' : Rendering float d' v' n' text) :
    v = v' ∧ n = n' := by
  obtain ⟨r, -, hread, -, hn⟩ :=
    h.reads ⟨max d d', max n n'⟩ (Nat.le_max_left _ _) (Nat.le_max_left _ _)
  obtain ⟨r', -, hread', -, hn'⟩ :=
    h'.reads ⟨max d d', max n n'⟩ (Nat.le_max_right _ _) (Nat.le_max_right _ _)
  rw [hread] at hread'
  cases hread'
  exact ⟨rfl, hn.symm.trans hn'⟩

theorem Rendering.parse (h : Rendering float limits.maxDepth v n text)
    (hnodes : n ≤ limits.maxNodes) (hlength : text.length ≤ maxTextChars) :
    parsePerlData limits float text = .ok v := by
  obtain ⟨r, hne, hread, hend, -⟩ := h.reads limits le_rfl hnodes
  rw [parsePerlData, if_neg (Nat.not_lt.2 hlength)]
  dsimp only
  rw [require, if_pos hne, ok_bind, hread, ok_bind]
  dsimp only
  rw [require, if_pos hend]
  rfl

/-- What the parser gives is rendered by the text; otherwise it fails within the text. -/
theorem parse_spec (limits : Limits) (float : Text → F) (text : Text) :
    match parsePerlData limits float text with
    | .ok v => ∃ n, Rendering float limits.maxDepth v n text ∧ n ≤ limits.maxNodes
    | .error e => Fails ⟨0, text, 0⟩ e := by
  obtain ⟨g, hmove, hsolid, -, hgap⟩ := moves_skipSpace ⟨0, text, 0⟩
  have hlength := hmove.length_rest
  dsimp only at hlength
  rw [parsePerlData]
  by_cases hlong : maxTextChars < text.length
  · rw [if_pos hlong]
    exact Nat.zero_le _
  · rw [if_neg hlong]
    dsimp only
    generalize skipSpace ⟨0, text, 0⟩ = q at hmove hsolid hgap hlength
    by_cases hempty : q.rest = []
    · rw [require, if_neg (not_not_intro hempty)]
      exact fails_of_moves hmove (fails_here q .emptyInput)
    · rw [require, if_pos hempty, ok_bind]
      have hread : Outcome Fails limits.maxNodes (ReadsValue float limits.maxDepth) q
          (value limits float (2 * text.length + 1) 0 q) :=
        (sound limits float _).reads_value (Nat.zero_add _) (by omega)
      cases hx : value limits float (2 * text.length + 1) 0 q with
      | error e =>
        rw [hx] at hread
        exact fails_of_moves hmove hread
      | ok result =>
        obtain ⟨v, r⟩ := result
        rw [hx] at hread
        obtain ⟨s, n, hvalue, hspent, g₁, t, hg₁, hread, rfl⟩ := hread
        obtain ⟨g', hafter, -, hend, -⟩ := moves_skipSpace r
        have hall := (hmove.trans hvalue).trans hafter
        rw [ok_bind]
        dsimp only
        by_cases hrest : (skipSpace r).rest = []
        · rw [require, if_pos hrest]
          refine ⟨n, ⟨g ++ g₁, t, g', ?_, (hgap hempty).append hg₁, hread, hend⟩, ?_⟩
          · have htext : text = _ := hall.rest_eq
            rw [hrest, List.append_nil, ← List.append_assoc] at htext
            exact htext
          · have hn := hvalue.spent_eq
            rw [hmove.spent_eq] at hn hspent
            have hle := hspent (Nat.zero_le _)
            omega
        · rw [require, if_neg hrest]
          exact fails_of_moves hall (fails_here _ .textAfterValue)

/-- Every rendering that is not too long is read as its value. A text that is none is refused at an
offset within it, where all its integers can be read. -/
theorem perl_data_exact (limits : Limits) (float : Text → F) (text : Text) :
    (∀ v n, Rendering float limits.maxDepth v n text → n ≤ limits.maxNodes →
      text.length ≤ maxTextChars → parsePerlData limits float text = .ok v) ∧
    ((∀ v n, Rendering float limits.maxDepth v n text → n ≤ limits.maxNodes →
      maxTextChars < text.length) → ¬LongInteger text → ∃ place message,
        parsePerlData limits float text = .error (.perlData place message) ∧
          place ≤ text.length) := by
  refine ⟨fun v n h hnodes hlength ↦ h.parse hnodes hlength, fun hnone hlong ↦ ?_⟩
  by_cases hlength : maxTextChars < text.length
  · exact ⟨0, _, if_pos hlength, Nat.zero_le _⟩
  · have hspec := parse_spec limits float text
    cases hx : parsePerlData limits float text with
    | ok v =>
      rw [hx] at hspec
      obtain ⟨n, h, hnodes⟩ := hspec
      exact absurd (hnone v n h hnodes) hlength
    | error e =>
      rw [hx] at hspec
      cases e with
      | perlData place message =>
        have hplace : place ≤ 0 + text.length := hspec
        exact ⟨place, message, rfl, by omega⟩
      | valueError => exact absurd hspec hlong
      | exhausted => exact hspec.elim

theorem renders_one (d : ℕ) :
    Renders (fun raw ↦ raw) d (.value (.int 1 : Value Text)) 1 ['1'] :=
  @Renders.int Text (fun raw ↦ raw) d [] ['1']
    ⟨.inl rfl, ⟨List.cons_ne_nil _ _, List.forall_mem_singleton.2 rfl⟩, fun _ ↦ rfl, .inl rfl⟩
    (by decide)

theorem perl_data_sample :
    parsePerlData ⟨64, 200000⟩ (fun raw ↦ raw) "\x7ba=>1,#c\n a=>undef,\x7d".toList =
        .ok (.hash [(['a'], .undef)] : Value Text) ∧
      ∃ place message, parsePerlData ⟨64, 200000⟩ (fun raw ↦ raw) ['[', '1'] =
        (.error (.perlData place message) : Except Error (Value Text)) ∧ place ≤ 2 := by
  refine ⟨(perl_data_exact _ _ _).1 _ 3 ?_ (Nat.le_of_ble_eq_true rfl)
    (Nat.le_of_ble_eq_true rfl),
    (perl_data_exact _ _ _).2 ?_ ?_⟩
  · have hkey : Key ['a'] ['a'] := .bareword rfl (List.forall_mem_nil _)
    have hgap : Gap ['#', 'c', '\n', ' '] := by
      exact @Gap.comment ['c'] [' '] (by decide) (.blank rfl .nil)
    have hpairs := Renders.pair .nil hkey .nil .nil (renders_one 63) .nil
      (.pair hgap hkey .nil .nil .undef .nil (.noPairs .nil))
    exact ⟨[], _, [], rfl, .nil, .hash hpairs, .gap .nil⟩
  · intro v n h hnodes
    have hread := (perl_data_exact ⟨64, 200000⟩ _ _).1 v n h hnodes
      (Nat.le_of_ble_eq_true rfl)
    have hrefused : parsePerlData ⟨64, 200000⟩ (fun raw ↦ raw) ['[', '1'] =
        (.error (.perlData 2 .unterminatedArray) : Except Error (Value Text)) := rfl
    rw [hrefused] at hread
    cases hread
  · rintro ⟨before, digits, after, htext, -, hlong⟩
    have hlength := congrArg List.length htext
    rw [List.length_append, List.length_append, maxIntDigits] at *
    simp only [List.length_cons, List.length_nil] at hlength
    omega

theorem longer_text_refused : ∃ text : Text,
    Rendering (fun raw ↦ raw) 64 (.int 1 : Value Text) 1 text ∧
      ¬parsePerlData ⟨64, 200000⟩ (fun raw ↦ raw) text = .ok (.int 1 : Value Text) := by
  have hgap : ∀ n, Gap (List.replicate n ' ') := by
    intro n
    induction n with
    | zero => exact .nil
    | succ n ih => exact .blank rfl ih
  refine ⟨List.replicate maxTextChars ' ' ++ ['1'], ?_, ?_⟩
  · exact ⟨_, ['1'], [], (List.append_nil _).symm, hgap _, renders_one 64, .gap .nil⟩
  · have hlong : maxTextChars < (List.replicate maxTextChars ' ' ++ ['1']).length := by
      rw [List.length_append, List.length_replicate, List.length_singleton]
      exact Nat.lt_succ_self _
    rw [parsePerlData, if_pos hlong]
    exact fun heq ↦ by cases heq

end Texts

end Tiqora.Znuny.PerlData
