import Mathlib.Data.List.TakeWhile
import Tiqora.Znuny.PerlData

namespace Tiqora.Znuny.PerlData

open Foundation Foundation.Place

section Grammar

/-- Blanks, and comments with their line ends. -/
inductive Gap : Text → Prop
  | nil : Gap []
  | blank {c : Char} {s : Text} (hc : isWhitespace c = true) (hs : Gap s) : Gap (c :: s)
  | comment {note s : Text} (hnote : '\n' ∉ note) (hs : Gap s) : Gap ('#' :: (note ++ '\n' :: s))

/-- At the end of the text a comment needs no line end. -/
inductive EndGap : Text → Prop
  | gap {s : Text} (hs : Gap s) : EndGap s
  | comment {s note : Text} (hs : Gap s) (hnote : '\n' ∉ note) : EndGap (s ++ '#' :: note)

/-- A text in single quotes, from after the first of them. -/
inductive SingleQuoted : Text → Text → Prop
  | close : SingleQuoted [] ['\'']
  | plain {c : Char} {v s : Text} (hc : c ≠ '\'' ∧ c ≠ '\\') (h : SingleQuoted v s) :
    SingleQuoted (c :: v) (c :: s)
  | escape {c : Char} {v s : Text} (hc : c = '\'' ∨ c = '\\') (h : SingleQuoted v s) :
    SingleQuoted (c :: v) ('\\' :: c :: s)
  | backslash {d : Char} {v s : Text} (hd : d ≠ '\'' ∧ d ≠ '\\') (h : SingleQuoted v (d :: s)) :
    SingleQuoted ('\\' :: v) ('\\' :: d :: s)

/-- A text in double quotes, from after the first of them. -/
inductive DoubleQuoted : Text → Text → Prop
  | close : DoubleQuoted [] ['"']
  | plain {c : Char} {v s : Text} (hc : c ≠ '"' ∧ c ≠ '\\' ∧ c ≠ '$' ∧ c ≠ '@')
    (h : DoubleQuoted v s) : DoubleQuoted (c :: v) (c :: s)
  | escape {c e : Char} {v s : Text}
    (he : (c, e) ∈ [('\\', '\\'), ('\'', '\''), ('"', '"'), ('n', '\n'), ('t', '\t')])
    (h : DoubleQuoted v s) : DoubleQuoted (e :: v) ('\\' :: c :: s)

inductive Quoted : Text → Text → Prop
  | single {v s : Text} (h : SingleQuoted v s) : Quoted v ('\'' :: s)
  | double {v s : Text} (h : DoubleQuoted v s) : Quoted v ('"' :: s)

def Digits (s : Text) : Prop := s ≠ [] ∧ ∀ c ∈ s, c.isDigit = true

/-- `-?(0|[1-9][0-9]*)(\.[0-9]+)?`, in its three parts. -/
structure Numeral (sign digits fraction : Text) : Prop where
  sign_eq : sign = [] ∨ sign = ['-']
  digits_eq : Digits digits
  plain : digits.head? = some '0' → digits.length = 1
  fraction_eq : fraction = [] ∨ ∃ tail, Digits tail ∧ fraction = '.' :: tail

def signed (sign digits : Text) : ℤ :=
  if sign = [] then (Nat.ofDigitChars 10 digits 0 : ℤ) else -(Nat.ofDigitChars 10 digits 0 : ℤ)

/-- The keys of a hash. -/
inductive Key : Text → Text → Prop
  | bareword {c : Char} {s : Text} (hc : isBarewordStart c = true)
    (hs : ∀ d ∈ s, isBareword d = true) : Key (c :: s) (c :: s)
  | quoted {v s : Text} (h : Quoted v s) : Key v s
  | number {sign digits fraction : Text} (h : Numeral sign digits fraction) :
    Key (sign ++ digits ++ fraction) (sign ++ digits ++ fraction)

inductive Form (F : Type)
  | value (v : Value F)
  | items (vs : List (Value F))
  | pairs (ps : List (Text × Value F))

variable {F : Type}

/-- The dict of some pairs: the last of those under one key stands. -/
def dict (ps : List (Text × Value F)) : List (Text × Value F) := ps.foldl put []

/-- A text that renders a value with a number of nodes, nested to a depth at most; and the items or
pairs of one, up to their closing bracket. -/
inductive Renders (float : Text → F) : ℕ → Form F → ℕ → Text → Prop
  | array {d n : ℕ} {vs : List (Value F)} {s : Text} (h : Renders float d (.items vs) n s) :
    Renders float (d + 1) (.value (.array vs)) (1 + n) ('[' :: s)
  | hash {d n : ℕ} {ps : List (Text × Value F)} {s : Text} (h : Renders float d (.pairs ps) n s) :
    Renders float (d + 1) (.value (.hash (dict ps))) (1 + n) ('\x7b' :: s)
  | string {d : ℕ} {v s : Text} (h : Quoted v s) : Renders float d (.value (.string v)) 1 s
  | int {d : ℕ} {sign digits : Text} (h : Numeral sign digits [])
    (hlength : digits.length ≤ maxIntDigits) :
    Renders float d (.value (.int (signed sign digits))) 1 (sign ++ digits ++ [])
  | decimal {d : ℕ} {sign digits fraction : Text} (h : Numeral sign digits ('.' :: fraction)) :
    Renders float d (.value (.decimal (float (sign ++ digits ++ '.' :: fraction)))) 1
      (sign ++ digits ++ '.' :: fraction)
  | undef {d : ℕ} : Renders float d (.value .undef) 1 ['u', 'n', 'd', 'e', 'f']
  | noItems {d : ℕ} {g : Text} (hg : Gap g) : Renders float d (.items []) 0 (g ++ [']'])
  | lastItem {d n : ℕ} {v : Value F} {g s g' : Text} (hg : Gap g)
    (h : Renders float d (.value v) n s) (hg' : Gap g') :
    Renders float d (.items [v]) n (g ++ s ++ g' ++ [']'])
  | item {d m n : ℕ} {v : Value F} {vs : List (Value F)} {g s g' t : Text} (hg : Gap g)
    (h : Renders float d (.value v) m s) (hg' : Gap g') (ht : Renders float d (.items vs) n t) :
    Renders float d (.items (v :: vs)) (m + n) (g ++ s ++ g' ++ ',' :: t)
  | noPairs {d : ℕ} {g : Text} (hg : Gap g) : Renders float d (.pairs []) 0 (g ++ ['\x7d'])
  | lastPair {d n : ℕ} {k : Text} {v : Value F} {g key g₁ g₂ s g₃ : Text} (hg : Gap g)
    (hk : Key k key) (hg₁ : Gap g₁) (hg₂ : Gap g₂) (h : Renders float d (.value v) n s)
    (hg₃ : Gap g₃) : Renders float d (.pairs [(k, v)]) n
      (g ++ key ++ g₁ ++ '=' :: '>' :: (g₂ ++ s ++ g₃ ++ ['\x7d']))
  | pair {d m n : ℕ} {k : Text} {v : Value F} {ps : List (Text × Value F)}
    {g key g₁ g₂ s g₃ t : Text} (hg : Gap g) (hk : Key k key) (hg₁ : Gap g₁) (hg₂ : Gap g₂)
    (h : Renders float d (.value v) m s) (hg₃ : Gap g₃) (ht : Renders float d (.pairs ps) n t) :
    Renders float d (.pairs ((k, v) :: ps)) (m + n)
      (g ++ key ++ g₁ ++ '=' :: '>' :: (g₂ ++ s ++ g₃ ++ ',' :: t))

/-- A whole text that renders a value. -/
def Rendering (float : Text → F) (depth : ℕ) (v : Value F) (n : ℕ) (text : Text) : Prop :=
  ∃ g s g', text = g ++ s ++ g' ∧ Gap g ∧ Renders float depth (.value v) n s ∧ EndGap g'

/-- Somewhere in the text there is an integer that `int` does not read. -/
def LongInteger (text : Text) : Prop :=
  ∃ before digits after, text = before ++ digits ++ after ∧ (∀ c ∈ digits, c.isDigit = true) ∧
    maxIntDigits < digits.length

end Grammar

section Gaps

variable {g g' s t note : Text} {c : Char} {p : Parser}

theorem spaceWidth_comment (h : '\n' ∉ note) (s : Text) :
    spaceWidth true (note ++ '\n' :: s) = note.length + 1 + spaceWidth false s := by
  induction note with
  | nil =>
    change spaceWidth false s + 1 = _
    rw [List.length_nil]
    omega
  | cons c note ih =>
    rw [List.mem_cons, not_or] at h
    have hc : (c != '\n') = true := by simpa using Ne.symm h.1
    rw [List.cons_append, spaceWidth, hc, ih h.2, List.length_cons]
    omega

theorem spaceWidth_open (h : '\n' ∉ s) : spaceWidth true s = s.length := by
  induction s with
  | nil => rfl
  | cons c s ih =>
    rw [List.mem_cons, not_or] at h
    have hc : (c != '\n') = true := by simpa using Ne.symm h.1
    rw [spaceWidth, hc, ih h.2, List.length_cons]

theorem Gap.spaceWidth_append (h : Gap g) (s : Text) :
    spaceWidth false (g ++ s) = g.length + spaceWidth false s := by
  induction h with
  | nil => rw [List.nil_append, List.length_nil, Nat.zero_add]
  | blank hc hs ih =>
    rw [List.cons_append, spaceWidth, if_pos hc, ih, List.length_cons]
    omega
  | comment hnote hs ih =>
    rw [List.cons_append, spaceWidth, if_neg (by decide), if_pos rfl, List.append_assoc,
      List.cons_append, spaceWidth_comment hnote, ih, List.length_cons, List.length_append,
      List.length_cons]
    omega

theorem Gap.append (h : Gap g) (h' : Gap g') : Gap (g ++ g') := by
  induction h with
  | nil => exact h'
  | blank hc hs ih => exact .blank hc ih
  | comment hnote hs ih =>
    have hcomment := Gap.comment hnote ih
    simpa using hcomment

/-- A text begins with no gap. -/
def Solid (s : Text) : Prop := ∀ c ∈ s.head?, isWhitespace c = false ∧ c ≠ '#'

theorem Solid.spaceWidth (h : Solid s) : spaceWidth false s = 0 := by
  cases s with
  | nil => rfl
  | cons c s =>
    obtain ⟨hblank, hcomment⟩ := h c rfl
    rw [PerlData.spaceWidth, hblank, if_neg Bool.false_ne_true, if_neg hcomment]

theorem EndGap.spaceWidth (h : EndGap s) : spaceWidth false s = s.length := by
  cases h with
  | gap hs =>
    have hwidth := hs.spaceWidth_append []
    rwa [List.append_nil] at hwidth
  | comment hs hnote =>
    rw [hs.spaceWidth_append, PerlData.spaceWidth, if_neg (by decide), if_pos rfl,
      spaceWidth_open hnote, List.length_append, List.length_cons]

/-- What is skipped is a gap, and at the end of the text perhaps an open comment. -/
theorem exists_gap (s : Text) : ∃ g t, s = g ++ t ∧ spaceWidth false s = g.length ∧ Solid t ∧
    EndGap g ∧ (t ≠ [] → Gap g) := by
  induction hn : s.length using Nat.strong_induction_on generalizing s with
  | h n ih =>
    subst hn
    cases s with
    | nil =>
      exact ⟨[], [], rfl, rfl, fun _ hc ↦ absurd hc (Option.not_mem_none _), .gap .nil,
        fun _ ↦ .nil⟩
    | cons c s =>
      by_cases hblank : isWhitespace c = true
      · obtain ⟨g, t, rfl, hwidth, hsolid, hend, hgap⟩ := ih s.length (by simp) s rfl
        refine ⟨c :: g, t, rfl, ?_, hsolid, ?_, fun ht ↦ .blank hblank (hgap ht)⟩
        · rw [spaceWidth, if_pos hblank, hwidth, List.length_cons]
        · cases hend with
          | gap hs => exact .gap (.blank hblank hs)
          | comment hs hnote => exact .comment (.blank hblank hs) hnote
      · by_cases hcomment : c = '#'
        · subst hcomment
          have hhash : spaceWidth false ('#' :: s) = spaceWidth true s + 1 := by
            rw [spaceWidth, if_neg hblank, if_pos rfl]
          by_cases hline : '\n' ∈ s
          · obtain ⟨note, after, rfl, hnote⟩ := List.eq_append_cons_of_mem hline
            obtain ⟨g, t, rfl, hwidth, hsolid, hend, hgap⟩ :=
              ih after.length (by simp; omega) after rfl
            refine ⟨'#' :: (note ++ '\n' :: g), t, by simp, ?_, hsolid, ?_, fun ht ↦
              .comment hnote (hgap ht)⟩
            · rw [hhash, spaceWidth_comment hnote, hwidth, List.length_cons, List.length_append,
                List.length_cons]
              omega
            · cases hend with
              | gap hs => exact .gap (.comment hnote hs)
              | comment hs hnote' =>
                have hcomment := EndGap.comment (.comment hnote hs) hnote'
                simpa using hcomment
          · refine ⟨'#' :: s, [], by simp, ?_, fun _ hc ↦ absurd hc (Option.not_mem_none _),
              .comment .nil hline, fun ht ↦ absurd rfl ht⟩
            rw [hhash, spaceWidth_open hline, List.length_cons]
        · refine ⟨[], c :: s, rfl, ?_, ?_, .gap .nil, fun _ ↦ .nil⟩
          · rw [spaceWidth, if_neg hblank, if_neg hcomment]
            rfl
          · intro d hd
            cases hd
            exact ⟨by simpa using hblank, hcomment⟩

theorem moves_skipSpace (p : Parser) : ∃ g, Moves p g 0 (skipSpace p) ∧ Solid (skipSpace p).rest ∧
    EndGap g ∧ ((skipSpace p).rest ≠ [] → Gap g) := by
  obtain ⟨g, t, hrest, hwidth, hsolid, hend, hgap⟩ := exists_gap p.rest
  have hmove := moves_advance hrest
  rw [← hwidth] at hmove
  have ht : (skipSpace p).rest = t :=
     (List.append_cancel_left (hrest.symm.trans hmove.rest_eq)).symm
  exact ⟨g, hmove, ht ▸ hsolid, hend, fun hne ↦ hgap (ht ▸ hne)⟩

theorem Gap.skipSpace {p p' : Parser} (hg : Gap g) (h : Moves p g 0 p') (hsolid : Solid p'.rest) :
    skipSpace p = p' := by
  rw [PerlData.skipSpace, h.rest_eq, hg.spaceWidth_append, hsolid.spaceWidth, Nat.add_zero,
    h.advance_eq]

theorem Solid.skipSpace (h : Solid p.rest) : skipSpace p = p :=
  Gap.nil.skipSpace (.refl p) h

end Gaps

section Strings

variable {quote : Char} {v s t : Text} {start pos : ℕ}

/-- What the scanner takes for the rest of a string. -/
inductive Body (quote : Char) : Text → Text → Prop
  | close : Body quote [] [quote]
  | plain {c : Char} {v s : Text} (hc : c ≠ quote ∧ c ≠ '\\' ∧ ¬(quote = '"' ∧ (c = '$' ∨ c = '@')))
    (h : Body quote v s) : Body quote (c :: v) (c :: s)
  | escape {d e : Char} {v s : Text} (he : escapes quote d = some e) (h : Body quote v s) :
    Body quote (e :: v) ('\\' :: d :: s)
  | backslash {d : Char} {v s : Text} (hquote : quote ≠ '"') (hd : escapes quote d = none)
    (h : Body quote v (d :: s)) : Body quote ('\\' :: v) ('\\' :: d :: s)

theorem Body.scanString (h : Body quote v s) (hquote : quote ≠ '\\') (start pos : ℕ) (t : Text) :
    scanString quote start pos (s ++ t) = .ok (v, s.length) := by
  induction h generalizing pos with
  | close =>
    rw [List.singleton_append, PerlData.scanString.eq_def]
    dsimp only
    rw [if_pos rfl, List.length_singleton]
  | plain hc _ ih =>
    rw [List.cons_append, PerlData.scanString.eq_def]
    dsimp only
    rw [if_neg hc.1, if_neg hc.2.1, if_neg hc.2.2, ih]
    rfl
  | escape he _ ih =>
    rw [List.cons_append, List.cons_append, PerlData.scanString.eq_def]
    dsimp only
    rw [if_neg hquote.symm, if_pos rfl, he]
    dsimp only
    rw [ih]
    rfl
  | backslash hne hd _ ih =>
    rw [List.cons_append, List.cons_append, PerlData.scanString.eq_def]
    dsimp only
    rw [if_neg hquote.symm, if_pos rfl, hd]
    dsimp only
    have hrest := ih (pos + 1)
    rw [List.cons_append] at hrest
    rw [if_neg hne, hrest]
    rfl

/-- A body is read at the head of the text, or there is an error within it. -/
def Scans (quote : Char) (pos : ℕ) (s : Text) : Except Error (Text × ℕ) → Prop
  | .ok (v, width) => ∃ t rest, width = t.length ∧ s = t ++ rest ∧ Body quote v t
  | .error e => ∃ place message, e = .perlData place message ∧ place ≤ pos + s.length

theorem Scans.step (before : Text) {x : Except Error (Text × ℕ)} {c : Char}
    (h : Scans quote (pos + before.length) s x)
    (hbody : ∀ v t rest, s = t ++ rest → Body quote v t → Body quote (c :: v) (before ++ t)) :
    Scans quote pos (before ++ s) (do
      let (chars, width) ← x
      .ok (c :: chars, width + before.length)) := by
  cases x with
  | error e =>
    obtain ⟨place, message, rfl, hplace⟩ := h
    refine ⟨place, message, rfl, ?_⟩
    rw [List.length_append]
    omega
  | ok result =>
    obtain ⟨v, width⟩ := result
    obtain ⟨t, rest, rfl, hs, ht⟩ := h
    refine ⟨before ++ t, rest, ?_, ?_, hbody v t rest hs ht⟩
    · rw [List.length_append]
      omega
    · rw [hs, List.append_assoc]

theorem scanString_spec (hstart : start ≤ pos) (s : Text) :
    Scans quote pos s (scanString quote start pos s) := by
  fun_induction scanString quote start pos s with
  | case1 pos => exact ⟨start, _, rfl, by omega⟩
  | case2 pos rest => exact ⟨[quote], rest, rfl, rfl, .close⟩
  | case3 pos hquote hc => exact ⟨pos, _, rfl, by omega⟩
  | case4 pos hquote hc => exact ⟨start, _, rfl, by omega⟩
  | case5 pos d after e he hc ih =>
    exact Scans.step ['\\', d] (ih (by omega)) fun v t rest hs ht ↦ .escape he ht
  | case6 pos d after he hquote hc => exact ⟨pos, _, rfl, by omega⟩
  | case7 pos d after he hquote hc ih =>
    refine Scans.step ['\\'] (ih (by omega)) fun v t rest hs ht ↦ ?_
    cases t with
    | nil => cases ht
    | cons d' t =>
      cases hs
      exact .backslash hquote he ht
  | case8 pos c rest hc hc' hplain => exact ⟨pos, _, rfl, by omega⟩
  | case9 pos c rest hc hc' hplain ih =>
    exact Scans.step [c] (ih (by omega)) fun v t rest hs ht ↦
      .plain ⟨hc, hc', hplain⟩ ht

theorem body_single : Body '\'' v s ↔ SingleQuoted v s := by
  constructor
  · intro h
    induction h with
    | close => exact .close
    | plain hc _ ih => exact .plain ⟨hc.1, hc.2.1⟩ ih
    | @escape d e v s he _ ih =>
      rw [escapes] at he
      split at he
      · rename_i hd
        cases he
        exact .escape hd.symm ih
      · cases he
    | backslash _ hd _ ih =>
      rw [escapes] at hd
      split at hd
      · cases hd
      · rename_i hne
        rw [not_or] at hne
        exact .backslash hne.symm ih
  · intro h
    induction h with
    | close => exact .close
    | plain hc _ ih => exact .plain ⟨hc.1, hc.2, fun hdouble ↦ absurd hdouble.1 (by decide)⟩ ih
    | escape hc _ ih => exact .escape (if_pos hc.symm) ih
    | backslash hd _ ih =>
      refine .backslash (by decide) ?_ ih
      rw [escapes, if_neg (not_or.2 hd.symm), if_pos rfl]

theorem body_double : Body '"' v s ↔ DoubleQuoted v s := by
  constructor
  · intro h
    induction h with
    | close => exact .close
    | plain hc _ ih =>
      have hplain := hc.2.2
      rw [not_and, not_or] at hplain
      exact .plain ⟨hc.1, hc.2.1, hplain rfl⟩ ih
    | escape he _ ih =>
      refine .escape ?_ ih
      unfold escapes at he
      grind
    | backslash hquote => exact absurd rfl hquote
  · intro h
    induction h with
    | close => exact .close
    | plain hc _ ih =>
      refine .plain ⟨hc.1, hc.2.1, fun hinterpolation ↦ ?_⟩ ih
      exact hinterpolation.2.elim hc.2.2.1 hc.2.2.2
    | escape he _ ih =>
      refine .escape ?_ ih
      simp only [List.mem_cons, Prod.mk.injEq, List.not_mem_nil, or_false] at he
      obtain ⟨rfl, rfl⟩ | ⟨rfl, rfl⟩ | ⟨rfl, rfl⟩ | ⟨rfl, rfl⟩ | ⟨rfl, rfl⟩ := he <;> rfl

end Strings

section Tokens

variable {p p' : Parser} {s t v digits sign fraction : Text} {n limit : ℕ} {e : Error}

/-- How the parser can fail: within the text, or in an integer that is too long. -/
def Fails (p : Parser) : Error → Prop
  | .perlData place _ => place ≤ p.finish
  | .valueError => LongInteger p.rest
  | .exhausted => False

theorem fails_of_moves (h : Moves p s n p') (he : Fails p' e) : Fails p e := by
  cases e with
  | perlData place message =>
    have hplace : place ≤ p'.finish := he
    rwa [h.finish_eq] at hplace
  | valueError =>
    obtain ⟨before, digits, after, hrest, hdigits, hlong⟩ := he
    refine ⟨s ++ before, digits, after, ?_, hdigits, hlong⟩
    rw [h.rest_eq, hrest, List.append_assoc, List.append_assoc, List.append_assoc]
  | exhausted => exact he

theorem fails_here (p : Parser) (message : Message) : Fails p (.perlData p.pos message) :=
  Nat.le_add_right _ _

theorem outcome_fail {α : Type} {G : α → ℕ → Text → Prop} (p : Parser) (message : Message) :
    Outcome Fails limit G p (fail p message) := fails_here p message

/-- A bareword or a number ends before the text. -/
def Follow (s : Text) : Prop := ∀ c ∈ s.head?, isBareword c = false ∧ c ≠ '.'

theorem takeWhile_append {f : Char → Bool} (hs : ∀ c ∈ s, f c = true)
    (ht : ∀ c ∈ t.head?, f c = false) : (s ++ t).takeWhile f = s := by
  rw [List.takeWhile_append_of_pos hs]
  cases t with
  | nil => simp
  | cons c t =>
    rw [List.takeWhile_cons, ht c rfl, if_neg Bool.false_ne_true, List.append_nil]

theorem Quoted.string {quote : Char} (h : Quoted v (quote :: s))
    (hmove : Moves p (quote :: s) 0 p') :
    string quote p = .ok (v, p') := by
  have hscan : scanString quote p.pos (p.pos + 1) (s ++ p'.rest) = .ok (v, s.length) := by
    cases h with
    | single h => exact (body_single.2 h).scanString (by decide) _ _ _
    | double h => exact (body_double.2 h).scanString (by decide) _ _ _
  rw [PerlData.string, hmove.rest_eq, List.cons_append, List.drop_one, List.tail_cons, hscan,
    ok_bind]
  have hadvance := hmove.advance_eq
  rw [List.length_cons] at hadvance
  dsimp only
  rw [hadvance]

theorem string_spec {quote : Char} (hquote : quote = '\'' ∨ quote = '"')
    (hrest : p.rest = quote :: s) :
    Outcome Fails limit (fun v n s ↦ n = 0 ∧ Quoted v s) p (string quote p) := by
  have hscan : Scans quote (p.pos + 1) s (scanString quote p.pos (p.pos + 1) s) :=
    scanString_spec (Nat.le_succ p.pos) s
  rw [PerlData.string, hrest, List.drop_one, List.tail_cons]
  cases hx : scanString quote p.pos (p.pos + 1) s with
  | error e =>
    rw [hx] at hscan
    obtain ⟨place, message, rfl, hplace⟩ := hscan
    change place ≤ p.pos + p.rest.length
    rw [hrest, List.length_cons]
    omega
  | ok result =>
    rw [hx] at hscan
    obtain ⟨v, width⟩ := result
    obtain ⟨t, rest, rfl, rfl, hbody⟩ := hscan
    rw [ok_bind]
    refine .free (moves_advance (s := quote :: t) hrest) ⟨rfl, ?_⟩
    obtain rfl | rfl := hquote
    · exact .single (body_single.1 hbody)
    · exact .double (body_double.1 hbody)

theorem isDigit_ne {c d : Char} (h : c.isDigit = true) (hd : d.isDigit = false) : c ≠ d := by
  rintro rfl
  rw [h] at hd
  cases hd

theorem Follow.head (h : Follow t) : ∀ c ∈ t.head?, c.isDigit = false ∧ c ≠ '.' := by
  intro c hc
  obtain ⟨hbare, hpoint⟩ := h c hc
  refine ⟨?_, hpoint⟩
  rw [isBareword, Bool.or_eq_false_iff, Bool.or_eq_false_iff] at hbare
  exact hbare.1.2

theorem Numeral.head (h : Numeral sign digits fraction) (t : Text) :
    ∃ c s, sign ++ digits ++ fraction ++ t = c :: s ∧ (c = '-' ∨ c.isDigit = true) := by
  obtain hsign | hsign := h.sign_eq
  · obtain ⟨c, s, rfl⟩ := List.exists_cons_of_ne_nil h.digits_eq.1
    exact ⟨c, s ++ fraction ++ t, by rw [hsign]; rfl, .inr (h.digits_eq.2 c List.mem_cons_self)⟩
  · exact ⟨'-', digits ++ fraction ++ t, by rw [hsign]; rfl, .inl rfl⟩

theorem Numeral.fractionWidth (h : Numeral sign digits fraction) (ht : Follow t) (p : Parser) :
    fractionWidth p (fraction ++ t) = .ok fraction.length := by
  obtain rfl | ⟨tail, htail, rfl⟩ := h.fraction_eq
  · cases t with
    | nil => rfl
    | cons c t =>
      have hc := (ht c rfl).2
      rw [List.nil_append, PerlData.fractionWidth.eq_2 _ _ (fun _ heq ↦ hc (List.cons.inj heq).1)]
      rfl
  · rw [List.cons_append, PerlData.fractionWidth,
      takeWhile_append htail.2 fun c hc ↦ (ht.head c hc).1,
      if_neg (by simpa using htail.1)]
    rfl

theorem Numeral.numberText (h : Numeral sign digits fraction)
    (hmove : Moves p (sign ++ digits ++ fraction) 0 p') (ht : Follow p'.rest) :
    numberText p = .ok (sign ++ digits ++ fraction, p') := by
  have hrest := hmove.rest_eq
  obtain ⟨d, ds, hdigits⟩ := List.exists_cons_of_ne_nil h.digits_eq.1
  have hsign : (if p.rest.head? = some '-' then 1 else 0) = sign.length := by
    obtain rfl | rfl := h.sign_eq
    · rw [hrest, hdigits, if_neg]
      · rfl
      · intro heq
        have hd := h.digits_eq.2 d (hdigits ▸ List.mem_cons_self)
        exact isDigit_ne hd (by decide) (Option.some.inj heq)
    · rw [hrest]
      rfl
  have hnodigit : ∀ c ∈ (fraction ++ p'.rest).head?, c.isDigit = false := by
    obtain rfl | ⟨tail, -, rfl⟩ := h.fraction_eq
    · exact fun c hc ↦ (ht.head c hc).1
    · intro c hc
      cases hc
      decide
  have hafter : p.rest.drop sign.length = digits ++ (fraction ++ p'.rest) := by
    rw [hrest, List.append_assoc, List.append_assoc, List.drop_left]
  have hfraction : p.rest.drop (sign.length + digits.length) = fraction ++ p'.rest := by
    rw [← List.drop_drop, hafter, List.drop_left]
  have hend : p.rest.drop (sign.length + digits.length + fraction.length) = p'.rest := by
    rw [← List.drop_drop, hfraction, List.drop_left]
  have hall : sign.length + digits.length + fraction.length =
      (sign ++ digits ++ fraction).length := by
    rw [List.length_append, List.length_append]
  rw [PerlData.numberText]
  dsimp only
  rw [hsign, hafter, takeWhile_append h.digits_eq.2 hnodigit, require, if_pos h.digits_eq.1,
    ok_bind, require, if_pos (fun heq ↦ absurd (h.plain heq.1) (Nat.ne_of_gt heq.2)), ok_bind,
    hfraction, h.fractionWidth ht, ok_bind, hend, require, if_pos, ok_bind, hall]
  · rw [hmove.advance_eq, hrest, List.take_left]
  · cases hhead : p'.rest.head? with
    | none => rfl
    | some c =>
      obtain ⟨hbare, hpoint⟩ := ht c hhead
      rw [Option.all_some, hbare, Bool.false_or, Bool.not_eq_true', beq_eq_false_iff_ne]
      exact hpoint

theorem fractionWidth_spec (p : Parser) (s : Text) :
    (∃ fraction t, s = fraction ++ t ∧
      (fraction = [] ∨ ∃ tail, Digits tail ∧ fraction = '.' :: tail) ∧
      fractionWidth p s = .ok fraction.length) ∨
    ∃ message, fractionWidth p s = .error (.perlData p.pos message) := by
  fun_cases fractionWidth p s with
  | case1 rest hnone => exact .inr ⟨_, rfl⟩
  | case2 rest hsome =>
    refine .inl ⟨'.' :: rest.takeWhile Char.isDigit, rest.dropWhile Char.isDigit, ?_,
      .inr ⟨_, ⟨?_, fun c hc ↦ List.mem_takeWhile_imp hc⟩, rfl⟩, rfl⟩
    · rw [List.cons_append, List.takeWhile_append_dropWhile]
    · simpa using hsome
  | case3 => exact .inl ⟨[], s, rfl, .inl rfl, rfl⟩

theorem numberText_spec (p : Parser) :
    Outcome Fails limit (fun v n s ↦ n = 0 ∧ v = s ∧ ∃ sign digits fraction,
      Numeral sign digits fraction ∧ s = sign ++ digits ++ fraction) p (numberText p) := by
  obtain ⟨sign, after, hsign, hsplit, hlength⟩ : ∃ sign after, (sign = [] ∨ sign = ['-']) ∧
      p.rest = sign ++ after ∧ (if p.rest.head? = some '-' then 1 else 0) = sign.length := by
    by_cases hhead : p.rest.head? = some '-'
    · obtain ⟨after, hafter⟩ := List.head?_eq_some_iff.1 hhead
      exact ⟨['-'], after, .inr rfl, hafter, if_pos hhead⟩
    · exact ⟨[], p.rest, .inl rfl, rfl, if_neg hhead⟩
  rw [PerlData.numberText]
  dsimp only
  rw [hlength, hsplit, List.drop_left]
  refine .require (fun _ ↦ fails_here p _) fun hdigits ↦ ?_
  refine .require (fun _ ↦ fails_here p _) fun hplain ↦ ?_
  have hdrop : (sign ++ after).drop (sign.length + (after.takeWhile Char.isDigit).length) =
      after.dropWhile Char.isDigit := by
    have hsame := congrArg (List.drop (after.takeWhile Char.isDigit).length)
      (List.takeWhile_append_dropWhile (p := Char.isDigit) (l := after))
    rw [List.drop_left] at hsame
    rw [← List.drop_drop, List.drop_left, hsame]
  rw [hdrop]
  obtain ⟨fraction, t, ht, hshape, hwidth⟩ | ⟨message, herror⟩ :=
    fractionWidth_spec p (after.dropWhile Char.isDigit)
  · rw [hwidth, ok_bind]
    refine .require (fun _ ↦ fails_here p _) fun _ ↦ ?_
    have hwhole : sign ++ after = sign ++ after.takeWhile Char.isDigit ++ fraction ++ t := by
      rw [List.append_assoc, List.append_assoc, ← ht, List.takeWhile_append_dropWhile]
    have hall : sign.length + (after.takeWhile Char.isDigit).length + fraction.length =
        (sign ++ after.takeWhile Char.isDigit ++ fraction).length := by
      rw [List.length_append, List.length_append]
    rw [hall, hwhole, List.take_left]
    refine .free (moves_advance (hsplit.trans hwhole)) ⟨rfl, rfl, _, _, _, ⟨hsign, ?_, ?_, hshape⟩,
      rfl⟩
    · exact ⟨hdigits, fun c hc ↦ List.mem_takeWhile_imp hc⟩
    · intro hzero
      have hpos := List.length_pos_iff.2 hdigits
      by_contra hne
      exact hplain ⟨hzero, by omega⟩
  · rw [herror]
    exact fails_here p message

theorem Numeral.int (h : Numeral sign digits []) : int (sign ++ digits ++ []) =
    if maxIntDigits < digits.length then none else some (signed sign digits) := by
  have hcount : digits.countP Char.isDigit = digits.length := List.countP_eq_length.2 h.digits_eq.2
  unfold PerlData.int
  rw [List.append_nil, List.countP_append, hcount]
  obtain rfl | rfl := h.sign_eq
  · rw [List.countP_nil, Nat.zero_add, List.nil_append]
    split
    · rfl
    · split
      · rename_i tail hlong
        exact absurd (h.digits_eq.2 '-' List.mem_cons_self) (by decide)
      · rfl
  · have hminus : List.countP Char.isDigit ['-'] = 0 := rfl
    rw [hminus, Nat.zero_add]
    split <;> rfl

theorem Numeral.point_mem (h : Numeral sign digits fraction) :
    '.' ∈ sign ++ digits ++ fraction ↔ fraction ≠ [] := by
  have hsign : '.' ∉ sign := by
    obtain rfl | rfl := h.sign_eq <;> decide
  have hdigits : '.' ∉ digits := fun hmem ↦ absurd (h.digits_eq.2 _ hmem) (by decide)
  rw [List.mem_append, List.mem_append]
  obtain rfl | ⟨tail, -, rfl⟩ := h.fraction_eq
  · simp [hsign, hdigits]
  · simp

variable {F : Type} {float : Text → F}

theorem Numeral.number_int (h : Numeral sign digits []) (hlength : digits.length ≤ maxIntDigits)
    (hmove : Moves p (sign ++ digits ++ []) 0 p') (ht : Follow p'.rest) :
    number float p = .ok (.int (signed sign digits), p') := by
  rw [number, h.numberText hmove ht, ok_bind]
  dsimp only
  rw [if_neg fun hmem ↦ h.point_mem.1 hmem rfl, h.int, if_neg (Nat.not_lt.2 hlength)]

theorem Numeral.number_decimal (h : Numeral sign digits fraction) (hfraction : fraction ≠ [])
    (hmove : Moves p (sign ++ digits ++ fraction) 0 p') (ht : Follow p'.rest) :
    number float p = .ok (.decimal (float (sign ++ digits ++ fraction)), p') := by
  rw [number, h.numberText hmove ht, ok_bind]
  dsimp only
  rw [if_pos (h.point_mem.2 hfraction)]

theorem number_spec (p : Parser) : Outcome Fails limit (fun v n s ↦ n = 0 ∧
    ∀ d, Renders float d (.value v) 1 s) p (number float p) := by
  have htext : Outcome Fails limit _ p (numberText p) := numberText_spec p
  rw [number]
  cases hx : numberText p with
  | error e =>
    rw [hx] at htext
    exact htext
  | ok result =>
    obtain ⟨raw, p'⟩ := result
    rw [hx] at htext
    obtain ⟨s, n, hmove, hspent, rfl, rfl, sign, digits, fraction, hnumeral, rfl⟩ := htext
    rw [ok_bind]
    dsimp only
    obtain rfl | ⟨tail, -, rfl⟩ := id hnumeral.fraction_eq
    · rw [if_neg fun hmem ↦ hnumeral.point_mem.1 hmem rfl, hnumeral.int]
      by_cases hlong : maxIntDigits < digits.length
      · rw [if_pos hlong]
        refine ⟨sign, digits, p'.rest, ?_, hnumeral.digits_eq.2, hlong⟩
        rw [hmove.rest_eq, List.append_nil]
      · rw [if_neg hlong]
        exact .free hmove ⟨rfl, fun d ↦ .int hnumeral (Nat.le_of_not_lt hlong)⟩
    · rw [if_pos (hnumeral.point_mem.2 (List.cons_ne_nil _ _))]
      exact .free hmove ⟨rfl, fun d ↦ .decimal hnumeral⟩

theorem bareword_eq {c : Char} (hs : ∀ d ∈ s, isBareword d = true)
    (hmove : Moves p (c :: s) 0 p') (ht : Follow p'.rest) : bareword p = (c :: s, p') := by
  have hword : (p.rest.drop 1).takeWhile isBareword = s := by
    rw [hmove.rest_eq]
    exact takeWhile_append hs fun c hc ↦ (ht c hc).1
  have hwidth : s.length + 1 = (c :: s).length := rfl
  rw [bareword]
  rw [hword, hwidth, hmove.advance_eq, hmove.rest_eq, List.take_left]

theorem bareword_spec {c : Char} (hrest : p.rest = c :: s) : ∃ word p',
    bareword p = (c :: word, p') ∧ Moves p (c :: word) 0 p' ∧ ∀ d ∈ word, isBareword d = true := by
  have hsplit : p.rest = c :: s.takeWhile isBareword ++ s.dropWhile isBareword := by
    rw [hrest, List.cons_append, List.takeWhile_append_dropWhile]
  have hmove := moves_advance hsplit
  refine ⟨s.takeWhile isBareword, _, ?_, hmove, fun d hd ↦ List.mem_takeWhile_imp hd⟩
  have hword : (p.rest.drop 1).takeWhile isBareword = s.takeWhile isBareword := by
    rw [hrest]
    rfl
  have hwidth : (s.takeWhile isBareword).length + 1 = (c :: s.takeWhile isBareword).length := rfl
  rw [bareword]
  rw [hword, hwidth]
  conv_lhs => rw [hsplit, List.take_left]

end Tokens

section Punctuation

variable {p p' : Parser} {g s t k key : Text} {c : Char} {n limit : ℕ} {limits : Limits}

theorem isBareword_of_start (h : isBarewordStart c = true) : isBareword c = true := by
  rw [isBareword, h]
  rfl

theorem not_isDigit_of_isAlpha (h : c.isAlpha = true) : ¬c.isDigit = true := by
  intro hdigit
  have hletter : (c.isUpper || c.isLower) = true := h
  have hnine := (Char.isDigit_iff_toNat.1 hdigit).2
  change c.toNat ≤ 57 at hnine
  rw [Bool.or_eq_true] at hletter
  obtain hupper | hlower := hletter
  · have hfirst : c.val ≥ 65 ∧ c.val ≤ 90 := of_decide_eq_true hupper
    have hle : 65 ≤ c.toNat := hfirst.1
    omega
  · have hfirst : (decide (c.val ≥ 97) && decide (c.val ≤ 122)) = true := hlower
    rw [Bool.and_eq_true, decide_eq_true_eq] at hfirst
    have hle : 97 ≤ c.toNat := hfirst.1
    omega

theorem solid_of_bareword (h : isBareword c = true) : isWhitespace c = false ∧ c ≠ '#' := by
  refine ⟨?_, ?_⟩
  · by_contra hblank
    rw [Bool.not_eq_false] at hblank
    simp only [isWhitespace, Bool.or_eq_true, beq_iff_eq] at hblank
    obtain ((((rfl | rfl) | rfl) | rfl) | rfl) | rfl := hblank <;> exact absurd h (by decide)
  · rintro rfl
    exact absurd h (by decide)

theorem solid_of_digit (h : c = '-' ∨ c.isDigit = true) : isWhitespace c = false ∧ c ≠ '#' := by
  obtain rfl | h := h
  · decide
  · exact solid_of_bareword (by rw [isBareword, h, Bool.or_true, Bool.true_or])

theorem Gap.follow (hg : Gap g) (ht : Follow t) : Follow (g ++ t) := by
  cases hg with
  | nil => exact ht
  | @blank c s hc hs =>
    intro d hd
    cases hd
    have hbare : isBareword c ≠ true := fun hbare ↦ by
      rw [(solid_of_bareword hbare).1] at hc
      cases hc
    refine ⟨by simpa using hbare, ?_⟩
    rintro rfl
    exact absurd hc (by decide)
  | comment hnote hs =>
    intro d hd
    cases hd
    decide

theorem follow_cons (h : isBareword c = false ∧ c ≠ '.') : Follow (c :: t) := by
  intro d hd
  cases hd
  exact h

theorem EndGap.follow (hg : EndGap g) : Follow g := by
  have hnil : Follow [] := fun c hc ↦ absurd hc (Option.not_mem_none c)
  cases hg with
  | gap hs =>
    have hfollow := hs.follow hnil
    rwa [List.append_nil] at hfollow
  | comment hs hnote => exact hs.follow (follow_cons (by decide))

theorem solid_cons (h : isWhitespace c = false ∧ c ≠ '#') : Solid (c :: t) := by
  intro d hd
  cases hd
  exact h

theorem Key.head (h : Key k key) : ∃ c s, key = c :: s ∧ isWhitespace c = false ∧ c ≠ '#' ∧
    c ≠ '\x7d' := by
  cases h with
  | @bareword c s hc hs =>
    obtain ⟨hblank, hcomment⟩ := solid_of_bareword (isBareword_of_start hc)
    refine ⟨c, s, rfl, hblank, hcomment, ?_⟩
    rintro rfl
    exact absurd hc (by decide)
  | quoted h =>
    cases h with
    | single h => exact ⟨_, _, rfl, by decide, by decide, by decide⟩
    | double h => exact ⟨_, _, rfl, by decide, by decide, by decide⟩
  | number h =>
    obtain ⟨c, s, hs, hc⟩ := h.head []
    rw [List.append_nil] at hs
    obtain ⟨hblank, hcomment⟩ := solid_of_digit hc
    refine ⟨c, s, hs, hblank, hcomment, ?_⟩
    rintro rfl
    exact absurd hc (by decide)

theorem Key.hashKey (h : Key k key) (hmove : Moves p key 0 p') (ht : Follow p'.rest) :
    hashKey p = .ok (k, p') := by
  obtain ⟨c, s, hkey, hblank, hcomment, -⟩ := h.head
  have hrest : p.rest = c :: (s ++ p'.rest) := by
    rw [hmove.rest_eq, hkey]
    rfl
  have hskip : skipSpace p = p := Solid.skipSpace (hrest ▸ solid_cons ⟨hblank, hcomment⟩)
  rw [PerlData.hashKey]
  rw [hskip, hrest, List.head?_cons]
  dsimp only
  cases h with
  | bareword hc hs =>
    cases hkey
    have hquote : ¬(c = '\'' ∨ c = '"') := by
      rintro (rfl | rfl) <;> exact absurd hc (by decide)
    have hnumber : ¬(c = '-' ∨ c.isDigit = true) := by
      rintro (rfl | hdigit)
      · exact absurd hc (by decide)
      · rw [isBarewordStart, Bool.or_eq_true, beq_iff_eq] at hc
        obtain halpha | rfl := hc
        · exact not_isDigit_of_isAlpha halpha hdigit
        · exact absurd hdigit (by decide)
    rw [if_neg hquote, if_neg hnumber, if_pos hc, bareword_eq hs hmove ht]
  | quoted hq =>
    subst hkey
    have hquote : c = '\'' ∨ c = '"' := by
      cases hq with
      | single h => exact .inl rfl
      | double h => exact .inr rfl
    rw [if_pos hquote, hq.string hmove]
  | number hnumeral =>
    obtain ⟨d, t, hd, hdigit⟩ := hnumeral.head []
    rw [List.append_nil, hkey] at hd
    cases hd
    have hquote : ¬(c = '\'' ∨ c = '"') := by
      rintro (rfl | rfl) <;> exact absurd hdigit (by decide)
    rw [if_neg hquote, if_pos hdigit, hnumeral.numberText hmove ht]

theorem hashKey_spec (p : Parser) : Outcome Fails limit (fun k n s ↦ n = 0 ∧
    ∃ g key, Gap g ∧ Key k key ∧ s = g ++ key) p (hashKey p) := by
  obtain ⟨g, hmove, hsolid, hend, hgap⟩ := moves_skipSpace p
  rw [PerlData.hashKey]
  refine .after fails_of_moves hmove (fun hle ↦ hmove.spent_eq ▸ hle) ?_
  cases hrest : (skipSpace p).rest with
  | nil => exact outcome_fail _ _
  | cons c s =>
    have hg : Gap g := hgap (by rw [hrest]; exact List.cons_ne_nil _ _)
    rw [List.head?_cons]
    dsimp only
    split
    · rename_i hquote
      exact (string_spec hquote hrest).mono fun k n s ⟨hn, hk⟩ ↦
        ⟨by omega, g, s, hg, .quoted hk, rfl⟩
    · split
      · refine (numberText_spec _).mono ?_
        rintro k n s ⟨hn, rfl, sign, digits, fraction, hnumeral, rfl⟩
        exact ⟨by omega, g, _, hg, .number hnumeral, rfl⟩
      · split
        · rename_i hc
          obtain ⟨word, p', hword, hmove', hall⟩ := bareword_spec hrest
          rw [hword]
          exact .free hmove' ⟨rfl, g, _, hg, .bareword hc hall, rfl⟩
        · exact outcome_fail _ _

theorem Gap.fatComma (hg : Gap g) (hmove : Moves p (g ++ ['=', '>']) 0 p') :
    fatComma p = .ok ((), p') := by
  have hrest : p.rest = g ++ ('=' :: '>' :: p'.rest) := by
    rw [hmove.rest_eq, List.append_assoc]
    rfl
  have hgap := moves_advance hrest
  have hnext : (p.advance g.length).rest = '=' :: '>' :: p'.rest := by
    rw [rest_advance, hrest, List.drop_left]
  have hskip : PerlData.skipSpace p = p.advance g.length :=
    hg.skipSpace hgap (hnext ▸ solid_cons (by decide))
  rw [PerlData.fatComma]
  rw [hskip, hnext, if_pos ⟨p'.rest, rfl⟩]
  have hadvance := hmove.advance_eq
  rw [List.length_append] at hadvance
  have htwo : (p.advance g.length).advance 2 = p' := by
    rw [← hadvance]
    simp [advance, Nat.add_assoc]
  rw [htwo]

theorem fatComma_spec (p : Parser) : Outcome Fails limit (fun _ n s ↦ n = 0 ∧
    ∃ g, Gap g ∧ s = g ++ ['=', '>']) p (fatComma p) := by
  obtain ⟨g, hmove, hsolid, hend, hgap⟩ := moves_skipSpace p
  rw [PerlData.fatComma]
  refine .after fails_of_moves hmove (fun hle ↦ hmove.spent_eq ▸ hle) ?_
  split
  · rename_i hcomma
    obtain ⟨t, ht⟩ := hcomma
    have hg : Gap g := hgap (by rw [← ht]; exact List.cons_ne_nil _ _)
    exact .free (moves_advance (s := ['=', '>']) ht.symm) ⟨rfl, g, hg, rfl⟩
  · exact outcome_fail _ _

theorem Gap.separator_comma {close : Char} {expected unterminated : Message} (hg : Gap g)
    (hmove : Moves p (g ++ [',']) 0 p') : separator close expected unterminated p =
      .ok ((), p') := by
  have hrest : p.rest = g ++ (',' :: p'.rest) := by
    rw [hmove.rest_eq, List.append_assoc]
    rfl
  have hgap := moves_advance hrest
  have hnext : (p.advance g.length).rest = ',' :: p'.rest := by
    rw [rest_advance, hrest, List.drop_left]
  have hskip : PerlData.skipSpace p = p.advance g.length :=
    hg.skipSpace hgap (hnext ▸ solid_cons (by decide))
  have hadvance := hmove.advance_eq
  rw [List.length_append] at hadvance
  have hone : (p.advance g.length).advance 1 = p' := by
    rw [← hadvance]
    simp [advance, Nat.add_assoc]
  rw [separator]
  rw [hskip, hnext, List.head?_cons]
  dsimp only
  rw [if_pos rfl, hone]

theorem Gap.separator_close {close : Char} {expected unterminated : Message} (hg : Gap g)
    (hmove : Moves p g 0 p') (hclose : p'.rest = close :: t)
    (hsolid : isWhitespace close = false ∧ close ≠ '#' ∧ close ≠ ',') :
    separator close expected unterminated p = .ok ((), p') := by
  have hskip : PerlData.skipSpace p = p' :=
    hg.skipSpace hmove (hclose ▸ solid_cons ⟨hsolid.1, hsolid.2.1⟩)
  rw [separator]
  rw [hskip, hclose, List.head?_cons]
  dsimp only
  rw [if_neg hsolid.2.2, if_pos rfl]

theorem separator_spec (close : Char) (expected unterminated : Message) (p : Parser) :
    (∃ g p', separator close expected unterminated p = .ok ((), p') ∧ Gap g ∧
      (Moves p (g ++ [',']) 0 p' ∨ Moves p g 0 p' ∧ p'.rest.head? = some close)) ∨
    ∃ e, separator close expected unterminated p = .error e ∧ Fails p e := by
  obtain ⟨g, hmove, hsolid, hend, hgap⟩ := moves_skipSpace p
  rw [separator]
  cases hrest : (skipSpace p).rest with
  | nil => exact .inr ⟨_, rfl, fails_of_moves hmove (fails_here _ _)⟩
  | cons c s =>
    have hg : Gap g := hgap (by rw [hrest]; exact List.cons_ne_nil _ _)
    rw [List.head?_cons]
    dsimp only
    split
    · rename_i hcomma
      subst hcomma
      exact .inl ⟨g, _, rfl, hg, .inl (hmove.trans (moves_advance (s := [',']) hrest))⟩
    · split
      · rename_i hclose
        exact .inl ⟨g, _, rfl, hg, .inr ⟨hmove, by rw [hrest, hclose, List.head?_cons]⟩⟩
      · exact .inr ⟨_, rfl, fails_of_moves hmove (fails_here _ _)⟩

theorem countNode_eq (h : p.spent + 1 ≤ limit) : countNode limit p = .ok ((), p.spend 1) :=
  if_neg (Nat.not_lt.2 h)

theorem countNode_spec (p : Parser) :
    Outcome Fails limit (fun _ n s ↦ n = 1 ∧ s = []) p (countNode limit p) := by
  rw [countNode]
  split
  · exact outcome_fail _ _
  · exact .ok (moves_spend p 1) (fun _ ↦ by rw [spent_spend]; omega) ⟨rfl, rfl⟩

theorem enter_eq {depth : ℕ} (hdepth : depth ≤ limits.maxDepth)
    (h : p.spent + 1 ≤ limits.maxNodes) : enter limits depth p =
      .ok ((), (p.spend 1).advance 1) := by
  rw [enter, if_neg (Nat.not_lt.2 hdepth), countNode_eq h]
  rfl

theorem enter_spec {depth : ℕ} (hrest : p.rest = c :: s) : Outcome Fails limits.maxNodes
    (fun _ n s ↦ n = 1 ∧ s = [c] ∧ depth ≤ limits.maxDepth) p (enter limits depth p) := by
  rw [enter]
  split
  · exact outcome_fail _ _
  · rename_i hdepth
    refine (countNode_spec p).bind fails_of_moves fun _ p' t n hmove hcount ↦ ?_
    obtain ⟨rfl, rfl⟩ := hcount
    have hrest' : p'.rest = [c] ++ s := hmove.rest_eq.symm.trans hrest
    exact .free (moves_advance hrest') ⟨rfl, rfl, Nat.le_of_not_lt hdepth⟩

end Punctuation

end Tiqora.Znuny.PerlData
