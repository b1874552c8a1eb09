import Tiqora.Domain.Vcard

namespace Tiqora.Domain.Vcard

open Foundation

/-- A text without line breaks. -/
def Unbroken (s : Text) : Prop := ∀ c ∈ s, c ≠ '\r' ∧ c ≠ '\n'

theorem Unbroken.of_all {s : Text} (h : s.all fun c ↦ c ≠ '\r' ∧ c ≠ '\n') : Unbroken s :=
  forall_of_all h

theorem Unbroken.append {s t : Text} (hs : Unbroken s) (ht : Unbroken t) : Unbroken (s ++ t) :=
  fun c hc ↦ (List.mem_append.1 hc).elim (hs c) (ht c)

theorem Unbroken.of_append {s t : Text} (h : Unbroken (s ++ t)) : Unbroken s ∧ Unbroken t :=
  ⟨fun c hc ↦ h c (List.mem_append_left t hc), fun c hc ↦ h c (List.mem_append_right s hc)⟩

theorem Unbroken.cons {c : Char} {s : Text} (hc : c ≠ '\r' ∧ c ≠ '\n') (hs : Unbroken s) :
    Unbroken (c :: s) :=
  List.forall_mem_cons.2 ⟨hc, hs⟩

section Octets

theorem octets_nil : octets [] = 0 := rfl

theorem octets_cons (c : Char) (s : Text) : octets (c :: s) = c.utf8Size + octets s := by
  rw [octets, List.map_cons, List.sum_cons, octets]

theorem octets_append (s t : Text) : octets (s ++ t) = octets s + octets t := by
  rw [octets, List.map_append, List.sum_append, octets, octets]

theorem octets_singleton (c : Char) : octets [c] = c.utf8Size := by
  rw [octets_cons, octets_nil, Nat.add_zero]

end Octets

section Folding

variable {current : Text} {size : ℕ}

theorem foldFrom_octets (hsize : octets current = size) (hmax : size ≤ maxOctets) (s : Text) :
    ∀ line ∈ foldFrom current size s, octets line ≤ maxOctets := by
  induction s generalizing current size with
  | nil =>
    intro line hline
    rw [foldFrom, List.mem_singleton] at hline
    rw [hline, hsize]
    exact hmax
  | cons c s ih =>
    rw [foldFrom]
    split
    · refine List.forall_mem_cons.2 ⟨hsize.trans_le hmax, ih ?_ ?_⟩
      · rw [octets_cons, octets_singleton]
        rfl
      · have hc := c.utf8Size_le_four
        rw [maxOctets]
        omega
    · next hle =>
      refine ih ?_ (Nat.le_of_not_lt hle)
      rw [octets_append, octets_singleton, hsize]

theorem foldFrom_ne_nil (s : Text) : foldFrom current size s ≠ [] := by
  induction s generalizing current size with
  | nil => exact List.cons_ne_nil _ _
  | cons c s ih =>
    rw [foldFrom]
    split
    · exact List.cons_ne_nil _ _
    · exact ih

/-- A folded line: what it starts with, and then lines that start with a space. -/
theorem foldFrom_parts (current : Text) (size : ℕ) (s : Text) :
    ∃ (first : Text) (rest : List Text), foldFrom current size s =
    (current ++ first) :: rest.map (' ' :: ·) ∧ s = first ++ rest.flatten := by
  induction s generalizing current size with
  | nil => exact ⟨[], [], by rw [foldFrom, List.append_nil, List.map_nil], rfl⟩
  | cons c s ih =>
    rw [foldFrom]
    split
    · obtain ⟨first, rest, hfold, hs⟩ := ih [' ', c] (1 + c.utf8Size)
      refine ⟨[], (c :: first) :: rest, ?_, ?_⟩
      · rw [hfold, List.append_nil, List.map_cons]
        rfl
      · rw [List.nil_append, List.flatten_cons, List.cons_append, ← hs]
    · obtain ⟨first, rest, hfold, hs⟩ := ih (current ++ [c]) (size + c.utf8Size)
      refine ⟨c :: first, rest, ?_, ?_⟩
      · rw [hfold, List.append_assoc, List.singleton_append]
      · rw [List.cons_append, ← hs]

theorem unbroken_foldFrom {line : Text} (hline : Unbroken line) :
    ∀ physical ∈ foldFrom [] 0 line, Unbroken physical := by
  obtain ⟨first, rest, hfold, rfl⟩ := foldFrom_parts [] 0 line
  obtain ⟨hfirst, hrest⟩ := hline.of_append
  rw [hfold, List.nil_append]
  refine List.forall_mem_cons.2 ⟨hfirst, fun physical hphysical ↦ ?_⟩
  obtain ⟨part, hpart, rfl⟩ := List.mem_map.1 hphysical
  refine Unbroken.cons (by decide) fun c hc ↦ hrest c ?_
  exact List.mem_flatten.2 ⟨part, hpart, hc⟩

theorem intercalate_append {sep : Text} {parts : List Text} (h : parts ≠ []) :
    sep.intercalate parts ++ sep = parts.flatMap fun part ↦ part ++ sep := by
  induction parts with
  | nil => exact absurd rfl h
  | cons part parts ih =>
    cases parts with
    | nil => rw [List.intercalate_singleton, List.flatMap_cons, List.flatMap_nil, List.append_nil]
    | cons next parts =>
      rw [List.intercalate_cons_cons, List.append_assoc, ih (List.cons_ne_nil next parts)]
      exact (List.flatMap_cons (f := fun part ↦ part ++ sep)).symm

/-- The lines that stand in the text between line breaks. -/
def physicalLines (lines : List Text) : List Text := lines.flatMap (foldFrom [] 0)

theorem flatMap_fold (lines : List Text) : (lines.flatMap fun line ↦ fold line ++ crlf) =
    (physicalLines lines).flatMap fun physical ↦ physical ++ crlf := by
  induction lines with
  | nil => rfl
  | cons line lines ih =>
    rw [List.flatMap_cons, ih, fold, intercalate_append (foldFrom_ne_nil line), physicalLines,
      physicalLines, List.flatMap_cons, List.flatMap_append]

theorem mem_physicalLines {lines : List Text} {physical : Text} (h : physical ∈
    physicalLines lines) : ∃ line ∈ lines, physical ∈ foldFrom [] 0 line :=
  List.mem_flatMap.1 h

end Folding

section Splitting

theorem splitLinesFrom_line {line : Text} (hline : Unbroken line) (current s : Text) :
    splitLinesFrom current (line ++ crlf ++ s) = (current ++ line) :: splitLinesFrom [] s := by
  induction line generalizing current with
  | nil => rw [List.nil_append, List.append_nil, crlf, List.cons_append, List.singleton_append,
      splitLinesFrom]
  | cons c line ih =>
    obtain ⟨⟨hr, hn⟩, hrest⟩ := List.forall_mem_cons.1 hline
    rw [List.cons_append, List.cons_append, splitLinesFrom, if_neg (not_or.2 ⟨hr, hn⟩), ih hrest,
      List.append_assoc, List.singleton_append]
    exact fun _ hc _ ↦ hr hc

theorem splitLines_flatMap {physical : List Text} (h : ∀ line ∈ physical, Unbroken line) :
    splitLines (physical.flatMap fun line ↦ line ++ crlf) = physical ++ [[]] := by
  induction physical with
  | nil => rfl
  | cons line physical ih =>
    obtain ⟨hline, hrest⟩ := List.forall_mem_cons.1 h
    rw [List.flatMap_cons, splitLines, splitLinesFrom_line hline, List.nil_append, ← splitLines,
      ih hrest, List.cons_append]

end Splitting

section Unfolding

variable {lib : Lib}

/-- A line that no line continues unless that line starts with white space. -/
structure Whole (lib : Lib) (line : Text) : Prop where
  starts : ∀ c ∈ line.head?, c ≠ ' ' ∧ c ≠ '\t'
  hard : isQpSoftBreak lib line = false

theorem Whole.not_continuation {line : Text} (h : Whole lib line) :
    ¬ (line.head? = some ' ' ∨ line.head? = some '\t') := by
  rintro (hspace | htab)
  · exact (h.starts ' ' hspace).1 rfl
  · exact (h.starts '\t' htab).2 rfl

theorem logicalFrom_continuations (last : Text) (rest tail : List Text) :
    logicalFrom lib (some last) (rest.map (' ' :: ·) ++ tail) =
      logicalFrom lib (some (last ++ rest.flatten)) tail := by
  induction rest generalizing last with
  | nil => rw [List.map_nil, List.nil_append, List.flatten_nil, List.append_nil]
  | cons part rest ih =>
    rw [List.map_cons, List.cons_append, logicalFrom, if_pos (.inl rfl), List.drop_succ_cons,
      List.drop_zero, ih, List.flatten_cons, List.append_assoc]

theorem logicalFrom_fold {last line : Text} {tail : List Text}
    (hlast : isQpSoftBreak lib last = false) (hstarts : ∀ c ∈ line.head?, c ≠ ' ' ∧ c ≠ '\t') :
    logicalFrom lib (some last) (foldFrom [] 0 line ++ tail) =
      last :: logicalFrom lib (some line) tail := by
  obtain ⟨first, rest, hfold, hs⟩ := foldFrom_parts [] 0 line
  have hfirst : ¬ (first.head? = some ' ' ∨ first.head? = some '\t') := by
    cases first with
    | nil => rintro (h | h) <;> cases h
    | cons c first =>
      obtain ⟨hspace, htab⟩ := hstarts c (by rw [hs]; rfl)
      rintro (h | h)
      · exact hspace (Option.some.inj h)
      · exact htab (Option.some.inj h)
  rw [hfold, List.nil_append, List.cons_append, logicalFrom, if_neg hfirst, hlast,
    if_neg Bool.false_ne_true, logicalFrom_continuations, ← hs]

theorem logicalFrom_lines {last : Text} {lines : List Text}
    (hlast : isQpSoftBreak lib last = false) (hlines : ∀ line ∈ lines, Whole lib line) :
    logicalFrom lib (some last) (physicalLines lines ++ [[]]) = last :: (lines ++ [[]]) := by
  induction lines generalizing last with
  | nil =>
    rw [physicalLines, List.flatMap_nil, List.nil_append, logicalFrom, if_neg, hlast,
      if_neg Bool.false_ne_true]
    · rfl
    · rintro (h | h) <;> cases h
  | cons line lines ih =>
    obtain ⟨hline, hrest⟩ := List.forall_mem_cons.1 hlines
    rw [physicalLines, List.flatMap_cons, List.append_assoc, logicalFrom_fold hlast hline.starts,
      ← physicalLines, ih hline.hard hrest, List.cons_append]

/-- What is read of the folded lines are the lines. -/
theorem logicalLines_fold {line : Text} {lines : List Text}
    (hunbroken : ∀ l ∈ line :: lines, Unbroken l) (hwhole : ∀ l ∈ line :: lines, Whole lib l) :
    logicalLines lib ((line :: lines).flatMap fun l ↦ fold l ++ crlf) =
      line :: (lines ++ [[]]) := by
  obtain ⟨first, rest, hfold, hs⟩ := foldFrom_parts [] 0 line
  have hphysical : ∀ p ∈ physicalLines (line :: lines), Unbroken p := by
    intro p hp
    obtain ⟨l, hl, hp⟩ := mem_physicalLines hp
    exact unbroken_foldFrom (hunbroken l hl) p hp
  obtain ⟨hline, hlines⟩ := List.forall_mem_cons.1 hwhole
  rw [logicalLines, flatMap_fold, splitLines_flatMap hphysical, physicalLines, List.flatMap_cons,
    hfold, List.nil_append, List.cons_append, List.cons_append, logicalFrom, List.append_assoc,
    logicalFrom_continuations, ← hs]
  exact logicalFrom_lines hline.hard hlines

end Unfolding

section LineFeeds

theorem crlf_ne_nil : crlf ≠ [] := List.cons_ne_nil _ _

theorem lf_eq (s : Text) : lf s = (replaceAll crlf ['\n'] s).flatMap fun d ↦
    if d = '\r' then ['\n'] else [d] :=
  replaceAll_single '\r'

theorem return_notMem_lf (s : Text) : '\r' ∉ lf s := by
  rw [lf_eq, List.mem_flatMap]
  rintro ⟨d, -, hd⟩
  split at hd
  · exact absurd (List.mem_singleton.1 hd) (by decide)
  · next hne => exact hne (List.mem_singleton.1 hd).symm

theorem mem_lf {c : Char} {s : Text} (h : c ∈ s) (hr : c ≠ '\r') (hn : c ≠ '\n') : c ∈ lf s := by
  have hmem : c ∈ replaceAll crlf ['\n'] s := by
    induction s using replaceAll_induct crlf_ne_nil with
    | nil => exact h
    | hit s ih =>
      rw [replaceAll_hit crlf_ne_nil]
      rcases List.mem_append.1 h with h | h
      · rw [crlf, List.mem_pair] at h
        exact absurd h (not_or.2 ⟨hr, hn⟩)
      · exact List.mem_append_right _ (ih h)
    | miss d s hmiss ih =>
      rw [replaceAll_miss hmiss]
      rcases List.mem_cons.1 h with rfl | h
      · exact List.mem_cons_self
      · exact List.mem_cons_of_mem _ (ih h)
  rw [lf_eq]
  refine List.mem_flatMap.2 ⟨c, hmem, ?_⟩
  rw [if_neg hr]
  exact List.mem_singleton_self c

theorem isSpace_return : isSpace '\r' = true := by decide

theorem isSpace_newline : isSpace '\n' = true := by decide

theorem lf_cons {c : Char} (hc : c ≠ '\r') (s : Text) : lf (c :: s) = c :: lf s := by
  have hmiss : ¬ crlf <+: c :: s := fun h ↦ hc (List.cons_prefix_cons.1 h).1.symm
  rw [lf_eq, replaceAll_miss hmiss, List.flatMap_cons, if_neg hc, ← lf_eq, List.singleton_append]

theorem lf_concat {c : Char} (hr : c ≠ '\r') (hn : c ≠ '\n') (s : Text) :
    lf (s ++ [c]) = lf s ++ [c] := by
  have hlast : replaceAll crlf ['\n'] (s ++ [c]) = replaceAll crlf ['\n'] s ++ [c] := by
    induction s using replaceAll_induct crlf_ne_nil with
    | nil => exact replaceAll_miss fun h ↦ hr (List.cons_prefix_cons.1 h).1.symm
    | hit s ih =>
      rw [List.append_assoc, replaceAll_hit crlf_ne_nil, replaceAll_hit crlf_ne_nil, ih,
        List.append_assoc]
    | miss d s hmiss ih =>
      have hmiss' : ¬ crlf <+: d :: (s ++ [c]) := by
        intro h
        obtain ⟨hd, htail⟩ := List.cons_prefix_cons.1 h
        cases s with
        | nil => exact hn (List.cons_prefix_cons.1 htail).1.symm
        | cons e s =>
          obtain ⟨he, -⟩ := List.cons_prefix_cons.1 htail
          exact hmiss (List.cons_prefix_cons.2
            ⟨hd, List.cons_prefix_cons.2 ⟨he, List.nil_prefix⟩⟩)
      rw [List.cons_append, replaceAll_miss hmiss', ih, replaceAll_miss hmiss, List.cons_append]
  rw [lf_eq, hlast, List.flatMap_append, ← lf_eq, List.flatMap_singleton, if_neg hr]

/-- Trimmed texts stay trimmed. -/
theorem strip_lf (s : Text) : strip (lf (strip s)) = lf (strip s) := by
  obtain ⟨hhead, hlast⟩ := strip_ends s
  have hspace : ∀ {c}, isSpace c = false → c ≠ '\r' ∧ c ≠ '\n' := by
    intro c hc
    constructor
    · rintro rfl
      rw [isSpace_return] at hc
      cases hc
    · rintro rfl
      rw [isSpace_newline] at hc
      cases hc
  generalize strip s = t at hhead hlast
  refine strip_of_ends ?_ ?_
  · cases t with
    | nil => exact fun c hc ↦ absurd hc (Option.not_mem_none c)
    | cons c t =>
      rw [lf_cons (hspace (hhead c rfl)).1]
      exact hhead
  · induction t using List.reverseRecOn with
    | nil => exact fun c hc ↦ absurd hc (Option.not_mem_none c)
    | append_singleton t c _ =>
      have hc := hlast c (by rw [List.getLast?_concat]; rfl)
      rw [lf_concat (hspace hc).1 (hspace hc).2]
      intro d hd
      rw [List.getLast?_concat] at hd
      cases hd
      exact hc

end LineFeeds

section Escapes

def escChar (c : Char) : Text :=
  if c = '\\' ∨ c = ',' ∨ c = ';' then ['\\', c] else if c = '\n' then ['\\', 'n'] else [c]

def backslashes (c : Char) : Text := if c = '\\' then ['\\', '\\'] else [c]

theorem backslashes_eq_cons (c : Char) : ∃ s, backslashes c = c :: s := by
  rw [backslashes]
  split
  · next h => exact ⟨['\\'], by rw [h]⟩
  · exact ⟨[], rfl⟩

theorem replaceAll_crlf_backslashes (s : Text) :
    replaceAll crlf ['\n'] (s.flatMap backslashes) =
      (replaceAll crlf ['\n'] s).flatMap backslashes := by
  induction s using replaceAll_induct crlf_ne_nil with
  | nil => rfl
  | hit s ih =>
    have hcrlf : crlf.flatMap backslashes = crlf := by decide
    rw [List.flatMap_append, hcrlf, replaceAll_hit crlf_ne_nil, replaceAll_hit crlf_ne_nil, ih,
      List.flatMap_append]
    rfl
  | miss c s hmiss ih =>
    rw [replaceAll_miss hmiss, List.flatMap_cons, List.flatMap_cons, ← ih]
    by_cases hc : c = '\\'
    · have hslash : ∀ t : Text, ¬ crlf <+: '\\' :: t := fun t h ↦
        absurd (List.cons_prefix_cons.1 h).1 (by decide)
      rw [backslashes, if_pos hc, List.cons_append, List.singleton_append,
        replaceAll_miss (hslash _), replaceAll_miss (hslash _)]
      rfl
    · rw [backslashes, if_neg hc, List.singleton_append, List.singleton_append]
      refine replaceAll_miss fun h ↦ ?_
      obtain ⟨hr, htail⟩ := List.cons_prefix_cons.1 h
      cases s with
      | nil => cases List.prefix_nil.1 htail
      | cons d s =>
        obtain ⟨t, ht⟩ := backslashes_eq_cons d
        rw [List.flatMap_cons, ht, List.cons_append] at htail
        obtain ⟨hn, -⟩ := List.cons_prefix_cons.1 htail
        exact hmiss (List.cons_prefix_cons.2 ⟨hr, List.cons_prefix_cons.2 ⟨hn, List.nil_prefix⟩⟩)

/-- What the replacements make of one character. -/
theorem replaced_char (c : Char) :
    ((((backslashes c).flatMap fun d ↦ if d = '\r' then ['\n'] else [d]).flatMap fun d ↦
      if d = '\n' then ['\\', 'n'] else [d]).flatMap fun d ↦
        if d = ',' then ['\\', ','] else [d]).flatMap (fun d ↦
          if d = ';' then ['\\', ';'] else [d]) =
      (if c = '\r' then ['\n'] else [c]).flatMap escChar := by
  by_cases hslash : c = '\\'
  · rw [hslash]
    decide
  by_cases hr : c = '\r'
  · rw [hr]
    decide
  by_cases hn : c = '\n'
  · rw [hn]
    decide
  by_cases hcomma : c = ','
  · rw [hcomma]
    decide
  by_cases hsemi : c = ';'
  · rw [hsemi]
    decide
  simp only [backslashes, escChar, hslash, hr, hn, hcomma, hsemi, List.flatMap_singleton, if_false,
    or_self]

theorem esc_eq (value : Option Text) : esc value = (lf (trim value)).flatMap escChar := by
  rw [esc, replaceAll_single, replaceAll_single, replaceAll_single, replaceAll_single, lf_eq, lf_eq]
  change
    (((((replaceAll crlf ['\n'] ((trim value).flatMap backslashes)).flatMap _).flatMap _).flatMap
    _).flatMap _) = _
  rw [replaceAll_crlf_backslashes]
  simp only [List.flatMap_assoc]
  refine congrArg (fun f ↦ List.flatMap f (replaceAll crlf ['\n'] (trim value))) (funext fun c ↦ ?_)
  rw [← replaced_char c]
  simp only [List.flatMap_assoc]

theorem unbroken_escChar {c : Char} (hr : c ≠ '\r') : Unbroken (escChar c) := by
  rw [escChar]
  split
  · next h =>
    refine Unbroken.cons (by decide) (Unbroken.cons ⟨hr, ?_⟩ fun d hd ↦ absurd hd List.not_mem_nil)
    rintro rfl
    revert h
    decide
  · split
    · exact Unbroken.cons (by decide) (Unbroken.cons (by decide) fun d hd ↦
        absurd hd List.not_mem_nil)
    · next hn => exact Unbroken.cons ⟨hr, hn⟩ fun d hd ↦ absurd hd List.not_mem_nil

theorem unbroken_esc (value : Option Text) : Unbroken (esc value) := by
  rw [esc_eq]
  intro c hc
  obtain ⟨d, hd, hc⟩ := List.mem_flatMap.1 hc
  have hr : d ≠ '\r' := by
    rintro rfl
    exact return_notMem_lf _ hd
  exact unbroken_escChar hr c hc

theorem unescapeText_cons {c : Char} (hc : c ≠ '\\') (s : Text) :
    unescapeText (c :: s) = c :: unescapeText s := by
  cases s with
  | nil => rfl
  | cons d s => rw [unescapeText, if_neg hc]

theorem unescapeText_escChar (c : Char) (s : Text) :
    unescapeText (escChar c ++ s) = c :: unescapeText s := by
  rw [escChar]
  split
  · next h =>
    have hn : c ≠ '\n' := by
      rintro rfl
      revert h
      decide
    have hescaped : escaped c = c := by
      rw [escaped, if_neg]
      rintro (rfl | rfl) <;> revert h <;> decide
    rw [List.cons_append, List.singleton_append, unescapeText, if_pos rfl, if_neg hn, hescaped]
  · next h =>
    split
    · next hn =>
      rw [hn, List.cons_append, List.singleton_append, unescapeText, if_pos rfl,
        if_neg (by decide)]
      rfl
    · exact unescapeText_cons (fun hc ↦ h (.inl hc)) s

theorem unescapeText_flatMap (s : Text) : unescapeText (s.flatMap escChar) = s := by
  induction s with
  | nil => rfl
  | cons c s ih => rw [List.flatMap_cons, unescapeText_escChar, ih]

theorem unescape_esc (value : Option Text) : unescape (esc value) = lf (trim value) := by
  rw [unescape, esc_eq, unescapeText_flatMap]
  exact strip_lf _

end Escapes

section Parts

variable {current : Text}

theorem splitEscapedFrom_escChar (c : Char) (s : Text) :
    splitEscapedFrom ';' current false (escChar c ++ s) =
      splitEscapedFrom ';' (current ++ escChar c) false s := by
  rw [escChar]
  split
  · rfl
  · next h =>
    split
    · rfl
    · rw [List.singleton_append, splitEscapedFrom, if_neg Bool.false_ne_true,
        if_neg fun hc ↦ h (.inl hc), if_neg fun hc ↦ h (.inr (.inr hc))]

theorem splitEscapedFrom_esc (current : Text) (value : Option Text) (s : Text) :
    splitEscapedFrom ';' current false (esc value ++ s) =
      splitEscapedFrom ';' (current ++ esc value) false s := by
  rw [esc_eq]
  generalize lf (trim value) = t
  induction t generalizing current with
  | nil => rw [List.flatMap_nil, List.nil_append, List.append_nil]
  | cons c t ih =>
    rw [List.flatMap_cons, List.append_assoc, splitEscapedFrom_escChar, ih, List.append_assoc]

/-- The separator closes a part. -/
theorem splitEscapedFrom_sep (s : Text) : splitEscapedFrom ';' current false (';' :: s) =
    current :: splitEscapedFrom ';' [] false s :=
  rfl

theorem splitEscaped_esc (value : Option Text) : splitEscaped (esc value) = [esc value] := by
  have h := splitEscapedFrom_esc [] value []
  rw [List.append_nil, List.nil_append] at h
  exact h

theorem splitEscaped_nameValue (cu : CustomerUser) : splitEscaped (nameValue cu) =
    [esc (some (trim cu.lastName)), esc (some (trim cu.firstName)), [],
      esc (some (trim cu.title)), []] := by
  rw [splitEscaped, nameValue, splitEscapedFrom_esc, splitEscapedFrom_sep, splitEscapedFrom_esc,
    splitEscapedFrom_sep, splitEscapedFrom_sep, splitEscapedFrom_esc, splitEscapedFrom_sep,
    splitEscapedFrom, List.nil_append, List.nil_append, List.nil_append]

theorem trim_trim (value : Option Text) : trim (some (trim value)) = trim value := strip_strip _

end Parts

end Tiqora.Domain.Vcard
