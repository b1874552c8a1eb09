import Mathlib
import Tiqora.Domain.Quoting
import Tiqora.Znuny.Followup

namespace Tiqora.Znuny

open Foundation Domain

variable {folding : CaseFolding} {pattern : DigitPattern}

theorem same_refl (folding : CaseFolding) (c : Char) : folding.same c c = true :=
  decide_eq_true rfl

theorem eq_of_same_bracket {c : Char} (h : folding.same c '[' = true) : c = '[' :=
  folding.caseless c '[' (of_decide_eq_true h) (by decide) (by decide)

theorem takeWhile_stop {p : Char → Bool} {c : Char} (hc : p c = false) (s t : List Char) :
    (s ++ c :: t).takeWhile p = s.takeWhile p := by
  induction s with
  | nil => rw [List.nil_append, List.takeWhile_cons_of_neg (by rw [hc]; exact Bool.false_ne_true),
      List.takeWhile_nil]
  | cons d s ih =>
    rw [List.cons_append, List.takeWhile_cons, List.takeWhile_cons, ih]

def DigitPattern.Numeric (pattern : DigitPattern) : Prop :=
  ∀ c ∈ pattern.systemId, isDigit c = true

/-- The pattern does not read over a bracket. -/
theorem DigitPattern.read_stop (hid : pattern.Numeric) (s t : List Char) :
    pattern.read folding (s ++ '[' :: t) = pattern.read folding s := by
  rw [read, read]
  rcases Nat.lt_or_ge s.length pattern.lead with hlt | hge
  · rw [if_neg, if_neg]
    · rintro ⟨hlen, _⟩
      rw [List.length_take] at hlen
      omega
    · rintro ⟨_, hall⟩
      rw [List.all_eq_true] at hall
      have hmem : '[' ∈ (s ++ '[' :: t).take pattern.lead := by
        rw [List.take_append]
        refine List.mem_append_right _ ?_
        obtain ⟨n, hn⟩ : ∃ n, pattern.lead - s.length = n + 1 := 
          ⟨pattern.lead - s.length - 1, by omega⟩
        rw [hn, List.take_succ_cons]
        exact List.mem_cons_self
      exact absurd (hall _ hmem) (by decide)
  · rw [List.take_append_of_le_length hge, List.drop_append_of_le_length hge]
    congr 1
    rcases Nat.lt_or_ge (s.drop pattern.lead).length pattern.systemId.length with hshort | hlong
    · rw [stripPrefix_eq_none hshort]
      cases h : stripPrefix folding.same pattern.systemId (s.drop pattern.lead ++ '[' :: t) with
      | none => rfl
      | some rest =>
        obtain ⟨d, hd, hsame⟩ := (stripPrefix_eq_some h).2 _ '[' hshort
          (by rw [List.getElem?_append_right (Nat.le_refl _), Nat.sub_self]; rfl)
        have hdigit := hid d (List.mem_of_getElem? hd)
        rw [eq_of_same_bracket hsame] at hdigit
        exact absurd hdigit (by decide)
    · rw [stripPrefix_append_right hlong, Option.bind_map]
      cases h : stripPrefix folding.same pattern.systemId (s.drop pattern.lead) with
      | none => rfl
      | some rest =>
        have hrest := congrArg List.length (stripPrefix_eq_some h).1
        rw [List.length_drop, List.length_drop] at hrest
        have hrun := (List.takeWhile_prefix (l := rest) isDigit).length_le
        rw [List.length_drop] at hlong
        simp only [Option.bind_some, Function.comp_apply]
        rw [takeWhile_stop (by decide), List.take_append_of_le_length]
        rw [List.length_take]
        omega

theorem DigitPattern.read_nil (hpos : 0 < pattern.lead + pattern.systemId.length + pattern.minSize) :
    pattern.read folding [] = none := by
  rw [read, List.take_nil, List.drop_nil]
  split
  · next h =>
    have hlead : pattern.lead = 0 := h.1.symm
    cases hid : pattern.systemId with
    | nil =>
      rw [hid, hlead, List.length_nil] at hpos
      rw [stripPrefix, Option.bind_some, List.takeWhile_nil, List.take_nil, List.length_nil,
        if_neg (by omega)]
    | cons d rest => rfl
  · rfl

/-- A number of the pattern's shape, and nothing else. -/
structure DigitPattern.Shape (pattern : DigitPattern) (tn : List Char) : Prop where
  parts : ∃ date run, tn = date ++ pattern.systemId ++ run ∧ date.length = pattern.lead ∧
    (∀ c ∈ date, isDigit c = true) ∧ (∀ c ∈ run, isDigit c = true) ∧
    pattern.minSize ≤ run.length ∧ run.length ≤ pattern.maxSize

theorem DigitPattern.read_exact {tn : List Char} (h : pattern.Shape tn) {c : Char}
    (hc : isDigit c = false) (s : List Char) :
    pattern.read folding (tn ++ c :: s) = some tn := by
  obtain ⟨date, run, rfl, hlen, hdate, hrun, hmin, hmax⟩ := h.parts
  have htext : date ++ pattern.systemId ++ run ++ c :: s =
      date ++ (pattern.systemId ++ (run ++ c :: s)) := by
    rw [List.append_assoc, List.append_assoc]
  have hall : run.takeWhile isDigit = run := List.takeWhile_eq_self_iff.2 hrun
  have htotal : pattern.lead + pattern.systemId.length + run.length =
      (date ++ pattern.systemId ++ run).length := by
    rw [List.length_append, List.length_append, hlen]
  rw [read, htext, ← hlen, List.take_left' rfl, List.drop_left' rfl,
    if_pos ⟨rfl, List.all_eq_true.2 hdate⟩, stripPrefix_append (same_refl folding),
    Option.bind_some, takeWhile_stop hc, hall]
  simp only [List.take_of_length_le hmax, if_pos hmin, hlen]
  rw [htotal, ← htext, List.take_left' rfl]

variable {hook divider : List Char}

/-- What follows a match that starts before a bracket and the hook holds a bracket. -/
theorem bracket_after_match {s h r : List Char}
    (hr : stripPrefix folding.same h (s ++ ['['] ++ h) = some r) : '[' ∈ r := by
  obtain ⟨rfl, hsame⟩ := stripPrefix_eq_some hr
  by_contra hnot
  -- a bracket of the text within the match is one of the pattern, so of the text further on
  have hclimb : ∀ n : ℕ, ∃ m, n ≤ m ∧ (s ++ ['['] ++ h)[m]? = some '[' := by
    intro n
    induction n with
    | zero =>
      refine ⟨s.length, Nat.zero_le _, ?_⟩
      rw [List.append_assoc, List.getElem?_append_right (Nat.le_refl _), Nat.sub_self]
      rfl
    | succ n ih =>
      obtain ⟨m, hm, hget⟩ := ih
      have hlt : m < h.length := by
        by_contra hge
        refine hnot (List.mem_of_getElem? (i := m - h.length) ?_)
        rw [List.getElem?_drop, Nat.add_sub_cancel' (Nat.le_of_not_lt hge)]
        exact hget
      obtain ⟨d, hd, hfold⟩ := hsame m '[' hlt hget
      refine ⟨(s ++ ['[']).length + m, ?_, ?_⟩
      · rw [List.length_append, List.length_singleton]
        omega
      · rw [List.getElem?_append_right (Nat.le_add_right _ _), Nat.add_sub_cancel_left, hd,
          eq_of_same_bracket hfold]
  obtain ⟨m, hm, hget⟩ := hclimb (s ++ ['['] ++ h).length
  rw [List.getElem?_eq_none hm] at hget
  cases hget

/-- A match that starts before the bracket of a tag ends before the tag's number. -/
theorem hookedMatch_stop (hid : pattern.Numeric) (s t : List Char) :
    hookedMatch folding hook divider (pattern.read folding) (s ++ ['['] ++ (hook ++ divider ++ t)) =
      hookedMatch folding hook divider (pattern.read folding) (s ++ ['['] ++ (hook ++ divider)) := by
  have hlen : (hook ++ divider).length ≤ (s ++ ['['] ++ (hook ++ divider)).length := by
    simp only [List.length_append]
    omega
  rw [hookedMatch, hookedMatch, ← List.append_assoc (s ++ ['[']), stripPrefix_append_right hlen]
  cases h : stripPrefix folding.same (hook ++ divider) (s ++ ['['] ++ (hook ++ divider)) with
  | none => rfl
  | some r =>
    obtain ⟨u, v, rfl⟩ := List.append_of_mem (bracket_after_match h)
    rw [Option.map_some, Option.bind_some, Option.bind_some, List.append_assoc, List.cons_append,
      DigitPattern.read_stop hid, DigitPattern.read_stop hid]

theorem hookedMatch_short (hnil : pattern.read folding [] = none) {s : List Char}
    (h : s.length ≤ (hook ++ divider).length) :
    hookedMatch folding hook divider (pattern.read folding) s = none := by
  rw [hookedMatch]
  cases hr : stripPrefix folding.same (hook ++ divider) s with
  | none => rfl
  | some r => rw [(stripPrefix_eq_some hr).1, List.drop_eq_nil_of_le h, Option.bind_some, hnil]

theorem firstMatch_short (hnil : pattern.read folding [] = none) {s : List Char}
    (h : s.length ≤ (hook ++ divider).length) :
    firstMatch (hookedMatch folding hook divider (pattern.read folding)) s = none := by
  refine firstMatch_eq_none fun u v huv ↦ hookedMatch_short hnil ?_
  rw [huv, List.length_append] at h
  omega

/-- In a text with a tag the first number after a hook is the tag's, unless the text before the
number has one. -/
theorem firstMatch_tag (hid : pattern.Numeric) (hnil : pattern.read folding [] = none)
    {tn : List Char} (htn : pattern.Shape tn) (s t : List Char) :
    firstMatch (hookedMatch folding hook divider (pattern.read folding))
        (s ++ ['['] ++ (hook ++ divider ++ (tn ++ ']' :: t))) =
      some ((firstMatch (hookedMatch folding hook divider (pattern.read folding))
        (s ++ ['['] ++ (hook ++ divider))).getD tn) := by
  have hhead : firstMatch (hookedMatch folding hook divider (pattern.read folding))
      (hook ++ divider ++ (tn ++ ']' :: t)) = some tn := by
    refine firstMatch_head ?_
    rw [hookedMatch, stripPrefix_append (same_refl folding), Option.bind_some,
      DigitPattern.read_exact htn (by decide)]
  rw [firstMatch_append (firstMatch_short hnil (Nat.le_refl _)), hhead]
  · cases firstMatch (hookedMatch folding hook divider (pattern.read folding))
      (s ++ ['['] ++ (hook ++ divider)) <;> rfl
  · intro u v huv hv
    obtain ⟨w, rfl⟩ : ∃ w, v = w ++ ['['] := by
      refine ⟨v.dropLast, ?_⟩
      have hlast : v.getLast hv = '[' := by
        have : (s ++ ['[']).getLast (by rw [huv]; exact List.append_ne_nil_of_right_ne_nil u hv) =
            '[' := List.getLast_append_singleton s
        rw [← this]
        simp only [huv, List.getLast_append_of_right_ne_nil u v hv]
      rw [← hlast, List.dropLast_append_getLast hv]
    exact hookedMatch_stop hid w _

theorem firstMatch_open_tag (hid : pattern.Numeric) (hnil : pattern.read folding [] = none) :
    firstMatch (hookedMatch folding hook divider (pattern.read folding))
      (['['] ++ (hook ++ divider)) = none := by
  refine firstMatch_eq_none fun u v huv ↦ ?_
  cases u with
  | nil =>
    rw [List.nil_append] at huv
    rw [← huv, hookedMatch]
    cases hr : stripPrefix folding.same (hook ++ divider) (['['] ++ (hook ++ divider)) with
    | none => rfl
    | some r =>
      have hmem : '[' ∈ r := bracket_after_match (s := []) hr
      have hlen := congrArg List.length (stripPrefix_eq_some hr).1
      rw [List.length_drop, List.length_append, List.length_singleton, Nat.add_sub_cancel] at hlen
      obtain ⟨c, rfl⟩ := List.length_eq_one_iff.1 hlen
      rw [← List.mem_singleton.1 hmem, Option.bind_some]
      exact (DigitPattern.read_stop hid [] []).trans hnil
  | cons c u =>
    refine hookedMatch_short hnil ?_
    have hrest : hook ++ divider = u ++ v := (List.cons.inj huv).2
    rw [hrest, List.length_append]
    exact Nat.le_add_left _ _

theorem head_collect (subject tn : List Char) (matchers : List (List Char → Option (List Char)))
    (candidates : List (List Char)) :
    (matchers.foldl (collect subject) (tn :: candidates)).head? = some tn := by
  induction matchers generalizing candidates with
  | nil => rfl
  | cons m matchers ih =>
    rw [List.foldl_cons, collect]
    split
    · split
      · exact ih candidates
      · exact ih _
    · exact ih candidates

def NumberConfig.followupPattern (config : NumberConfig) : DigitPattern :=
  digitPattern config.generator config.systemId config.checkSystemId config.followupMinCounterSize

theorem head_candidates {config : NumberConfig} {subject tn : List Char} (hne : subject ≠ [])
    (h : firstMatch (hookedMatch folding hook divider (config.followupPattern.read folding)) subject =
      some tn) :
    (detectCandidates folding config hook divider subject).head? = some tn := by
  have hfirst : collect subject []
      (hookedMatch folding hook divider (config.followupPattern.read folding)) = [tn] := by
    rw [collect, h]
    rfl
  rw [NumberConfig.followupPattern] at hfirst
  rw [detectCandidates, getTnCandidates, if_neg hne]
  dsimp only
  rw [List.nil_append, List.flatMap_cons, List.cons_append, List.foldl_cons, hfirst]
  exact head_collect subject tn _ []

/-- The digits of the number after its date and, where the follow-ups check it, its SystemID. -/
def NumberConfig.countedDigits (config : NumberConfig) (ownDigits : ℕ) : ℕ :=
  (if config.checkSystemId then 0 else config.systemId.length) + ownDigits

/-- The counter with its padding, and the check digit. -/
def NumberConfig.ownDigits (config : NumberConfig) (counter : ℕ) : ℕ :=
  match config.generator with
  | .autoIncrement => max (config.resolvedMinCounterSize (some config.autoIncrementMinCounterSize))
      (Nat.toDigits 10 counter).length
  | .date =>
    if config.useFormattedCounter then
      max (config.resolvedMinCounterSize none) (Nat.toDigits 10 counter).length
    else (Nat.toDigits 10 counter).length
  | _ => max 5 (Nat.toDigits 10 counter).length + 1

/-- The number has as many digits as the follow-ups look for, and both sides find the same least
counter size. -/
def NumberConfig.Recognisable (config : NumberConfig) (counter : ℕ) : Prop :=
  match config.generator with
  | .autoIncrement =>
    config.resolvedMinCounterSize (some config.autoIncrementMinCounterSize) =
        config.followupMinCounterSize ∧
      0 < config.followupMinCounterSize ∧
      config.countedDigits (config.ownDigits counter) ≤ config.followupMinCounterSize + 5
  | .date => 4 ≤ config.countedDigits (config.ownDigits counter) ∧
      config.countedDigits (config.ownDigits counter) ≤ 40
  | .dateChecksum => config.countedDigits (config.ownDigits counter) ≤ 40
  | _ => False

theorem CalendarDay.length_datePart (today : CalendarDay) : today.datePart.length = 8 := by
  have hyear : (Nat.toDigits 10 today.year).length ≤ 4 :=
    (Nat.length_toDigits_le_iff (by decide) (by decide)).2 today.year_lt
  have hmonth : (Nat.toDigits 10 today.month).length ≤ 2 :=
    (Nat.length_toDigits_le_iff (by decide) (by decide)).2
      (Nat.lt_of_le_of_lt today.month_le (by decide))
  have hday : (Nat.toDigits 10 today.day).length ≤ 2 :=
    (Nat.length_toDigits_le_iff (by decide) (by decide)).2
      (Nat.lt_of_le_of_lt today.day_le (by decide))
  rw [datePart, List.length_append, List.length_append, length_zfill, length_zfill, length_zfill]
  omega

theorem CalendarDay.isDigit_datePart (today : CalendarDay) :
    ∀ c ∈ today.datePart, isDigit c = true := by
  intro c hc
  rcases List.mem_append.1 hc with hleft | hday
  · rcases List.mem_append.1 hleft with hyear | hmonth
    · exact isDigit_zfill _ _ c hyear
    · exact isDigit_zfill _ _ c hmonth
  · exact isDigit_zfill _ _ c hday

/-- A number whose last part has as many digits as the pattern wants has its shape, whether the
pattern asks for the SystemID or not. -/
theorem shape_of_parts {lead minSize maxSize : ℕ} {systemId own : List Char} (date : List Char)
    (check : Bool)
    (hdate : date.length = lead) (hdigits : ∀ c ∈ date, isDigit c = true)
    (hid : ∀ c ∈ systemId, isDigit c = true) (hown : ∀ c ∈ own, isDigit c = true)
    (hmin : minSize ≤ (if check then 0 else systemId.length) + own.length)
    (hmax : (if check then 0 else systemId.length) + own.length ≤ maxSize) :
    DigitPattern.Shape ⟨lead, if check then systemId else [], minSize, maxSize⟩
      (date ++ systemId ++ own) := by
  cases check with
  | true =>
    rw [if_pos rfl, Nat.zero_add] at hmin hmax
    exact ⟨date, own, rfl, hdate, hdigits, hown, hmin, hmax⟩
  | false =>
    rw [if_neg Bool.false_ne_true, ← List.length_append] at hmin hmax
    refine ⟨date, systemId ++ own, ?_, hdate, hdigits, fun c hc ↦ ?_, hmin, hmax⟩
    · rw [if_neg Bool.false_ne_true, List.append_nil, List.append_assoc]
    · exact (List.mem_append.1 hc).elim (hid c) (hown c)

theorem followupPattern_numeric {config : NumberConfig}
    (hid : ∀ c ∈ config.systemId, isDigit c = true) : config.followupPattern.Numeric := by
  have hsid : config.followupPattern.systemId =
      if config.checkSystemId then config.systemId else [] := by
    rw [NumberConfig.followupPattern, digitPattern]
    split <;> rfl
  intro c hc
  rw [hsid] at hc
  split at hc
  · exact hid c hc
  · cases hc

theorem followupPattern_nil {config : NumberConfig} {counter : ℕ}
    (hrec : config.Recognisable counter) : config.followupPattern.read folding [] = none := by
  refine DigitPattern.read_nil ?_
  rw [NumberConfig.followupPattern]
  cases hg : config.generator with
  | autoIncrement =>
    rw [NumberConfig.Recognisable, hg] at hrec
    exact Nat.lt_of_lt_of_le hrec.2.1 (Nat.le_add_left _ _)
  | date => exact Nat.succ_pos _
  | dateChecksum => exact Nat.succ_pos _
  | random =>
    rw [NumberConfig.Recognisable, hg] at hrec
    cases hrec
  | other =>
    rw [NumberConfig.Recognisable, hg] at hrec
    cases hrec

theorem ticketNumberBuild_shape {config : NumberConfig} {counter count : ℕ} {today : CalendarDay}
    {tn : List Char} (hid : ∀ c ∈ config.systemId, isDigit c = true)
    (hrec : config.Recognisable counter)
    (hbuild : ticketNumberBuild config counter count today = some tn) :
    config.followupPattern.Shape tn := by
  rw [NumberConfig.followupPattern]
  cases hg : config.generator with
  | autoIncrement =>
    rw [ticketNumberBuild, hg] at hbuild
    cases hbuild
    simp only [NumberConfig.Recognisable, NumberConfig.countedDigits, NumberConfig.ownDigits, hg,
      ← length_zfill] at hrec
    refine shape_of_parts [] _ rfl (fun c hc ↦ nomatch hc) hid (isDigit_zfill _ _) ?_
      hrec.2.2
    rw [length_zfill, hrec.1]
    omega
  | date =>
    rw [ticketNumberBuild, hg] at hbuild
    cases hbuild
    simp only [NumberConfig.Recognisable, NumberConfig.countedDigits, NumberConfig.ownDigits, hg]
      at hrec
    rw [formatDate]
    split
    · next hformatted =>
      rw [if_pos hformatted, ← length_zfill] at hrec
      exact shape_of_parts _ _ today.length_datePart today.isDigit_datePart hid (isDigit_zfill _ _)
        hrec.1 hrec.2
    · next hplain =>
      rw [if_neg hplain] at hrec
      exact shape_of_parts _ _ today.length_datePart today.isDigit_datePart hid (isDigit_toDigits _)
        hrec.1 hrec.2
  | dateChecksum =>
    rw [ticketNumberBuild, hg, formatDateChecksum, Option.map_eq_some_iff] at hbuild
    obtain ⟨checksum, _, rfl⟩ := hbuild
    have hdigit : (Nat.toDigits 10 (checkDigit checksum)).length = 1 := by
      rw [Nat.toDigits_of_lt_base, List.length_singleton]
      rw [checkDigit]
      split <;> omega
    have hlen : (zfill 5 counter ++ Nat.toDigits 10 (checkDigit checksum)).length =
        max 5 (Nat.toDigits 10 counter).length + 1 := by
      rw [List.length_append, length_zfill, hdigit]
    simp only [NumberConfig.Recognisable, NumberConfig.countedDigits, NumberConfig.ownDigits, hg,
      ← hlen] at hrec
    rw [List.append_assoc _ (zfill 5 counter)]
    refine shape_of_parts _ _ today.length_datePart today.isDigit_datePart hid (fun c hc ↦ ?_) ?_ hrec
    · exact (List.mem_append.1 hc).elim (isDigit_zfill _ _ c) (isDigit_toDigits _ c)
    · rw [hlen]
      omega
  | random =>
    rw [NumberConfig.Recognisable, hg] at hrec
    cases hrec
  | other =>
    rw [NumberConfig.Recognisable, hg] at hrec
    cases hrec

/-- The text before the number where the tag stands right of the subject. -/
def textBeforeNumber (folding : CaseFolding) (hook divider : List Char) (addRe addFwd : Bool)
    (subject : List Char) : List Char :=
  let base := subjectBase folding hook divider addRe addFwd subject
  (if base = [] then [] else (base ++ [' ']).dropWhile isSpace) ++ ['['] ++ (hook ++ divider)

/-- The number that follow-ups find in that text. -/
def earlierNumber (folding : CaseFolding) (config : NumberConfig) (hook divider : List Char)
    (addRe addFwd : Bool) (subject : List Char) : Option (List Char) :=
  firstMatch (hookedMatch folding hook divider (config.followupPattern.read folding))
    (textBeforeNumber folding hook divider addRe addFwd subject)

theorem dropWhile_stop {p : Char → Bool} {c : Char} (hc : p c = false) (s t : List Char) :
    (s ++ c :: t).dropWhile p = s.dropWhile p ++ c :: t := by
  induction s with
  | nil => rw [List.nil_append, List.dropWhile_cons_of_neg (by rw [hc]; exact Bool.false_ne_true),
      List.dropWhile_nil, List.nil_append]
  | cons d s ih =>
    rw [List.cons_append, List.dropWhile_cons, List.dropWhile_cons]
    split
    · exact ih
    · rfl

theorem rdropWhile_stop {p : Char → Bool} {c : Char} (hc : p c = false) (s t : List Char) :
    (s ++ c :: t).rdropWhile p = s ++ c :: t.rdropWhile p := by
  rw [List.rdropWhile, List.reverse_append, List.reverse_cons, List.append_assoc,
    List.singleton_append, dropWhile_stop hc, List.reverse_append, List.reverse_cons,
    List.reverse_reverse, List.append_assoc, List.singleton_append, List.rdropWhile]

theorem ticketTag_eq (hook divider tn : List Char) :
    ticketTag hook divider tn = '[' :: (hook ++ divider ++ tn ++ [']']) := by
  rw [ticketTag, List.append_assoc, List.append_assoc, List.append_assoc, List.append_assoc,
    List.append_assoc, List.singleton_append]

theorem buildTicketSubject_left (folding : CaseFolding) (hook divider : List Char) {tn : List Char}
    (htn : tn ≠ []) (addRe addFwd : Bool) (subject : List Char) :
    ∃ t, buildTicketSubject folding hook divider tn .left addRe addFwd subject =
      [] ++ ['['] ++ (hook ++ divider ++ (tn ++ ']' :: t)) := by
  have hform : ∀ t, ticketTag hook divider tn ++ t =
      [] ++ ['['] ++ (hook ++ divider ++ (tn ++ ']' :: t)) := by
    intro t
    rw [ticketTag_eq]
    simp only [List.nil_append, List.cons_append, List.append_assoc]
  rw [buildTicketSubject]
  split
  · next hcond =>
    rw [Bool.or_eq_true, decide_eq_true_eq, decide_eq_true_eq] at hcond
    exact hcond.elim nofun fun h ↦ absurd h htn
  · split
    · exact ⟨[], (List.append_nil _).symm.trans (hform [])⟩
    · refine ⟨([' '] ++ subjectBase folding hook divider addRe addFwd subject).rdropWhile isSpace, ?_⟩
      rw [if_neg (by decide), strip, List.append_assoc, hform]
      rw [List.nil_append, List.singleton_append, List.dropWhile_cons_of_neg (by decide),
        ← List.append_assoc (hook ++ divider), ← List.cons_append, rdropWhile_stop (by decide),
        List.cons_append, List.append_assoc]
      rfl

theorem buildTicketSubject_right {tn : List Char} (htn : tn ≠ []) (addRe addFwd : Bool)
    (subject : List Char) :
    buildTicketSubject folding hook divider tn .right addRe addFwd subject =
      textBeforeNumber folding hook divider addRe addFwd subject ++ (tn ++ [']']) := by
  rw [buildTicketSubject, textBeforeNumber]
  split
  · next hcond =>
    rw [Bool.or_eq_true, decide_eq_true_eq, decide_eq_true_eq] at hcond
    exact hcond.elim nofun fun h ↦ absurd h htn
  · split
    · rw [ticketTag]
      simp only [List.nil_append, List.append_assoc]
    · rw [if_pos rfl, strip, ticketTag_eq, dropWhile_stop (by decide)]
      have hend : ∀ s t : List Char, s ++ '[' :: (t ++ [']']) = s ++ '[' :: t ++ ']' :: [] := by
        intro s t
        rw [List.append_assoc, List.cons_append]
      rw [hend, rdropWhile_stop (by decide), List.rdropWhile_nil]
      simp only [List.append_assoc, List.cons_append, List.nil_append]

/-- A number that the generators write left of a subject is the first that the follow-ups find;
right of the subject it is, unless the text before it has one. -/
theorem outgoing_subject_recognised (folding : CaseFolding) (config : NumberConfig)
    (hook divider subject : List Char) (addRe addFwd : Bool) (counter count : ℕ)
    (today : CalendarDay) (tn : List Char) (hid : ∀ c ∈ config.systemId, isDigit c = true)
    (hrec : config.Recognisable counter)
    (hbuild : ticketNumberBuild config counter count today = some tn) :
    (detectCandidates folding config hook divider
      (buildTicketSubject folding hook divider tn .left addRe addFwd subject)).head? = some tn ∧
    (detectCandidates folding config hook divider
      (buildTicketSubject folding hook divider tn .right addRe addFwd subject)).head? =
      some ((earlierNumber folding config hook divider addRe addFwd subject).getD tn) := by
  have hnumeric := followupPattern_numeric hid
  have hnil : config.followupPattern.read folding [] = none := followupPattern_nil hrec
  have hshape := ticketNumberBuild_shape hid hrec hbuild
  have htn : tn ≠ [] := by
    rintro rfl
    have hread : config.followupPattern.read folding ([] ++ '[' :: []) = some [] :=
      DigitPattern.read_exact hshape (by decide) []
    rw [DigitPattern.read_stop hnumeric, hnil] at hread
    cases hread
  constructor
  · obtain ⟨t, ht⟩ := buildTicketSubject_left folding hook divider htn addRe addFwd subject
    rw [ht]
    refine head_candidates nofun ?_
    rw [firstMatch_tag hnumeric hnil hshape [] t, List.nil_append,
      firstMatch_open_tag hnumeric hnil, Option.getD_none]
  · rw [buildTicketSubject_right htn]
    have htext : textBeforeNumber folding hook divider addRe addFwd subject ++ (tn ++ [']']) =
        (if subjectBase folding hook divider addRe addFwd subject = [] then []
          else (subjectBase folding hook divider addRe addFwd subject ++ [' ']).dropWhile isSpace) ++
        ['['] ++ (hook ++ divider ++ (tn ++ ']' :: [])) := by
      rw [textBeforeNumber, List.append_assoc _ (hook ++ divider)]
    refine head_candidates ?_ ?_
    · exact List.append_ne_nil_of_right_ne_nil _ (List.append_ne_nil_of_left_ne_nil htn _)
    · rw [htext, firstMatch_tag hnumeric hnil hshape _ [], earlierNumber, textBeforeNumber]

theorem eq_of_toLower_eq {c d : Char} (h : c.toLower = d.toLower) (hd : d.isAlpha = false) :
    c = d := by
  rw [Char.isAlpha, Bool.or_eq_false_iff, Char.isUpper, Char.isLower] at hd
  have hupper := of_decide_eq_false hd.1
  rw [Char.toLower, Char.toLower, dif_neg hupper] at h
  split at h
  · next hc =>
    have hlow := UInt32.le_iff_toNat_le.1 hc.1
    have hhigh := UInt32.le_iff_toNat_le.1 hc.2
    have hval : d.val.toNat = c.val.toNat + 32 := by
      rw [← h]
      simp only [UInt32.toNat_add]
      simp only [Char.reduceVal, UInt32.reduceSub, UInt32.reduceToNat] at *
      omega
    simp only [Char.reduceVal, UInt32.reduceToNat] at hlow hhigh
    have hfirst : d.val ≥ 'a'.val := by
      rw [ge_iff_le, UInt32.le_iff_toNat_le]
      simp only [Char.reduceVal, UInt32.reduceToNat]
      omega
    have hlast : d.val ≤ 'z'.val := by
      rw [UInt32.le_iff_toNat_le]
      simp only [Char.reduceVal, UInt32.reduceToNat]
      omega
    rw [decide_eq_true hfirst, decide_eq_true hlast] at hd
    exact absurd hd.2.symm Bool.false_ne_true
  · exact h

/-- The case folding of ASCII. -/
def asciiFolding : CaseFolding where
  lower := Char.toLower
  caseless _ _ h _ hd := eq_of_toLower_eq h hd

/-- Znuny's defaults but for the generator. -/
def dateConfig : NumberConfig where
  generator := .date
  systemId := ['1', '0']
  autoIncrementMinCounterSize := .unset
  minCounterSize := .unset
  useFormattedCounter := false
  checkSystemId := false

def ticketHook : List Char := ['T', 'i', 'c', 'k', 'e', 't', '#']

theorem outgoing_subject_recognised_sample :
    (detectCandidates asciiFolding dateConfig ticketHook [] (buildTicketSubject asciiFolding
      ticketHook [] ['2', '0', '2', '6', '0', '7', '1', '9', '1', '0', '4', '2'] .left true false
      ['R', 'E', ':', ' ', 'h', 'i'])).head? =
      some ['2', '0', '2', '6', '0', '7', '1', '9', '1', '0', '4', '2'] :=
  (outgoing_subject_recognised asciiFolding dateConfig ticketHook [] ['R', 'E', ':', ' ', 'h', 'i']
    true false 42 0 sampleDay _ (List.all_eq_true.1 rfl) ⟨by decide, by decide⟩ rfl).1

/-- The second number of a day is too short for the follow-ups. -/
theorem date_number_unrecognised :
    ticketNumberBuild dateConfig 2 0 sampleDay =
      some ['2', '0', '2', '6', '0', '7', '1', '9', '1', '0', '2'] ∧
    (detectCandidates asciiFolding dateConfig ticketHook [] (buildTicketSubject asciiFolding
      ticketHook [] ['2', '0', '2', '6', '0', '7', '1', '9', '1', '0', '2'] .left false false
      ['h', 'i'])).head? ≠ some ['2', '0', '2', '6', '0', '7', '1', '9', '1', '0', '2'] := by
  decide

end Tiqora.Znuny
