import Tiqora.Calendar.Moments
import Tiqora.Cmdb.Values

namespace Tiqora.Cmdb.Values

open Foundation Civil Calendar Definition

/-- A value that is stored in a form with the same reading. -/
def SettledValue (L : Lib) (spec : AttributeSpec) (v : Raw) : Prop :=
  match spec.type with
  | .decimal | .money => ∀ d, toDecimal v = .ok d → d.coeff = 0 ∨ d.adjusted < 28
  | .mac => 17 ≤ limit spec
  | .ip => ∀ s, v = .str s → ∀ text, canonicalIp L (strip s) = some text →
      (text.length : ℤ) ≤ limit spec
  | .datetime => ∀ utc, toMoment L v = .ok utc → L.utcoffset utc = 0
  | _ => True

/-- A stored value: it is not empty, and it is kept when it is stored again, if and only if what
it was made of is settled. -/
structure Stored (L : Lib) (spec : AttributeSpec) (v r : Raw) : Prop where
  present : r.isEmpty = false
  again : coerce L spec r = .ok r ↔ SettledValue L spec v

variable {L : Lib} {spec : AttributeSpec} {v r : Raw}

theorem toInt_spec {n : ℤ} (h : toInt v = .ok n) : toInt (.int n) = .ok n := by
  obtain ⟨m, -, h⟩ := bind_eq_ok.1 h
  obtain ⟨hle, h⟩ := require_bind_eq_ok.1 h
  cases h
  exact require_bind_eq_ok.2 ⟨hle, rfl⟩

section Decimals

variable {d : Decimal}

theorem toDecimal_spec (h : toDecimal v = .ok d) : InPrecision d := by
  obtain ⟨d', -, h⟩ := bind_eq_ok.1 h
  obtain ⟨hin, h⟩ := require_bind_eq_ok.1 h
  cases h
  exact hin

theorem format_chars (d : Decimal) : ∀ c ∈ d.format, c.isDigit = true ∨ c = '-' ∨ c = '.' := by
  intro c hc
  rw [Decimal.format] at hc
  rcases List.mem_append.1 hc with hsign | hbody
  · split at hsign
    · exact .inr (.inl (List.mem_singleton.1 hsign))
    · cases hsign
  · split at hbody
    · rcases List.mem_append.1 hbody with hdigit | hzero
      · exact .inl (ascii_toDigits _ c hdigit)
      · rw [List.eq_of_mem_replicate hzero]
        exact .inl rfl
    · rcases List.mem_append.1 hbody with hwhole | hfrac
      · exact .inl (ascii_zfill _ _ c (List.mem_of_mem_take hwhole))
      · rcases List.mem_cons.1 hfrac with rfl | hfrac
        · exact .inr (.inr rfl)
        · exact .inl (ascii_zfill _ _ c (List.mem_of_mem_drop hfrac))

theorem text_spec (d : Decimal) : d.text ≠ [] ∧ strip d.text = d.text := by
  have hchars : d.text ≠ [] ∧ ∀ c ∈ d.text, c.isDigit = true ∨ c = '-' ∨ c = '.' := by
    rw [Decimal.text]
    split
    · refine ⟨List.cons_ne_nil _ _, fun c hc ↦ .inl ?_⟩
      rw [List.mem_singleton.1 hc]
      rfl
    · next h =>
      rw [not_or] at h
      exact ⟨h.2, format_chars _⟩
  refine ⟨hchars.1, strip_eq_self fun c hc ↦ ?_⟩
  rcases hchars.2 c hc with hdigit | rfl | rfl
  · exact not_space_of_digit hdigit
  · decide
  · decide

/-- What a stored decimal is read as. -/
theorem read_stored (hin : InPrecision d) : ∃ d', Decimal.read d.text = some d' ∧
    d'.value = d.value ∧ d'.text = d.text ∧ (InPrecision d' ↔ d.coeff = 0 ∨ d.adjusted < 28) := by
  by_cases hd : d.coeff = 0
  · refine ⟨⟨false, 0, 0⟩, ?_, ?_, ?_, iff_of_true (.inl rfl) (.inl hd)⟩
    · rw [Decimal.text_zero hd]
      exact Decimal.read_zero
    · simp [Decimal.value, hd]
    · rw [Decimal.text_zero hd, Decimal.text_zero rfl]
  · obtain ⟨hcoeff, hvalue, hadjusted, hnormal, hdigits⟩ := Decimal.normalize_spec hd
    obtain ⟨hcoeff', hvalue', hadjusted', hnormal', hexp'⟩ := Decimal.settle_spec hcoeff
    obtain ⟨hhigh, hlow, hprecise⟩ := hin.resolve_left hd
    have hdef : d.normalize.adjusted = d.normalize.exp + d.normalize.digits - 1 := rfl
    have hdef' : d.normalize.settle.adjusted =
        d.normalize.settle.exp + d.normalize.settle.digits - 1 := rfl
    have hfits : d.normalize.settle.Fits := by
      refine ⟨?_, ?_⟩
      · rw [hadjusted', hadjusted]
        exact hhigh.trans (by decide)
      · have hmin : (-100 : ℤ) ≤ d.normalize.settle.exp := by omega
        exact le_trans (by decide) hmin
    refine ⟨d.normalize.settle, (Decimal.read_text hd hfits).2, hvalue'.trans hvalue, ?_, ?_⟩
    · rw [Decimal.text, Decimal.text, hnormal', hnormal]
    · simp only [InPrecision, hcoeff', hd, false_or]
      omega

theorem toDecimal_text (hin : InPrecision d) :
    (∃ d', toDecimal (.str d.text) = .ok d' ∧ d'.value = d.value ∧ d'.text = d.text ∧
      (d.coeff = 0 ∨ d.adjusted < 28)) ∨
    (∃ bad, toDecimal (.str d.text) = .error bad) ∧ ¬ (d.coeff = 0 ∨ d.adjusted < 28) := by
  obtain ⟨d', hread, hvalue, htext, hprecise⟩ := read_stored hin
  have hdecimal : readDecimal (.str d.text) = .ok d' := by
    rw [readDecimal, (text_spec d).2, hread]
    rfl
  have hshape : toDecimal (.str d.text) = (do
      require (InPrecision d') badRange
      return d') := by
    rw [toDecimal, hdecimal, ok_bind]
  by_cases hin' : InPrecision d'
  · refine .inl ⟨d', ?_, hvalue, htext, hprecise.1 hin'⟩
    rw [hshape, require, if_pos hin']
    rfl
  · refine .inr ⟨⟨badRange, ?_⟩, fun h ↦ hin' (hprecise.2 h)⟩
    rw [hshape, require, if_neg hin']
    rfl

end Decimals

section Mac

variable {s : Text}

theorem isHex_spec {c : Char} (h : isHex c = true) :
    c.toLower = c ∧ isSpace c = false ∧ c ≠ ':' ∧ c ≠ '-' ∧ c ≠ '.' := by
  have hsmall : c.toNat < 128 := by
    rw [isHex, Bool.or_eq_true, Char.isDigit, Bool.and_eq_true, Bool.and_eq_true, decide_eq_true_eq,
      decide_eq_true_eq, decide_eq_true_eq, decide_eq_true_eq] at h
    rcases h with ⟨-, hle⟩ | ⟨-, hle⟩
    · exact (show c.toNat ≤ 57 from hle).trans_lt (by decide)
    · exact (show c.toNat ≤ 102 from hle).trans_lt (by decide)
  have hall : ∀ n : Fin 128, isHex (Char.ofNat n) = true →
      (Char.ofNat n).toLower = Char.ofNat n ∧ isSpace (Char.ofNat n) = false ∧
        Char.ofNat n ≠ ':' ∧ Char.ofNat n ≠ '-' ∧ Char.ofNat n ≠ '.' := by decide +kernel
  have hc := hall ⟨c.toNat, hsmall⟩
  rw [Char.ofNat_toNat] at hc
  exact hc h

theorem mem_joinPairs {c : Char} (h : c ∈ joinPairs s) : c ∈ s ∨ c = ':' := by
  induction s using joinPairs.induct with
  | case1 a b d s ih =>
    rw [joinPairs] at h
    rcases List.mem_cons.1 h with rfl | h
    · exact .inl List.mem_cons_self
    · rcases List.mem_cons.1 h with rfl | h
      · exact .inl (List.mem_cons_of_mem _ List.mem_cons_self)
      · rcases List.mem_cons.1 h with rfl | h
        · exact .inr rfl
        · exact (ih h).imp_left fun hmem ↦ List.mem_cons_of_mem _ (List.mem_cons_of_mem _ hmem)
  | case2 s hs =>
    rw [joinPairs] at h
    · exact .inl h
    · exact hs

theorem joinPairs_short (h : ∀ a b c t, s = a :: b :: c :: t → False) : joinPairs s = s := by
  rw [joinPairs]
  exact h

theorem length_joinPairs : (joinPairs s).length = s.length + (s.length - 1) / 2 := by
  induction s using joinPairs.induct with
  | case1 a b d s ih =>
    rw [joinPairs, List.length_cons, List.length_cons, List.length_cons, ih]
    simp only [List.length_cons]
    omega
  | case2 s hs =>
    have hshort : s.length < 3 := by
      rcases s with _ | ⟨a, _ | ⟨b, _ | ⟨c, s⟩⟩⟩
      · exact Nat.zero_lt_succ 2
      · exact Nat.succ_lt_succ (Nat.zero_lt_succ 1)
      · exact Nat.lt_succ_self 2
      · exact absurd rfl (hs a b c s)
    rw [joinPairs_short hs]
    omega

theorem macDigits_joinPairs (h : ∀ c ∈ s, isHex c = true) : macDigits (joinPairs s) = s := by
  have hkeep : ∀ c : Char, isHex c = true →
      decide (¬ (c = ':' ∨ c = '-' ∨ c = '.' ∨ isSpace c = true)) = true := by
    intro c hc
    obtain ⟨-, hspace, hcolon, hminus, hdot⟩ := isHex_spec hc
    simp [hspace, hcolon, hminus, hdot]
  have hlower : ∀ t : Text, (∀ c ∈ t, isHex c = true) → t.map Char.toLower = t := fun t ht ↦
    (List.map_congr_left fun c hc ↦ (isHex_spec (ht c hc)).1).trans (List.map_id t)
  have hfilter : (joinPairs s).filter (fun c ↦ decide (¬ (c = ':' ∨ c = '-' ∨ c = '.' ∨
      isSpace c = true))) = s := by
    induction s using joinPairs.induct with
    | case1 a b d s ih =>
      have hrest := ih fun c hc ↦ h c (List.mem_cons_of_mem _ (List.mem_cons_of_mem _ hc))
      have hfirst := hkeep a (h a List.mem_cons_self)
      have hsecond := hkeep b (h b (List.mem_cons_of_mem _ List.mem_cons_self))
      have hcolon : decide (¬ (':' = ':' ∨ ':' = '-' ∨ ':' = '.' ∨ isSpace ':' = true)) = false := by
        decide
      rw [joinPairs, List.filter_cons, List.filter_cons, List.filter_cons, hfirst, hsecond, hcolon,
        hrest]
      rfl
    | case2 s hs =>
      rw [joinPairs_short hs]
      exact List.filter_eq_self.2 fun c hc ↦ hkeep c (h c hc)
  rw [macDigits, hfilter, hlower s h]

theorem strip_joinPairs (h : ∀ c ∈ s, isHex c = true) : strip (joinPairs s) = joinPairs s := by
  refine strip_eq_self fun c hc ↦ ?_
  rcases mem_joinPairs hc with hmem | rfl
  · exact (isHex_spec (h c hmem)).2.1
  · decide

end Mac

section Moments

variable {dt utc : Datetime}

theorem isoformat_digits {y e a r m o d t h i n u s c : Char}
    (hdigits : Digits dt y e a r m o d t h i n u s c) :
    isoformat dt = [y, e, a, r, '-', m, o, '-', d, t, 'T', h, i, ':', n, u, ':', s, c] := by
  rw [isoformat, yearText, hdigits.year, hdigits.month, hdigits.day, ← Datetime.clock, hdigits.hour,
    hdigits.minute, hdigits.second]
  rfl

/-- The characters of a printed moment. -/
theorem isoformat_shape (dt : Datetime) : isDatetimePattern (isoformat dt) = true ∧
    strip (isoformat dt) = isoformat dt ∧ isoformat dt ≠ [] := by
  obtain ⟨y, e, a, r, m, o, d, t, h, i, n, u, s, c, hdigits⟩ := exists_digits dt
  have hall := fun k hk ↦ isDigit_of_ascii (List.all_eq_true.1 hdigits.digits k hk)
  rw [isoformat_digits hdigits]
  refine ⟨?_, ?_, List.cons_ne_nil _ _⟩
  · simp only [List.forall_mem_cons] at hall
    simp [isDatetimePattern, isDatePattern, hall]
  · refine strip_of_ends (fun k hk ↦ ?_) fun k hk ↦ ?_
    · cases hk
      exact not_space_of_digit (List.all_eq_true.1 hdigits.digits _ (by simp))
    · cases hk
      exact not_space_of_digit (List.all_eq_true.1 hdigits.digits _ (by simp))

theorem toUtc_ok {offset : ℤ} (h : toUtc dt offset = .ok utc) : 0 ≤ (dt.1 : ℤ) - offset ∧
    utc.1 = ((dt.1 : ℤ) - offset).toNat / 1000000 * 1000000 := by
  rw [toUtc] at h
  split at h
  · next found hfound =>
    cases h
    split at hfound
    · next hpos => exact ⟨hpos, of?_eq_some.1 hfound⟩
    · cases hfound
  · cases h

theorem toUtc_zero (h : utc.1 % 1000000 = 0) : toUtc utc 0 = .ok utc := by
  have hfloor : ((utc.1 : ℤ) - 0).toNat / 1000000 * 1000000 = utc.1 := by omega
  have hpos : 0 ≤ (utc.1 : ℤ) - 0 := by omega
  rw [toUtc]
  simp only [if_pos hpos, hfloor, of?_of_lt utc.2]

theorem toMoment_whole (h : toMoment L v = .ok utc) : utc.1 % 1000000 = 0 := by
  have hfloor : ∀ {dt : Datetime} {offset : ℤ}, toUtc dt offset = .ok utc → utc.1 % 1000000 = 0 := by
    intro dt offset hutc
    rw [(toUtc_ok hutc).2]
    exact Nat.mul_mod_left _ _
  cases v with
  | str s =>
    rw [toMoment] at h
    split at h
    · cases h
    · obtain ⟨-, h⟩ := require_bind_eq_ok.1 h
      exact hfloor h
    · exact hfloor h
  | _ => cases h

/-- A stored moment is read as a local time. -/
theorem toMoment_isoformat (h : utc.1 % 1000000 = 0) :
    toMoment L (.str (isoformat utc)) = toUtc utc (L.utcoffset utc * 1000000) := by
  obtain ⟨hpattern, hstrip, -⟩ := isoformat_shape utc
  rw [toMoment, hstrip, L.fromisoformat_isoformat utc h]
  simp only [hpattern, require, if_true]
  rfl

theorem isoformat_inj (L : Lib) (hdt : dt.1 % 1000000 = 0) (hutc : utc.1 % 1000000 = 0)
    (h : isoformat dt = isoformat utc) : dt = utc := by
  have hread := L.fromisoformat_isoformat dt hdt
  rw [h, L.fromisoformat_isoformat utc hutc] at hread
  cases hread
  rfl

theorem toMoment_again (h : utc.1 % 1000000 = 0) :
    (∃ dt, toMoment L (.str (isoformat utc)) = .ok dt ∧ isoformat dt = isoformat utc) ↔
      L.utcoffset utc = 0 := by
  constructor
  · rintro ⟨dt, hdt, heq⟩
    obtain rfl := isoformat_inj L (toMoment_whole hdt) h heq
    rw [toMoment_isoformat h] at hdt
    have hutc := toUtc_ok hdt
    omega
  · intro hzero
    refine ⟨utc, ?_, rfl⟩
    rw [toMoment_isoformat h, hzero, Int.zero_mul, toUtc_zero h]

end Moments

section Main

theorem isEmpty_of_strip {s : Text} (hstrip : strip s = s) (hne : s ≠ []) :
    (Raw.str s).isEmpty = false := by
  rw [Raw.isEmpty, hstrip]
  exact List.isEmpty_eq_false_iff.2 hne

/-- What is checked of the form of a text, and what is stored. -/
def TextForm (L : Lib) (type : AttributeType) (t : Text) (r : Raw) : Prop :=
  match type with
  | .email => isEmail t = true ∧ r = .str t
  | .url => isHttpUrl L t = true ∧ r = .str t
  | .ip => ∃ text, canonicalIp L t = some text ∧ r = .str text
  | .mac => ((macDigits t).length = 12 ∧ (macDigits t).all isHex = true) ∧
      r = .str (joinPairs (macDigits t))
  | _ => r = .str t

/-- The text that is checked. -/
def givenText (spec : AttributeSpec) (s : Text) : Text := if isFreeText spec.type then s else strip s

theorem coerceText_iff {s : Text} : coerceText L spec (.str s) = .ok r ↔
    ¬ (isFreeText spec.type = true ∧ (strip (givenText spec s)).isEmpty = true) ∧
      ((givenText spec s).length : ℤ) ≤ limit spec ∧
        TextForm L spec.type (givenText spec s) r := by
  rw [coerceText, require_bind_eq_ok, require_bind_eq_ok]
  refine and_congr_right fun _ ↦ and_congr_right fun _ ↦ ?_
  have hok : ∀ x : Raw, (Except.ok x : Except Bad Raw) = .ok r ↔ r = x := fun x ↦
    ⟨fun h ↦ by cases h; rfl, fun h ↦ by rw [h]⟩
  unfold TextForm givenText
  cases spec.type with
  | email =>
    rw [require_bind_eq_ok]
    exact and_congr_right fun _ ↦ hok _
  | url =>
    rw [require_bind_eq_ok]
    exact and_congr_right fun _ ↦ hok _
  | mac =>
    rw [require_bind_eq_ok]
    exact and_congr_right fun _ ↦ hok _
  | ip =>
    dsimp only
    constructor
    · intro h
      split at h
      · next text htext =>
        cases h
        exact ⟨text, htext, rfl⟩
      · cases h
    · rintro ⟨text, htext, rfl⟩
      rw [htext]
      rfl
  | _ => exact hok _

theorem givenText_givenText (s : Text) : givenText spec (givenText spec s) = givenText spec s := by
  rw [givenText, givenText]
  split
  · rfl
  · exact strip_strip s

/-- Texts that are stored as they are given. -/
theorem stored_same {s : Text} (hv : (Raw.str s).isEmpty = false)
    (h : coerceText L spec (.str s) = .ok (.str (givenText spec s))) :
    (Raw.str (givenText spec s)).isEmpty = false ∧
      coerceText L spec (.str (givenText spec s)) = .ok (.str (givenText spec s)) := by
  constructor
  · rw [givenText]
    split
    · exact hv
    · rwa [Raw.isEmpty, strip_strip]
  · rw [coerceText_iff] at h ⊢
    rwa [givenText_givenText]

theorem stored_ip {s text : Text} (htype : spec.type = .ip)
    (htext : canonicalIp L (strip s) = some text) : (Raw.str text).isEmpty = false ∧
      (coerceText L spec (.str text) = .ok (.str text) ↔ (text.length : ℤ) ≤ limit spec) := by
  have hlaws : canonicalIp L text = some text ∧ strip text = text ∧ text ≠ [] := by
    rw [canonicalIp] at htext
    split at htext
    · next hslash =>
      obtain ⟨hfix, hslash', hstrip⟩ := L.interface_text (strip_strip s) hslash htext
      refine ⟨?_, hstrip, fun hnil ↦ ?_⟩
      · rw [canonicalIp, if_pos hslash', hfix]
      · rw [hnil] at hslash'
        cases hslash'
    · next hslash =>
      obtain ⟨hfix, hslash', hstrip, hne⟩ := L.address_text (strip_strip s) hslash htext
      refine ⟨?_, hstrip, hne⟩
      rw [canonicalIp, if_neg hslash', hfix]
  obtain ⟨hfix, hstrip, hne⟩ := hlaws
  have hgiven : givenText spec text = text := by
    rw [givenText, htype]
    exact hstrip
  refine ⟨isEmpty_of_strip hstrip hne, ?_⟩
  rw [coerceText_iff, hgiven, htype]
  constructor
  · intro h
    exact h.2.1
  · intro hlength
    exact ⟨fun h ↦ Bool.false_ne_true h.1, hlength, text, hfix, rfl⟩

theorem stored_mac {hexed : Text} (htype : spec.type = .mac) (hlength : hexed.length = 12)
    (hhex : hexed.all isHex = true) : (Raw.str (joinPairs hexed)).isEmpty = false ∧
      (coerceText L spec (.str (joinPairs hexed)) = .ok (.str (joinPairs hexed)) ↔
        17 ≤ limit spec) := by
  have hchars : ∀ c ∈ hexed, isHex c = true := List.all_eq_true.1 hhex
  have hlength' : (joinPairs hexed).length = 17 := by rw [length_joinPairs, hlength]
  have hstrip := strip_joinPairs hchars
  have hgiven : givenText spec (joinPairs hexed) = joinPairs hexed := by
    rw [givenText, htype]
    exact hstrip
  refine ⟨isEmpty_of_strip hstrip fun hnil ↦ ?_, ?_⟩
  · rw [hnil] at hlength'
    cases hlength'
  · rw [coerceText_iff, hgiven, htype, hlength']
    constructor
    · intro h
      exact h.2.1
    · intro hle
      refine ⟨fun h ↦ Bool.false_ne_true h.1, hle, ?_, ?_⟩
      · rw [macDigits_joinPairs hchars]
        exact ⟨hlength, hhex⟩
      · rw [macDigits_joinPairs hchars]

theorem stored_text (hv : v.isEmpty = false) (h : coerceText L spec v = .ok r) :
    r.isEmpty = false ∧ ((spec.type ≠ .ip ∧ spec.type ≠ .mac ∧ coerceText L spec r = .ok r) ∨
      (spec.type = .mac ∧ (coerceText L spec r = .ok r ↔ 17 ≤ limit spec)) ∨
      (spec.type = .ip ∧ (coerceText L spec r = .ok r ↔ ∀ s, v = .str s →
        ∀ text, canonicalIp L (strip s) = some text → (text.length : ℤ) ≤ limit spec))) := by
  cases v with
  | str s =>
    have hform := (coerceText_iff.1 h).2.2
    by_cases hip : spec.type = .ip
    · have hgiven : givenText spec s = strip s := by rw [givenText, hip]; rfl
      rw [hip, hgiven] at hform
      obtain ⟨text, htext, rfl⟩ := hform
      obtain ⟨hpresent, hagain⟩ := stored_ip hip htext
      refine ⟨hpresent, .inr (.inr ⟨hip, hagain.trans ⟨fun hle s' hs text' htext' ↦ ?_, fun hall ↦
        hall s rfl text htext⟩⟩)⟩
      cases hs
      rw [htext] at htext'
      cases htext'
      exact hle
    · by_cases hmac : spec.type = .mac
      · rw [hmac] at hform
        obtain ⟨⟨hlength, hhex⟩, rfl⟩ := hform
        obtain ⟨hpresent, hagain⟩ := stored_mac hmac hlength hhex
        exact ⟨hpresent, .inr (.inl ⟨hmac, hagain⟩)⟩
      · have hr : r = .str (givenText spec s) := by
          unfold TextForm at hform
          cases htype : spec.type with
          | ip => exact absurd htype hip
          | mac => exact absurd htype hmac
          | email =>
            rw [htype] at hform
            exact hform.2
          | url =>
            rw [htype] at hform
            exact hform.2
          | _ =>
            rw [htype] at hform
            exact hform
        subst hr
        obtain ⟨hpresent, hagain⟩ := stored_same hv h
        exact ⟨hpresent, .inl ⟨hip, hmac, hagain⟩⟩
  | _ => cases h

theorem checkRange_congr {d d' : Decimal} (h : d'.value = d.value) :
    checkRange spec d' = checkRange spec d := by
  rw [checkRange, checkRange, h]

theorem stored_decimal {d : Decimal} (hcoerce : ∀ v, coerce L spec v = (do
      let d ← toDecimal v
      checkRange spec d
      return .str d.text)) (hd : toDecimal v = .ok d) (hrange : checkRange spec d = .ok ()) :
    coerce L spec (.str d.text) = .ok (.str d.text) ↔
      ∀ d, toDecimal v = .ok d → d.coeff = 0 ∨ d.adjusted < 28 := by
  have hall : (∀ d, toDecimal v = .ok d → d.coeff = 0 ∨ d.adjusted < 28) ↔
      d.coeff = 0 ∨ d.adjusted < 28 := by
    refine ⟨fun h ↦ h d hd, fun h d' hd' ↦ ?_⟩
    rw [hd] at hd'
    cases hd'
    exact h
  rw [hall, hcoerce]
  rcases toDecimal_text (toDecimal_spec hd) with ⟨d', hd', hvalue, htext, hsmall⟩ | ⟨⟨bad, hbad⟩, hlarge⟩
  · refine iff_of_true ?_ hsmall
    rw [hd', ok_bind, checkRange_congr hvalue, hrange, ok_bind, htext]
    rfl
  · refine iff_of_false (fun h ↦ ?_) hlarge
    rw [hbad] at h
    cases h

theorem stored_int {n : ℤ} (hv : toInt v = .ok n) (hcoerce : ∀ v, coerce L spec v = (do
      let n ← toInt v
      return .int n)) : coerce L spec (.int n) = .ok (.int n) := by
  rw [hcoerce, toInt_spec hv]
  rfl

theorem stored_integer {n : ℤ} (hv : toInt v = .ok n) (hrange : checkRange spec (.ofInt n) = .ok ())
    (htype : spec.type = .integer) : coerce L spec (.int n) = .ok (.int n) := by
  rw [coerce, htype]
  dsimp only
  rw [toInt_spec hv, ok_bind, hrange]
  rfl

theorem stored_date (h : coerceDate v = .ok r) : r.isEmpty = false ∧ coerceDate r = .ok r := by
  cases v with
  | str s =>
    obtain ⟨hpattern, h⟩ := require_bind_eq_ok.1 h
    obtain ⟨hdate, h⟩ := require_bind_eq_ok.1 h
    cases h
    refine ⟨isEmpty_of_strip (strip_strip s) fun hnil ↦ ?_, ?_⟩
    · rw [hnil] at hpattern
      cases hpattern
    · refine require_bind_eq_ok.2 ⟨?_, require_bind_eq_ok.2 ⟨?_, ?_⟩⟩
      · rwa [strip_strip]
      · rwa [strip_strip]
      · rw [strip_strip]
        rfl
  | _ => cases h

theorem stored_moment (htype : spec.type = .datetime) (h : coerce L spec v = .ok r) :
    Stored L spec v r := by
  have hcoerce : ∀ v, coerce L spec v = (do
      let utc ← toMoment L v
      return .str (isoformat utc)) := fun v ↦ by rw [coerce, htype]
  rw [hcoerce] at h
  obtain ⟨utc, hutc, h⟩ := bind_eq_ok.1 h
  cases h
  have hwhole := toMoment_whole hutc
  obtain ⟨-, hstrip, hne⟩ := isoformat_shape utc
  refine ⟨isEmpty_of_strip hstrip hne, ?_⟩
  have hsettled : SettledValue L spec v ↔ L.utcoffset utc = 0 := by
    rw [SettledValue, htype]
    refine ⟨fun hall ↦ hall utc hutc, fun hzero utc' hutc' ↦ ?_⟩
    rw [hutc] at hutc'
    cases hutc'
    exact hzero
  rw [hsettled, ← toMoment_again hwhole, hcoerce, bind_eq_ok]
  constructor
  · rintro ⟨dt, hdt, heq⟩
    exact ⟨dt, hdt, Raw.str.inj (Except.ok.inj heq)⟩
  · rintro ⟨dt, hdt, heq⟩
    exact ⟨dt, hdt, congrArg (fun s ↦ Except.ok (Raw.str s)) heq⟩

/-- A stored value is not empty, and it is stored again as it is when the value was settled. -/
theorem stored_coerce (hv : v.isEmpty = false) (h : coerce L spec v = .ok r) :
    Stored L spec v r := by
  have hid : (∀ v, coerce L spec v = (do
      let n ← toInt v
      return .int n)) → SettledValue L spec v → Stored L spec v r := by
    intro hcoerce hsettled
    rw [hcoerce] at h
    obtain ⟨n, hn, h⟩ := bind_eq_ok.1 h
    cases h
    exact ⟨rfl, iff_of_true (stored_int hn hcoerce) hsettled⟩
  have hdecimal : (∀ v, coerce L spec v = (do
      let d ← toDecimal v
      checkRange spec d
      return .str d.text)) → (SettledValue L spec v ↔
        ∀ d, toDecimal v = .ok d → d.coeff = 0 ∨ d.adjusted < 28) → Stored L spec v r := by
    intro hcoerce hsettled
    rw [hcoerce] at h
    obtain ⟨d, hd, h⟩ := bind_eq_ok.1 h
    obtain ⟨_, hrange, h⟩ := bind_eq_ok.1 h
    cases h
    refine ⟨isEmpty_of_strip (text_spec d).2 (text_spec d).1, ?_⟩
    rw [hsettled]
    exact stored_decimal hcoerce hd hrange
  have htext : (∀ v, coerce L spec v = coerceText L spec v) →
      (spec.type ≠ .ip → spec.type ≠ .mac → SettledValue L spec v) → Stored L spec v r := by
    intro hcoerce hsettled
    rw [hcoerce] at h
    obtain ⟨hpresent, hagain⟩ := stored_text hv h
    refine ⟨hpresent, ?_⟩
    rw [hcoerce]
    rcases hagain with ⟨hip, hmac, hagain⟩ | ⟨hmac, hagain⟩ | ⟨hip, hagain⟩
    · exact iff_of_true hagain (hsettled hip hmac)
    · rw [SettledValue, hmac]
      exact hagain
    · rw [SettledValue, hip]
      exact hagain
  cases htype : spec.type with
  | group =>
    rw [coerce, htype] at h
    cases h
  | text | textarea | url | email | customerUser | customerCompany =>
    refine htext (fun v ↦ by rw [coerce, htype]) fun _ _ ↦ ?_
    rw [SettledValue, htype]
    trivial
  | ip => exact htext (fun v ↦ by rw [coerce, htype]) fun hip _ ↦ absurd htype hip
  | mac => exact htext (fun v ↦ by rw [coerce, htype]) fun _ hmac ↦ absurd htype hmac
  | decimal | money =>
    refine hdecimal (fun v ↦ by rw [coerce, htype]) ?_
    rw [SettledValue, htype]
  | integer =>
    rw [coerce, htype] at h
    obtain ⟨n, hn, h⟩ := bind_eq_ok.1 h
    obtain ⟨_, hrange, h⟩ := bind_eq_ok.1 h
    cases h
    refine ⟨rfl, iff_of_true (stored_integer hn hrange htype) ?_⟩
    rw [SettledValue, htype]
    trivial
  | date =>
    rw [coerce, htype] at h
    obtain ⟨hpresent, hagain⟩ := stored_date h
    refine ⟨hpresent, iff_of_true ?_ ?_⟩
    · rw [coerce, htype]
      exact hagain
    · rw [SettledValue, htype]
      trivial
  | datetime => exact stored_moment htype h
  | catalog | ciRef | agent | service | sla | queue | priority | ticketType | state | attachment =>
    refine hid (fun v ↦ by rw [coerce, htype]) ?_
    rw [SettledValue, htype]
    trivial

end Main

end Tiqora.Cmdb.Values
