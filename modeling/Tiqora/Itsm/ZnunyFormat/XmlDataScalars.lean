import Tiqora.Itsm.ZnunyFormat.XmlData

namespace Tiqora.Itsm.ZnunyFormat

open Foundation Civil Calendar Cmdb.Definition Cmdb.Values

variable {print : Raw → Text} {L : Lib} {resolver : RefResolver} {spec : AttributeSpec}
  {v r : Raw} {s path : Text} {n : ℤ}

/-- A date of the stored form is one that `strptime` takes. -/
theorem isStrptime_of_isDate (hpattern : isDatePattern s = true) (h : isDate s = true) :
    isStrptime s = true := by
  unfold isDatePattern at hpattern
  split at hpattern
  · next y e a r m o d t =>
    simp only [List.all_cons, List.all_nil, Bool.and_true, Bool.and_eq_true] at hpattern
    obtain ⟨hy, he, ha, hr, -, -, hd, ht⟩ := hpattern
    rw [isDate, isStrptimeDate] at h
    simp only [Bool.and_eq_true, Bool.or_eq_true, decide_eq_true_eq] at h
    obtain ⟨⟨⟨⟨⟨⟨⟨⟨hm, ho⟩, hd⟩, ht'⟩, hyear⟩, hmonth⟩, hmonth'⟩, hday⟩, hday'⟩ := h
    have hminus : ∀ c : Char, c.isDigit = true → decide (c ≠ '-') = true := by
      intro c hc
      refine decide_eq_true fun heq ↦ ?_
      rw [heq] at hc
      cases hc
    have hblank : d ≠ ' ' := fun heq ↦ by
      rw [heq] at hd
      cases hd
    have htake : [m, o, '-', d, t].takeWhile (· ≠ '-') = [m, o] := by
      simp only [List.takeWhile_cons, hminus m hm, hminus o ho, if_true]
      rfl
    have hdrop : [m, o, '-', d, t].dropWhile (· ≠ '-') = ['-', d, t] := by
      simp only [List.dropWhile_cons, hminus m hm, hminus o ho, if_true]
      rfl
    have hmonths : strptimeMonth [m, o] = some (readDigits [m, o]) :=
      if_pos ⟨hm, ho, hmonth, hmonth'⟩
    have hshort : readDigits [d, t] ≤ 31 := hday'.trans (monthLength_le _)
    have hdays : strptimeDay [d, t] = some (readDigits [d, t]) := by
      have hform : t.isDigit = true ∨ (d = '1' ∨ d = '2') ∧ isDigit t = true := by
        rcases ht' with (ht' | ht') | ht'
        · exact .inl ht'
        · exact .inr ⟨.inl ht', ht⟩
        · exact .inr ⟨.inr ht', ht⟩
      rw [strptimeDay, if_neg hblank, if_pos ⟨hd, hform, hday, hshort⟩]
    rw [isStrptime, htake, hdrop]
    simp only [hmonths, hdays]
    simp [hy, he, ha, hr, hyear, hday']
  · cases hpattern

theorem strip_intText : strip (intText n) = intText n := by
  refine strip_eq_self fun c hc ↦ ?_
  rcases intText_chars n c hc with rfl | hdigit
  · decide
  · exact not_space_of_digit hdigit

theorem isShortInt_intText (h : n.natAbs < 10 ^ 18) : isShortInt (intText n) = true := by
  have hdigits : (Nat.toDigits 10 n.natAbs).all isDigit = true :=
    List.all_eq_true.2 fun c hc ↦ isDigit_toDigits _ c hc
  have hlength : (Nat.toDigits 10 n.natAbs).length ≤ 18 := (digitCount_le_iff (by decide)).2 h
  rw [isShortInt, isIntPattern, readSign_intText]
  simp [hdigits, hlength, Nat.toDigits_ne_nil]

/-- A stored moment that is written with a blank is read as it was. -/
theorem momentText_blankT (dt : Datetime) : strip (blankT (isoformat dt)) = blankT (isoformat dt) ∧
    momentText (blankT (isoformat dt)) = some (isoformat dt) ∧ blankT (isoformat dt) ≠ [] := by
  obtain ⟨y, e, a, r, m, o, d, t, h, i, n, u, s, c, hdigits⟩ := exists_digits dt
  have hall := List.all_eq_true.1 hdigits.digits
  have hnotT : ∀ k ∈ [y, e, a, r, m, o, d, t, h, i, n, u, s, c], k ≠ 'T' := by
    rintro k hk rfl
    cases hall _ hk
  have hblank : blankT (isoformat dt) = [y, e, a, r, '-', m, o, '-', d, t, ' ', h, i, ':', n, u,
      ':', s, c] := by
    rw [isoformat_digits hdigits]
    simp only [List.forall_mem_cons] at hnotT
    have hminus : ('-' : Char) ≠ 'T' := by decide
    simp only [blankT, hnotT, hminus, if_false, if_true]
  rw [hblank, isoformat_digits hdigits]
  refine ⟨strip_of_ends (fun k hk ↦ ?_) fun k hk ↦ ?_, ?_, List.cons_ne_nil _ _⟩
  · cases hk
    exact not_space_of_digit (hall _ (by simp))
  · cases hk
    exact not_space_of_digit (hall _ (by simp))
  · have hdigit := fun k hk ↦ isDigit_of_ascii (hall k hk)
    simp only [List.forall_mem_cons] at hdigit
    simp [momentText, isDatetimePattern, isDatePattern, hdigit]

/-- The types whose values are texts, and that are read as they are. -/
def isText (kind : AttributeType) : Bool :=
  match kind with
  | .text | .textarea | .url | .email | .ip | .mac | .customerUser | .customerCompany | .decimal
  | .money => true
  | _ => false

theorem coerce_text (htype : isText spec.type = true) (h : coerce L spec v = .ok r) :
    ∃ s, r = .str s := by
  have htext : coerceText L spec v = .ok r → ∃ s, r = .str s := by
    intro h
    cases v with
    | str s =>
      have hform := (coerceText_iff.1 h).2.2
      unfold TextForm at hform
      split at hform
      · exact ⟨_, hform.2⟩
      · exact ⟨_, hform.2⟩
      · obtain ⟨text, -, rfl⟩ := hform
        exact ⟨text, rfl⟩
      · exact ⟨_, hform.2⟩
      · exact ⟨_, hform⟩
    | _ => cases h
  have hdecimal : (do
      let d ← toDecimal v
      checkRange spec d
      return Raw.str d.text) = .ok r → ∃ s, r = .str s := by
    intro h
    obtain ⟨d, -, h⟩ := bind_eq_ok.1 h
    obtain ⟨_, -, h⟩ := bind_eq_ok.1 h
    cases h
    exact ⟨_, rfl⟩
  rw [coerce] at h
  cases hkind : spec.type with
  | text | textarea | url | email | ip | mac | customerUser | customerCompany =>
    rw [hkind] at h
    exact htext h
  | decimal | money =>
    rw [hkind] at h
    exact hdecimal h
  | _ =>
    rw [hkind] at htype
    cases htype

theorem coerce_int (htype : spec.type = .integer ∨ spec.type.isIntId = true)
    (h : coerce L spec v = .ok r) : ∃ n, r = .int n := by
  have hid : (do
      let n ← toInt v
      return Raw.int n) = .ok r → ∃ n, r = .int n := by
    intro h
    obtain ⟨n, -, h⟩ := bind_eq_ok.1 h
    cases h
    exact ⟨n, rfl⟩
  rw [coerce] at h
  cases hkind : spec.type with
  | integer =>
    rw [hkind] at h
    obtain ⟨n, -, h⟩ := bind_eq_ok.1 h
    obtain ⟨_, -, h⟩ := bind_eq_ok.1 h
    cases h
    exact ⟨n, rfl⟩
  | catalog | ciRef | agent | service | sla | queue | priority | ticketType | state | attachment =>
    rw [hkind] at h
    exact hid h
  | _ =>
    rw [hkind] at htype
    rcases htype with htype | htype <;> cases htype

/-- A stored integer, and a stored id that is not resolved, has at most 18 digits. -/
def Short (kind : AttributeType) (value : Raw) : Prop :=
  kind = .integer ∨ isPlainId kind = true → ∀ n, value = .int n → n.natAbs < 10 ^ 18

/-- A stored value is read back from its `Content`. -/
theorem convertValue_toContent (hid : resolver.Identity) (hkind : spec.type ≠ .attachment)
    (hv : v.isEmpty = false) (h : coerce L spec v = .ok r) (hshort : Short spec.type r) :
    convertValue L resolver spec.type (toContent print spec.type r) path = (r, []) := by
  have hpresent := (stored_coerce hv h).present
  have hint : isPlainId spec.type = true ∨ spec.type = .integer → ∃ n, r = .int n ∧
      n.natAbs < 10 ^ 18 := by
    intro htype
    have hid' : spec.type = .integer ∨ spec.type.isIntId = true := by
      rcases htype with htype | htype
      · unfold isPlainId at htype
        split at htype
        · cases htype
        · cases htype
        · cases htype
        · exact .inr htype
      · exact .inl htype
    obtain ⟨n, rfl⟩ := coerce_int hid' h
    exact ⟨n, rfl, hshort htype.symm n rfl⟩
  have htext : isText spec.type = true → ∃ s, r = .str s ∧ s ≠ [] := by
    intro htype
    obtain ⟨s, rfl⟩ := coerce_text htype h
    refine ⟨s, rfl, ?_⟩
    rintro rfl
    cases hpresent
  cases htype : spec.type with
  | attachment => exact absurd htype hkind
  | group =>
    rw [coerce, htype] at h
    cases h
  | text | textarea | url | email | ip | mac | customerUser | customerCompany | decimal | money =>
    obtain ⟨s, rfl, hs⟩ := htext (by rw [htype]; rfl)
    simp [toContent, convertValue, isPlainId, AttributeType.isIntId, hs]
  | catalog | ciRef =>
    obtain ⟨n, rfl⟩ := coerce_int (.inr (by rw [htype]; rfl)) h
    simp [toContent, str, convertValue, intText_ne_nil, hid.ci, hid.catalog, resolved]
  | integer | agent | service | sla | queue | priority | ticketType | state =>
    obtain ⟨n, rfl, hn⟩ := hint (by rw [htype]; decide)
    simp [toContent, str, convertValue, intText_ne_nil, isPlainId, AttributeType.isIntId,
      strip_intText, isShortInt_intText hn, signedValue_intText]
  | date =>
    rw [coerce, htype] at h
    cases v with
    | str s =>
      obtain ⟨hpattern, h⟩ := require_bind_eq_ok.1 h
      obtain ⟨hdate, h⟩ := require_bind_eq_ok.1 h
      cases h
      have hne : strip s ≠ [] := fun hnil ↦ by
        rw [hnil] at hpattern
        cases hpattern
      simp [toContent, convertValue, isPlainId, AttributeType.isIntId, hne, strip_strip,
        isStrptime_of_isDate hpattern hdate]
    | _ => cases h
  | datetime =>
    rw [coerce, htype] at h
    obtain ⟨utc, hutc, h⟩ := bind_eq_ok.1 h
    cases h
    obtain ⟨hstrip, hmoment, hne⟩ := momentText_blankT utc
    have hread := L.fromisoformat_isoformat utc (toMoment_whole hutc)
    simp [toContent, convertValue, isPlainId, AttributeType.isIntId, hne, hstrip, hmoment, hread]

theorem convertValue_null :
    convertValue L resolver spec.type (toContent print spec.type .null) path =
    (.null, []) := if_pos (.inr rfl)

end Tiqora.Itsm.ZnunyFormat
