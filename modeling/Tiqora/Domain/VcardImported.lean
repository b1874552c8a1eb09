import Tiqora.Domain.VcardRoundTrip

namespace Tiqora.Domain.Vcard

open Foundation

variable {lib : Lib} {c : Core}

section Blocks

theorem writes_name {name value : Text} (h : IsName name) (hvalue : Unbroken value) :
    Writes lib (entry name value) name value :=
  ⟨name, head_name h, rfl, hvalue⟩

theorem writes_typed (name kind : Text) {value : Text} (h : IsName name) (hkind : IsName kind)
    (hvalue : Unbroken value) :
    Writes lib (entry (name ++ ";TYPE=".toList ++ kind) value) name value :=
  ⟨_, head_typed h hkind, rfl, hvalue⟩

theorem reads_other (name : Text) {line value : Text} (hname : name ∈ otherNames)
    (h : Writes lib line name value) : Reads lib [line] c c :=
  .others fun _ hl ↦ List.mem_singleton.1 hl ▸ ⟨name, hname, value, h⟩

theorem unbroken_nameValue (cu : CustomerUser) : Unbroken (nameValue cu) :=
  (unbroken_esc _).append <| .cons (by decide) <| (unbroken_esc _).append <|
    .cons (by decide) <| .cons (by decide) <| (unbroken_esc _).append <|
      .cons (by decide) fun _ hc ↦ absurd hc List.not_mem_nil

theorem reads_nameLine (cu : CustomerUser) :
    Reads lib [entry "N".toList (nameValue cu)] c
      { c with firstName := orNone (lf (trim cu.firstName)),
               lastName := orNone (lf (trim cu.lastName)) } := by
  refine .single (writes_name (by decide) (unbroken_nameValue cu)) (by decide)
    (by decide) ?_
  rintro card prop rfl hname hvalue
  have hparts : (splitEscaped (nameValue cu)).map unescape ++ [[], []] =
      lf (trim cu.lastName) :: lf (trim cu.firstName) ::
        ([unescape [], unescape (esc (some (trim cu.title))), unescape []] ++ [[], []]) := by
    rw [splitEscaped_nameValue, List.map_cons, List.map_cons, unescape_esc, unescape_esc, trim_trim,
      trim_trim]
    rfl
  rw [ParsedVCard.apply, hname, hvalue, if_neg (by decide), if_neg (by decide), if_pos rfl,
    ParsedVCard.setName, hparts]
  rfl

theorem reads_orgLine (companyName : Option Text) (hc : c.org = none) :
    Reads lib (orgLine companyName) c { c with org := orNone (lf (trim companyName)) } := by
  rw [orgLine]
  split
  · next h =>
    have hsame : { c with org := orNone (lf []) } = c := by
      rw [show orNone (lf []) = none from rfl, ← hc]
    rw [h, hsame]
    exact .nil
  · refine .single (writes_name (by decide) (unbroken_esc companyName))
      (by decide) (by decide) ?_
    rintro card prop rfl hname hvalue
    rw [ParsedVCard.apply, hname, hvalue, if_neg (by decide), if_neg (by decide),
      if_neg (by decide), if_neg (by decide), if_neg (by decide), if_pos rfl, ParsedVCard.setOrg,
      splitEscaped_esc, List.headD_cons, unescape_esc]
    rfl

/-- An e-mail that is empty, or has an at sign and does not start with `mailto:`. -/
def Mailable (lib : Lib) (email : Option Text) : Prop :=
  trim email = [] ∨
    '@' ∈ trim email ∧ ¬ ParsedVCard.mailto <+: lib.lower (lf (trim email))

theorem reads_emailLine (cu : CustomerUser) (hc : c.emails = []) (hemail : Mailable lib cu.email) :
    Reads lib (emailLine cu) c { c with emails := (orNone (lf (trim cu.email))).toList } := by
  rw [emailLine]
  rcases hemail with hnil | ⟨hat, hmailto⟩
  · have hsame : { c with emails := (orNone (lf [])).toList } = c := by
      obtain ⟨_, _, _, emails⟩ := c
      cases hc
      rfl
    rw [if_pos hnil, hnil, hsame]
    exact .nil
  · have hat' := mem_lf hat (by decide) (by decide)
    have hne : lf (trim cu.email) ≠ [] := List.ne_nil_of_mem hat'
    rw [if_neg (List.ne_nil_of_mem hat)]
    refine .single (writes_typed "EMAIL".toList "INTERNET".toList (by decide)
      (by decide) (unbroken_esc cu.email)) (by decide) (by decide +kernel) ?_
    rintro card prop rfl hname hvalue
    have hemails : card.emails = [] := hc
    rw [ParsedVCard.apply, hname, hvalue, if_neg (by decide), if_neg (by decide),
      if_neg (by decide), if_pos rfl, ParsedVCard.addEmail, unescape_esc, if_neg hmailto, hemails,
      orNone, if_neg hne]
    rw [if_pos ⟨hat', List.not_mem_nil⟩]
    rfl

theorem isName_kind (kind : Kind) : IsName kind.text := by
  cases kind <;> decide

theorem reads_telLines (cu : CustomerUser) (region : Text) :
    Reads lib (telLines lib cu region) c c := by
  refine .others fun line hline ↦ ?_
  obtain ⟨p, -, hp⟩ := List.mem_filterMap.1 hline
  obtain ⟨t, -, rfl⟩ := Option.map_eq_some_iff.1 hp
  exact ⟨"TEL".toList, by decide, _, writes_typed "TEL".toList _ (by decide)
    (isName_kind t.1) (unbroken_esc _)⟩

theorem reads_addressLine (cu : CustomerUser) : Reads lib (addressLine cu) c c := by
  rw [addressLine]
  split
  · refine reads_other "ADR".toList (by decide) (writes_typed "ADR".toList
      "WORK".toList (by decide) (by decide) ?_)
    refine .append (.append (.of_all (by decide)) (unbroken_esc _)) ?_
    exact .cons (by decide) <| (unbroken_esc _).append <| .cons (by decide) <|
      .cons (by decide) <| (unbroken_esc _).append <| .cons (by decide) (unbroken_esc _)
  · exact .nil

theorem unbroken_digits {s : Text} (h : ∀ d ∈ s, isDigit d = true) : Unbroken s := by
  intro d hd
  constructor <;> rintro rfl <;> exact absurd (h _ hd) (by decide)

theorem reads_revLine (cu : CustomerUser) : Reads lib (revLine lib cu) c c := by
  rw [revLine]
  split
  · exact .nil
  · next t _ =>
    refine reads_other "REV".toList (by decide) (writes_name (by decide) ?_)
    have hletter : ∀ d : Char, d ≠ '\r' ∧ d ≠ '\n' → Unbroken [d] := fun d hd ↦
      .cons hd fun _ he ↦ absurd he List.not_mem_nil
    have hfill : ∀ n, Unbroken (zfill 2 n) := fun n ↦ unbroken_digits (isDigit_zfill 2 n)
    exact (((((((unbroken_digits (lib.year_digits t.year)).append (hfill t.month)).append
      (hfill t.day)).append (hletter 'T' (by decide))).append (hfill t.hour)).append
        (hfill t.minute)).append (hfill t.second)).append (hletter 'Z' (by decide))

theorem unbroken_uid (login : Text) :
    Unbroken ("tiqora-customer-".toList ++ esc (some login)) :=
  .append (.of_all (by decide)) (unbroken_esc _)

end Blocks

section Cards

variable (lib) (cu : CustomerUser) (companyName : Option Text) (region : Text)

/-- The lines between the marks of a card. -/
def bodyLines : List Text :=
  [entry "VERSION".toList "3.0".toList, entry "N".toList (nameValue cu),
      entry "FN".toList (esc (some (fullName cu)))] ++
    orgLine companyName ++ emailLine cu ++ telLines lib cu region ++ addressLine cu ++
    [entry "UID".toList ("tiqora-customer-".toList ++ esc (some cu.login))] ++ revLine lib cu

theorem vcardLines_eq : vcardLines lib cu companyName region =
    entry "BEGIN".toList "VCARD".toList :: (bodyLines lib cu companyName region ++
      [entry "END".toList "VCARD".toList]) :=
  rfl

/-- The values that were exported, trimmed and with line feeds for line breaks. -/
def kept : Core where
  firstName := orNone (lf (trim cu.firstName))
  lastName := orNone (lf (trim cu.lastName))
  org := orNone (lf (trim companyName))
  emails := (orNone (lf (trim cu.email))).toList

variable {lib} in
theorem reads_bodyLines (hemail : Mailable lib cu.email) :
    Reads lib (bodyLines lib cu companyName region) ⟨none, none, none,
      []⟩ (kept cu companyName) := by
  have hversion : Unbroken "3.0".toList := .of_all (by decide)
  have hfirst : Reads lib [entry "VERSION".toList "3.0".toList, entry "N".toList (nameValue cu),
      entry "FN".toList (esc (some (fullName cu)))] ⟨none, none, none, []⟩ _ :=
    (reads_other "VERSION".toList (by decide) (writes_name (by decide) hversion)).append
      ((reads_nameLine cu).append (reads_other "FN".toList (by decide)
        (writes_name (by decide) (unbroken_esc _))))
  have huid : Writes lib (entry "UID".toList _) "UID".toList _ :=
    writes_name (by decide) (unbroken_uid cu.login)
  exact ((((((hfirst.append (reads_orgLine companyName rfl)).append
    (reads_emailLine cu rfl hemail)).append (reads_telLines cu region)).append
      (reads_addressLine cu)).append (reads_other _ (by decide) huid)).append (reads_revLine cu))

variable {lib} in
theorem writes_mark {mark : Text} (h : IsName mark) :
    Writes lib (entry mark "VCARD".toList) mark "VCARD".toList :=
  writes_name h (.of_all (by decide))

variable {lib} in
theorem isMark_of_eq {mark : Text} {prop : Property} (hname : prop.name = mark)
    (hvalue : prop.value = "VCARD".toList) : isMark lib mark prop = true := by
  have hcard : IsName "VCARD".toList := by decide
  have hstrip : strip "VCARD".toList = "VCARD".toList :=
    strip_eq_self fun d hd ↦ isSpace_headChar (hcard.headChars d hd)
  rw [isMark, hname, hvalue, hstrip, upper_of_headChars hcard.headChars, decide_eq_true rfl,
    decide_eq_true rfl]
  rfl

variable {lib} in
/-- A card that begins, keeps the values of its lines and ends is the only card. -/
theorem parseFrom_card {lines : List Text} {c' : Core} {maxCards : ℕ} (hmax : 0 < maxCards)
    (h : Reads lib lines ⟨none, none, none, []⟩ c') : ∃ card : ParsedVCard, card.core = c' ∧
      parseFrom lib maxCards ⟨[], none, 0⟩ (entry "BEGIN".toList "VCARD".toList ::
        (lines ++ [entry "END".toList "VCARD".toList] ++ [[]])) = ([card], false) := by
  have hbegin : Writes lib _ "BEGIN".toList _ := writes_mark (by decide)
  have hend : Writes lib _ "END".toList _ := writes_mark (by decide)
  obtain ⟨prop, hprop, hname, hvalue, -⟩ := hbegin.parse
  obtain ⟨prop', hprop', hname', hvalue', -⟩ := hend.parse
  obtain ⟨card, hcard, hreads⟩ := h.reads (.new 0) rfl
  refine ⟨card.finished, card.core_finished.trans hcard, ?_⟩
  rw [parseFrom, if_neg hbegin.not_blank, hprop]
  dsimp only
  rw [isMark_of_eq hname hvalue, if_pos rfl, if_pos rfl, List.length_nil,
    if_neg (Nat.not_le_of_lt hmax), List.append_assoc, hreads, List.singleton_append, parseFrom,
    if_neg hend.not_blank, hprop']
  dsimp only
  have hother : prop'.name ≠ "BEGIN".toList := by
    rw [hname']
    decide
  rw [isMark_of_ne hother, if_neg Bool.false_ne_true, isMark_of_eq hname' hvalue', if_pos rfl]
  rfl

end Cards

section RoundTrip

variable (lib) (cu : CustomerUser) (companyName : Option Text) (region : Text)

theorem vcardLines_written (hemail : Mailable lib cu.email) :
    ∀ line ∈ vcardLines lib cu companyName region, ∃ name value, Writes lib line name value := by
  rw [vcardLines_eq]
  refine List.forall_mem_cons.2 ⟨⟨_, _, writes_mark (by decide)⟩, fun line hline ↦ ?_⟩
  rcases List.mem_append.1 hline with hline | hline
  · exact (reads_bodyLines cu companyName region hemail).written line hline
  · rw [List.mem_singleton.1 hline]
    exact ⟨_, _, writes_mark (by decide)⟩

/-- The text is made of short lines, and what is read of it is one card with what was kept. -/
structure Exported (text : Text) : Prop where
  physical : ∃ lines : List Text, text = lines.flatMap (· ++ crlf) ∧
    ∀ line ∈ lines, Unbroken line ∧ octets line ≤ 75
  parsed : ∃ card : ParsedVCard, parseVcards lib text maxVcardImportCards = ([card], false) ∧
    card.firstName = orNone (lf (trim cu.firstName)) ∧
    card.lastName = orNone (lf (trim cu.lastName)) ∧
    card.org = orNone (lf (trim companyName)) ∧
    card.emails = (orNone (lf (trim cu.email))).toList

/-- An exported contact can be imported again. -/
theorem vcard_imports (hemail : Mailable lib cu.email) :
    Exported lib cu companyName (buildVcard lib cu companyName region) := by
  have hwritten := vcardLines_written lib cu companyName region hemail
  have hunbroken : ∀ line ∈ vcardLines lib cu companyName region, Unbroken line := by
    intro line hline
    obtain ⟨name, value, h⟩ := hwritten line hline
    exact h.unbroken
  have hwhole : ∀ line ∈ vcardLines lib cu companyName region, Whole lib line := by
    intro line hline
    obtain ⟨name, value, h⟩ := hwritten line hline
    exact h.whole
  constructor
  · refine ⟨physicalLines (vcardLines lib cu companyName region), flatMap_fold _, ?_⟩
    intro line hline
    obtain ⟨l, hl, hline⟩ := mem_physicalLines hline
    exact ⟨unbroken_foldFrom (hunbroken l hl) line hline,
      foldFrom_octets rfl (Nat.zero_le _) l line hline⟩
  · obtain ⟨card, hcard, hparse⟩ := parseFrom_card (by decide : 0 < maxVcardImportCards)
      (reads_bodyLines cu companyName region hemail)
    rw [vcardLines_eq] at hunbroken hwhole
    have hlogical := logicalLines_fold hunbroken hwhole
    refine ⟨card, ?_, congrArg Core.firstName hcard, congrArg Core.lastName hcard,
      congrArg Core.org hcard, congrArg Core.emails hcard⟩
    rw [parseVcards, buildVcard, vcardLines_eq, hlogical]
    exact hparse

end RoundTrip

/-- A library without telephone numbers, photos and quoted-printable texts. -/
def plainLib : Lib where
  lower s := s.map Char.toLower
  upper s := s.map Char.toUpper
  upper_ascii _ _ := rfl
  phone _ _ := none
  year := zfill 4
  year_digits := isDigit_zfill 4
  quoted _ s := s
  base64 _ := none

def contact (email : Text) : CustomerUser where
  login := "anna".toList
  email := some email
  title := none
  firstName := some " An\"n;a\\, ".toList
  lastName := some "M\r\nßer".toList
  phone := none
  fax := none
  mobile := none
  street := some "Weg; 1".toList
  zip := none
  city := none
  country := none
  changeTime := none

theorem vcard_imports_contact :
    Exported plainLib (contact "a@b.de".toList) (some "C, D".toList) (buildVcard plainLib
      (contact "a@b.de".toList) (some "C, D".toList) "DE".toList) :=
  vcard_imports plainLib (contact "a@b.de".toList) (some "C, D".toList) "DE".toList
    (.inr ⟨by decide, by decide⟩)

/-- The parser drops the scheme in any case, so an address that starts with it in capitals is
not kept. -/
theorem capital_mailto_dropped :
    '@' ∈ "MAILTO:a@b.de".toList ∧ ¬ ParsedVCard.mailto <+: "MAILTO:a@b.de".toList ∧
      ¬ Exported plainLib (contact "MAILTO:a@b.de".toList) none (buildVcard plainLib
        (contact "MAILTO:a@b.de".toList) none "DE".toList) := by
  refine ⟨by decide, by decide, fun h ↦ ?_⟩
  obtain ⟨card, hparse, -, -, -, hemails⟩ := h.parsed
  have hread : ((parseVcards plainLib (buildVcard plainLib (contact "MAILTO:a@b.de".toList) none
      "DE".toList) maxVcardImportCards).1.map fun card ↦ card.emails) = [["a@b.de".toList]] := by
    decide +kernel
  rw [hparse, List.map_singleton, hemails] at hread
  revert hread
  decide

end Tiqora.Domain.Vcard
