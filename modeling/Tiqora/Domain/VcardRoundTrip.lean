import Mathlib.Data.Char
import Tiqora.Domain.VcardLines

namespace Tiqora.Domain.Vcard

open Foundation

variable {lib : Lib}

section Heads

/-- The characters of the heads that are written. -/
def HeadChar (c : Char) : Prop := ('A' ≤ c ∧ c ≤ 'Z') ∨ c = ';' ∨ c = '='

instance : DecidablePred HeadChar := fun _ ↦ inferInstanceAs (Decidable (_ ∨ _))

def IsName (name : Text) : Prop := name ≠ [] ∧ ∀ c ∈ name, 'A' ≤ c ∧ c ≤ 'Z'

instance (name : Text) : Decidable (IsName name) :=
  decidable_of_iff (name ≠ [] ∧ name.all fun c ↦ 'A' ≤ c ∧ c ≤ 'Z')
    (and_congr_right' (by simp only [List.all_eq_true, decide_eq_true_eq]))

theorem HeadChar.lt {c : Char} (h : HeadChar c) : c.toNat < 91 := by
  rcases h with ⟨-, h⟩ | rfl | rfl
  · exact Nat.lt_succ_of_le h
  · decide
  · decide

theorem toUpper_of_headChar {c : Char} (h : HeadChar c) : c.toUpper = c := by
  delta Char.toUpper
  rw [dif_neg]
  rintro ⟨hle, -⟩
  have hlow : 97 ≤ c.toNat := hle
  have hlt := h.lt
  omega

theorem upper_of_headChars {s : Text} (h : ∀ c ∈ s, HeadChar c) : lib.upper s = s := by
  rw [lib.upper_ascii s fun c hc ↦ (h c hc).lt.trans (by decide)]
  exact (List.map_congr_left fun c hc ↦ toUpper_of_headChar (h c hc)).trans (List.map_id s)

theorem IsName.headChars {name : Text} (h : IsName name) : ∀ c ∈ name, HeadChar c := fun c hc ↦
  .inl (h.2 c hc)

theorem IsName.ne {name : Text} (h : IsName name) {d : Char} (hd : ¬ ('A' ≤ d ∧ d ≤ 'Z')) :
    ∀ c ∈ name, c ≠ d := by
  rintro c hc rfl
  exact hd (h.2 c hc)

theorem isSpace_headChar {c : Char} (h : HeadChar c) : isSpace c = false := by
  have hlow : 59 ≤ c.toNat := by
    rcases h with ⟨h, -⟩ | rfl | rfl
    · exact Nat.le_trans (by decide : 59 ≤ 'A'.toNat) h
    · decide
    · decide
  have hlt := h.lt
  simp only [isSpace, Bool.or_eq_false_iff, Bool.and_eq_false_iff, decide_eq_false_iff_not]
  omega

theorem dropGroup_name {name : Text} (h : IsName name) : dropGroup name = name := by
  have hall : ∀ c ∈ name, isGroupChar c = true := by
    intro c hc
    obtain ⟨hle, hge⟩ := h.2 c hc
    have hupper : c.isUpper = true := decide_eq_true ⟨hle, hge⟩
    have halpha : c.isAlpha = true := Bool.or_eq_true_iff.2 (.inl hupper)
    rw [isGroupChar, Char.isAlphanum, halpha, Bool.true_or, Bool.true_or]
  rw [dropGroup, List.takeWhile_eq_self_iff.2 hall, List.dropWhile_eq_nil_iff.2 hall]
  cases name <;> rfl

theorem splitUnquotedFrom_plain (sep : Char) {s : Text} (h : ∀ c ∈ s, c ≠ '"' ∧ c ≠ sep)
    (current : Text) (left : Option ℕ) (t : Text) :
    splitUnquotedFrom sep current false left (s ++ t) =
      splitUnquotedFrom sep (current ++ s) false left t := by
  induction s generalizing current with
  | nil => rw [List.nil_append, List.append_nil]
  | cons c s ih =>
    obtain ⟨⟨hquote, hsep⟩, hs⟩ := List.forall_mem_cons.1 h
    rw [List.cons_append, splitUnquotedFrom, if_neg hquote, if_neg fun hand ↦ hsep hand.1, ih hs,
      List.append_assoc, List.singleton_append]

theorem splitUnquotedFrom_rest (sep : Char) (current : Text) (quoted : Bool) (s : Text) :
    splitUnquotedFrom sep current quoted (some 0) s = [current ++ s] := by
  induction s generalizing current quoted with
  | nil => rw [splitUnquotedFrom, List.append_nil]
  | cons c s ih =>
    rw [splitUnquotedFrom]
    split
    · rw [ih, List.append_assoc, List.singleton_append]
    · rw [if_neg fun hand ↦ hand.2.2 rfl, ih, List.append_assoc, List.singleton_append]

theorem splitUnquoted_entry {head : Text} (h : ∀ c ∈ head, HeadChar c) (value : Text) :
    splitUnquoted (entry head value) ':' (some 1) = [head, value] := by
  have hplain : ∀ c ∈ head, c ≠ '"' ∧ c ≠ ':' := by
    intro c hc
    constructor <;> rintro rfl <;> exact absurd (h _ hc) (by rw [HeadChar]; decide)
  rw [splitUnquoted, entry, splitUnquotedFrom_plain ':' hplain, List.nil_append, splitUnquotedFrom,
    if_neg (by decide), if_pos ⟨rfl, rfl, by decide⟩]
  exact congrArg (head :: ·) (splitUnquotedFrom_rest ':' [] false value)

/-- What stands before the colon of a line, with the name that is read of it. -/
structure Head (lib : Lib) (head name : Text) : Prop where
  isName : IsName name
  starts : name <+: head
  chars : ∀ c ∈ head, HeadChar c
  parsed : (parseHead lib head).1 = name
  encoding : (parseHead lib head).2.lookup "ENCODING".toList = none

theorem head_name {name : Text} (h : IsName name) : Head lib name name := by
  have hsplit : splitUnquoted name ';' none = [name] := by
    have hplain := splitUnquotedFrom_plain ';' (s := name)
      (fun c hc ↦ ⟨h.ne (by decide) c hc, h.ne (by decide) c hc⟩) [] none []
    rw [List.append_nil] at hplain
    exact hplain
  refine ⟨h, List.prefix_rfl, h.headChars, ?_, ?_⟩
  · rw [parseHead, hsplit, List.headD_cons,
      strip_eq_self fun c hc ↦ isSpace_headChar (h.headChars c hc), dropGroup_name h]
    exact upper_of_headChars h.headChars
  · rw [parseHead, hsplit]
    rfl

theorem plain_type : ∀ c ∈ "TYPE=".toList, c ≠ '"' ∧ c ≠ ';' :=
  forall_of_all (by decide)

theorem headChar_type : ∀ c ∈ ";TYPE=".toList, HeadChar c :=
  forall_of_all (by decide)

theorem head_typed {name kind : Text} (h : IsName name) (hkind : IsName kind) :
    Head lib (name ++ ";TYPE=".toList ++ kind) name := by
  have hsplit : splitUnquoted (name ++ ";TYPE=".toList ++ kind) ';' none =
      [name, "TYPE=".toList ++ kind] := by
    have hrest := splitUnquotedFrom_plain ';' (s := "TYPE=".toList ++ kind)
      (fun c hc ↦ (List.mem_append.1 hc).elim (plain_type c)
        fun hc ↦ ⟨hkind.ne (by decide) c hc, hkind.ne (by decide) c hc⟩) [] none []
    rw [List.append_nil] at hrest
    rw [List.append_assoc, splitUnquoted, splitUnquotedFrom_plain ';' fun c hc ↦
      ⟨h.ne (by decide) c hc, h.ne (by decide) c hc⟩]
    exact congrArg (name :: ·) hrest
  have hkey : lib.upper (strip ("TYPE".toList)) = "TYPE".toList := by
    have hname : IsName "TYPE".toList := by decide
    rw [strip_eq_self fun c hc ↦ isSpace_headChar (hname.headChars c hc)]
    exact upper_of_headChars hname.headChars
  refine ⟨h, ⟨_, (List.append_assoc _ _ _).symm⟩, fun c hc ↦ ?_, ?_, ?_⟩
  · rcases List.mem_append.1 hc with hc | hc
    · rcases List.mem_append.1 hc with hc | hc
      · exact h.headChars c hc
      · exact headChar_type c hc
    · exact hkind.headChars c hc
  · rw [parseHead, hsplit, List.headD_cons,
      strip_eq_self fun c hc ↦ isSpace_headChar (h.headChars c hc), dropGroup_name h]
    exact upper_of_headChars h.headChars
  · rw [parseHead, hsplit]
    change List.lookup _ (addParam lib [] ('T' :: 'Y' :: 'P' :: 'E' :: '=' :: kind)) = none
    change List.lookup _ (extend [] (lib.upper (strip "TYPE".toList)) _) = none
    rw [hkey]
    rfl

end Heads

section Lines

/-- A line that is read as a property with the name and the value. -/
def Writes (lib : Lib) (line name value : Text) : Prop :=
  ∃ head, Head lib head name ∧ line = entry head value ∧ Unbroken value

variable {line name value : Text}

theorem HeadChar.unbroken {c : Char} (h : HeadChar c) : c ≠ '\r' ∧ c ≠ '\n' := by
  constructor <;> rintro rfl <;> exact absurd h (by rw [HeadChar]; decide)

theorem Head.cons {head : Text} (h : Head lib head name) : ∃ c s, head = c :: s ∧ HeadChar c := by
  obtain ⟨c, s, rfl⟩ := List.exists_cons_of_ne_nil h.isName.1
  obtain ⟨t, rfl⟩ := h.starts
  exact ⟨c, s ++ t, rfl, h.chars c List.mem_cons_self⟩

theorem Writes.unbroken (h : Writes lib line name value) : Unbroken line := by
  obtain ⟨head, hhead, rfl, hvalue⟩ := h
  exact Unbroken.append (fun c hc ↦ (hhead.chars c hc).unbroken)
    (Unbroken.cons (by decide) hvalue)

theorem Writes.not_blank (h : Writes lib line name value) : strip line ≠ [] := by
  obtain ⟨head, hhead, rfl, -⟩ := h
  obtain ⟨c, s, rfl, hc⟩ := hhead.cons
  exact strip_ne_nil (isSpace_headChar hc)

theorem Writes.whole (h : Writes lib line name value) : Whole lib line := by
  obtain ⟨head, hhead, rfl, -⟩ := h
  constructor
  · obtain ⟨c, s, rfl, hc⟩ := hhead.cons
    intro d hd
    cases hd
    have hspace := isSpace_headChar hc
    constructor <;> rintro rfl <;> exact absurd hspace (by decide)
  · rw [isQpSoftBreak, splitUnquoted_entry hhead.chars, List.headD_cons,
      upper_of_headChars hhead.chars, Bool.and_eq_false_iff]
    refine .inr (decide_eq_false fun hinfix ↦ ?_)
    have hdash : '-' ∈ head := hinfix.subset (by decide)
    exact absurd (hhead.chars _ hdash) (by rw [HeadChar]; decide)

/-- What the parser reads of a line that was written. -/
theorem Writes.parse (h : Writes lib line name value) : ∃ prop, parseProperty lib line =
    some prop ∧ prop.name = name ∧ prop.value = value ∧ decodedText lib prop = value := by
  obtain ⟨head, hhead, rfl, -⟩ := h
  refine ⟨⟨name, (parseHead lib head).2, value⟩, ?_, rfl, rfl, ?_⟩
  · rw [parseProperty, splitUnquoted_entry hhead.chars]
    change some (Property.mk (parseHead lib head).1 _ _) = _
    rw [hhead.parsed]
  · have hplain : Property.encoding lib ⟨name, (parseHead lib head).2, value⟩ = [] := by
      rw [Property.encoding, hhead.encoding]
      rfl
    rw [decodedText, hplain, if_pos (by decide)]

end Lines

section Cards

/-- The values of a card that the export has kept. -/
structure Core where
  firstName : Option Text
  lastName : Option Text
  org : Option Text
  emails : List Text

def ParsedVCard.core (card : ParsedVCard) : Core :=
  ⟨card.firstName, card.lastName, card.org, card.emails⟩

theorem ParsedVCard.core_finished (card : ParsedVCard) : card.finished.core = card.core := by
  rw [finished]
  split <;> rfl

theorem ParsedVCard.core_addTel (card : ParsedVCard) (prop : Property) (value : Text) :
    (card.addTel lib prop value).core = card.core := by
  rw [addTel]
  split_ifs <;> rfl

theorem ParsedVCard.core_apply {prop : Property} (card : ParsedVCard)
    (hname : prop.name ≠ "N".toList) (hemail : prop.name ≠ "EMAIL".toList)
    (horg : prop.name ≠ "ORG".toList) : (card.apply lib prop).core = card.core := by
  rw [apply]
  dsimp only
  rw [if_neg hname, if_neg hemail, if_neg horg]
  split_ifs
  · rfl
  · rfl
  · rfl
  · exact core_addTel card prop _
  · rfl
  · rfl

/-- The lines take a card with the first values to one with the second values. -/
structure Reads (lib : Lib) (lines : List Text) (c c' : Core) : Prop where
  written : ∀ line ∈ lines, ∃ name value, Writes lib line name value
  reads : ∀ card : ParsedVCard, card.core = c → ∃ card' : ParsedVCard, card'.core = c' ∧
    ∀ maxCards cards tail, parseFrom lib maxCards ⟨cards, some card, 1⟩ (lines ++ tail) =
      parseFrom lib maxCards ⟨cards, some card', 1⟩ tail

variable {c c' c'' : Core} {lines lines' : List Text} {line name value : Text}

theorem Reads.nil : Reads lib [] c c :=
  ⟨fun _ h ↦ absurd h List.not_mem_nil, fun card hcard ↦ ⟨card, hcard, fun _ _ _ ↦ rfl⟩⟩

theorem Reads.append (h : Reads lib lines c c') (h' : Reads lib lines' c' c'') :
    Reads lib (lines ++ lines') c c'' := by
  refine ⟨fun line hline ↦ (List.mem_append.1 hline).elim (h.written line) (h'.written line),
    fun card hcard ↦ ?_⟩
  obtain ⟨card', hcard', hreads⟩ := h.reads card hcard
  obtain ⟨card'', hcard'', hreads'⟩ := h'.reads card' hcard'
  refine ⟨card'', hcard'', fun maxCards cards tail ↦ ?_⟩
  rw [List.append_assoc, hreads, hreads']

theorem isMark_of_ne {mark : Text} {prop : Property} (h : prop.name ≠ mark) :
    isMark lib mark prop = false := by
  rw [isMark, decide_eq_false h, Bool.false_and]

theorem Reads.single (h : Writes lib line name value) (hbegin : name ≠ "BEGIN".toList)
    (hend : name ≠ "END".toList) (happly : ∀ (card : ParsedVCard) (prop : Property),
      card.core = c → prop.name = name → decodedText lib prop = value →
        (card.apply lib prop).core = c') : Reads lib [line] c c' := by
  refine ⟨fun l hl ↦ List.mem_singleton.1 hl ▸ ⟨name, value, h⟩, fun card hcard ↦ ?_⟩
  obtain ⟨prop, hprop, hname, -, hvalue⟩ := h.parse
  refine ⟨card.apply lib prop, happly card prop hcard hname hvalue, fun maxCards cards tail ↦ ?_⟩
  rw [List.singleton_append, parseFrom, if_neg h.not_blank, hprop]
  dsimp only
  rw [isMark_of_ne (hname ▸ hbegin), if_neg Bool.false_ne_true, isMark_of_ne (hname ▸ hend),
    if_neg Bool.false_ne_true]
  rfl

/-- The names of the lines that leave the values as they are. -/
def otherNames : List Text :=
  ["VERSION".toList, "FN".toList, "TEL".toList, "ADR".toList, "UID".toList, "REV".toList]

theorem otherNames_ne (marked : Text) (h : marked ∉ otherNames) (hname : name ∈ otherNames) :
    name ≠ marked := by
  rintro rfl
  exact h hname

theorem Reads.others (h : ∀ line ∈ lines, ∃ name ∈ otherNames, ∃ value,
    Writes lib line name value) :
    Reads lib lines c c := by
  induction lines with
  | nil => exact .nil
  | cons line lines ih =>
    obtain ⟨⟨name, hname, value, hline⟩, hrest⟩ := List.forall_mem_cons.1 h
    refine (Reads.append ?_ (ih hrest) : Reads lib ([line] ++ lines) c c)
    refine .single hline (otherNames_ne _ (by decide) hname) (otherNames_ne _ (by decide) hname) ?_
    intro card prop hcard hprop _
    have hne := fun marked h ↦ hprop ▸ otherNames_ne marked h hname
    rw [card.core_apply (hne _ (by decide)) (hne _ (by decide)) (hne _ (by decide)), hcard]

end Cards

end Tiqora.Domain.Vcard
