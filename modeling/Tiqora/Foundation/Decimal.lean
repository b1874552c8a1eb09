import Mathlib.Algebra.Order.Field.Rat
import Mathlib.Algebra.Order.Ring.Nat
import Mathlib.Algebra.GroupWithZero.Basic
import Mathlib.Data.Nat.Find
import Mathlib.Tactic.NormNum
import Mathlib.Tactic.Ring
import Tiqora.Foundation.Text

namespace Tiqora.Foundation

/-- A finite `Decimal`. -/
structure Decimal where
  neg : Bool
  coeff : ℕ
  exp : ℤ
  deriving DecidableEq

/-- The number of decimal digits. -/
def digitCount (n : ℕ) : ℕ := (Nat.toDigits 10 n).length

/-- The number of zeros at the end. -/
def trailingZeros (n : ℕ) : ℕ := Nat.findGreatest (fun k ↦ 10 ^ k ∣ n) (digitCount n)

/-- The number that decimal digits stand for. -/
def readDigits (s : List Char) : ℕ := s.foldl (fun n c ↦ 10 * n + (digitValue c).getD 0) 0

def readSign : List Char → Bool × List Char
  | '-' :: s => (true, s)
  | '+' :: s => (false, s)
  | s => (false, s)

namespace Decimal

/-- The largest adjusted exponent and the least exponent of a `Decimal`. -/
def maxExponent : ℤ := 999999999999999999

def minExponent : ℤ := -1999999999999999997

def value (d : Decimal) : ℚ := (if d.neg then -1 else 1) * d.coeff * 10 ^ d.exp

def digits (d : Decimal) : ℕ := digitCount d.coeff

def adjusted (d : Decimal) : ℤ := d.exp + d.digits - 1

def ofInt (n : ℤ) : Decimal := ⟨n < 0, n.natAbs, 0⟩

/-- Without zeros at the end. -/
def normalize (d : Decimal) : Decimal :=
  if d.coeff = 0 then ⟨d.neg, 0, 0⟩
  else ⟨d.neg, d.coeff / 10 ^ trailingZeros d.coeff, d.exp + trailingZeros d.coeff⟩

/-- `format(d, "f")`. -/
def format (d : Decimal) : List Char :=
  (if d.neg then ['-'] else []) ++
    if 0 ≤ d.exp then Nat.toDigits 10 d.coeff ++ List.replicate d.exp.toNat '0'
    else
      let places := (-d.exp).toNat
      let ds := zfill (places + 1) d.coeff
      ds.take (ds.length - places) ++ '.' :: ds.drop (ds.length - places)

/-- What a constructor does with a number in range. -/
def ofParts (neg : Bool) (coeff : ℕ) (exp : ℤ) : Option Decimal :=
  let d : Decimal := ⟨neg, coeff, exp⟩
  if d.adjusted ≤ maxExponent ∧ minExponent ≤ exp then some d else none

/-- `Decimal(s)`, and `none` for infinities and what is no number. -/
def read (s : List Char) : Option Decimal :=
  let (neg, s) := readSign (s.filter (· ≠ '_'))
  let whole := s.takeWhile isDigit
  let rest := s.dropWhile isDigit
  let (frac, rest) := if rest.head? = some '.' then
    ((rest.drop 1).takeWhile isDigit, (rest.drop 1).dropWhile isDigit) else ([], rest)
  let coeff := readDigits (whole ++ frac)
  if whole ++ frac = [] then none
  else if rest = [] then ofParts neg coeff (-frac.length)
  else if rest.head? = some 'e' ∨ rest.head? = some 'E' then
    let (down, power) := readSign (rest.drop 1)
    if power ≠ [] ∧ power.all isDigit then
      ofParts neg coeff ((if down then -(readDigits power : ℤ) else readDigits power) - frac.length)
    else none
  else none

end Decimal

section Digits

variable {n j k : ℕ} {s t : List Char}

theorem digitCount_le_iff (hk : 0 < k) : digitCount n ≤ k ↔ n < 10 ^ k :=
  Nat.length_toDigits_le_iff (by decide) hk

theorem digitCount_pos : 0 < digitCount n := Nat.length_toDigits_pos

theorem lt_pow_digitCount : n < 10 ^ digitCount n := (digitCount_le_iff digitCount_pos).1 le_rfl

theorem digitCount_mul (hn : 0 < n) : digitCount (n * 10 ^ j) = digitCount n + j := by
  have hpow : 0 < 10 ^ j := Nat.pow_pos (by decide)
  have hle : ∀ k, 0 < k → (digitCount (n * 10 ^ j) ≤ k + j ↔ digitCount n ≤ k) := by
    intro k hk
    rw [digitCount_le_iff (Nat.add_pos_left hk j), digitCount_le_iff hk, Nat.pow_add,
      Nat.mul_lt_mul_right hpow]
  refine le_antisymm ((hle _ digitCount_pos).2 le_rfl) (not_lt.1 fun hlt ↦ ?_)
  by_cases hone : digitCount n = 1
  · have hsmall : digitCount (n * 10 ^ j) ≤ j := by omega
    rcases Nat.eq_zero_or_pos j with rfl | hj
    · exact absurd (digitCount_pos (n := n * 10 ^ 0)) (by omega)
    · have hbound := (digitCount_le_iff hj).1 hsmall
      exact absurd hbound (not_lt.2 (Nat.le_mul_of_pos_left _ hn))
  · have hpos := digitCount_pos (n := n)
    have hle' := (hle (digitCount n - 1) (by omega)).1 (by omega)
    omega

theorem pow_dvd_iff (hn : 0 < n) : 10 ^ k ∣ n ↔ k ≤ trailingZeros n := by
  have hspec : 10 ^ trailingZeros n ∣ n :=
    Nat.findGreatest_spec (P := fun k ↦ 10 ^ k ∣ n) (Nat.zero_le _) (one_dvd n)
  constructor
  · intro hdvd
    refine Nat.le_findGreatest ?_ hdvd
    have hlt := (Nat.le_of_dvd hn hdvd).trans_lt lt_pow_digitCount
    exact ((Nat.pow_lt_pow_iff_right (by decide)).1 hlt).le
  · intro hle
    exact (pow_dvd_pow 10 hle).trans hspec

theorem trailingZeros_mul (hn : 0 < n) : trailingZeros (n * 10 ^ j) = trailingZeros n + j := by
  have hpow : 0 < 10 ^ j := Nat.pow_pos (by decide)
  have hiff : ∀ k, k ≤ trailingZeros (n * 10 ^ j) ↔ k ≤ trailingZeros n + j := by
    intro k
    rw [← pow_dvd_iff (Nat.mul_pos hn hpow)]
    rcases Nat.le_total k j with hle | hle
    · exact iff_of_true ((pow_dvd_pow 10 hle).trans (Dvd.intro_left _ rfl)) (by omega)
    · obtain ⟨i, rfl⟩ := Nat.exists_eq_add_of_le hle
      rw [Nat.add_comm j i, Nat.pow_add, Nat.mul_dvd_mul_iff_right hpow, pow_dvd_iff hn]
      omega
  exact le_antisymm ((hiff _).1 le_rfl) ((hiff _).2 le_rfl)

theorem digitValue_ascii {c : Char} (h : c.isDigit = true) :
    digitValue c = some (c.toNat - '0'.toNat) := by
  rw [Char.isDigit, Bool.and_eq_true, decide_eq_true_eq, decide_eq_true_eq] at h
  have hfirst : (decide (0x30 ≤ c.toNat) && decide (c.toNat < 0x30 + 10)) = true := by
    rw [Bool.and_eq_true, decide_eq_true_eq, decide_eq_true_eq]
    exact ⟨h.1, Nat.lt_succ_of_le h.2⟩
  have hfind : digitZeros.find? (fun start ↦ start ≤ c.toNat && c.toNat < start + 10) = some 0x30 :=
    List.find?_cons_of_pos hfirst
  rw [digitValue, hfind]
  rfl

theorem readDigits_ascii (h : ∀ c ∈ s, c.isDigit = true) : readDigits s = Nat.ofDigitChars 10 s 0 := by
  rw [readDigits, Nat.ofDigitChars]
  refine List.foldl_ext _ _ 0 fun n c hc ↦ ?_
  rw [digitValue_ascii (h c hc), Option.getD_some]

theorem ascii_toDigits (n : ℕ) : ∀ c ∈ Nat.toDigits 10 n, c.isDigit = true := fun _ hc ↦
  Nat.isDigit_of_mem_toDigits (by decide) (by decide) hc

theorem ascii_zfill (k n : ℕ) : ∀ c ∈ zfill k n, c.isDigit = true := by
  intro c hc
  rcases List.mem_append.1 hc with hzero | hdigit
  · rw [List.eq_of_mem_replicate hzero]
    rfl
  · exact ascii_toDigits n c hdigit

theorem readDigits_zfill (k n : ℕ) : readDigits (zfill k n) = n := by
  rw [readDigits_ascii (ascii_zfill k n), zfill, Nat.ofDigitChars_append,
    Nat.ofDigitChars_replicate_zero, Nat.mul_zero, Nat.ofDigitChars_ten_toDigits]

theorem readDigits_shift (j n : ℕ) :
    readDigits (Nat.toDigits 10 n ++ List.replicate j '0') = n * 10 ^ j := by
  rw [readDigits_ascii, Nat.ofDigitChars_append, Nat.ofDigitChars_ten_toDigits,
    Nat.ofDigitChars_replicate_zero, Nat.mul_comm]
  intro c hc
  rcases List.mem_append.1 hc with hdigit | hzero
  · exact ascii_toDigits n c hdigit
  · rw [List.eq_of_mem_replicate hzero]
    rfl

theorem takeWhile_dropWhile_stop {α : Type} {p : α → Bool} {s t : List α}
    (hs : ∀ c ∈ s, p c = true) (ht : ∀ c ∈ t.head?, p c = false) :
    (s ++ t).takeWhile p = s ∧ (s ++ t).dropWhile p = t := by
  have hstop : t.takeWhile p = [] ∧ t.dropWhile p = t := by
    cases t with
    | nil => exact ⟨rfl, rfl⟩
    | cons c t =>
      have hc := ht c rfl
      simp [hc]
  rw [List.takeWhile_append_of_pos hs, List.dropWhile_append_of_pos hs, hstop.1, hstop.2,
    List.append_nil]
  exact ⟨rfl, rfl⟩

end Digits

namespace Decimal

variable {d : Decimal} {neg : Bool} {n j : ℕ} {e : ℤ}

theorem normalize_mul (hn : 0 < n) :
    normalize ⟨neg, n * 10 ^ j, e⟩ = normalize ⟨neg, n, e + j⟩ := by
  have hpow : 0 < 10 ^ j := Nat.pow_pos (by decide)
  rw [normalize, normalize, if_neg (Nat.mul_pos hn hpow).ne', if_neg hn.ne', Decimal.mk.injEq]
  refine ⟨rfl, ?_, ?_⟩
  · rw [trailingZeros_mul hn, Nat.pow_add, Nat.mul_div_mul_right _ _ hpow]
  · rw [trailingZeros_mul hn]
    push_cast
    ring

/-- A number is its normal form, scaled. -/
theorem exists_normalize (hd : d.coeff ≠ 0) : ∃ (c : ℕ) (e : ℤ) (j : ℕ), 0 < c ∧
    d.normalize = ⟨d.neg, c, e + j⟩ ∧ d = ⟨d.neg, c * 10 ^ j, e⟩ := by
  have hpos := Nat.pos_of_ne_zero hd
  have hdvd := (pow_dvd_iff hpos).2 (le_refl (trailingZeros d.coeff))
  refine ⟨d.coeff / 10 ^ trailingZeros d.coeff, d.exp, trailingZeros d.coeff,
    Nat.div_pos (Nat.le_of_dvd hpos hdvd) (Nat.pow_pos (by decide)), ?_, ?_⟩
  · rw [normalize, if_neg hd]
  · rw [Nat.div_mul_cancel hdvd]

theorem value_mul : value ⟨neg, n * 10 ^ j, e⟩ = value ⟨neg, n, e + j⟩ := by
  have hten : (10 : ℚ) ≠ 0 := by norm_num
  rw [value, value, Nat.cast_mul, Nat.cast_pow, zpow_add₀ hten, zpow_natCast]
  push_cast
  ring

theorem adjusted_mul (hn : 0 < n) : adjusted ⟨neg, n * 10 ^ j, e⟩ = adjusted ⟨neg, n, e + j⟩ := by
  rw [adjusted, adjusted, digits, digits, digitCount_mul hn]
  push_cast
  ring

/-- What is read from a printed number. -/
def settle (d : Decimal) : Decimal :=
  if 0 ≤ d.exp then ⟨d.neg, d.coeff * 10 ^ d.exp.toNat, 0⟩ else d

def Fits (d : Decimal) : Prop := d.adjusted ≤ maxExponent ∧ minExponent ≤ d.exp

theorem readSign_digit {s : List Char} (h : ∃ c, s.head? = some c ∧ c.isDigit = true) (neg : Bool) :
    readSign ((if neg then ['-'] else []) ++ s) = (neg, s) := by
  cases neg with
  | true => rfl
  | false =>
    obtain ⟨c, hhead, hdigit⟩ := h
    cases s with
    | nil => cases hhead
    | cons d s =>
      cases hhead
      have hminus : c ≠ '-' := fun heq ↦ by
        rw [heq] at hdigit
        cases hdigit
      have hplus : c ≠ '+' := fun heq ↦ by
        rw [heq] at hdigit
        cases hdigit
      rw [if_neg Bool.false_ne_true, List.nil_append, readSign]
      · exact fun s heq ↦ hminus (List.cons.inj heq).1
      · exact fun s heq ↦ hplus (List.cons.inj heq).1

/-- Digits with or without a point are read. -/
theorem read_digits {whole frac : List Char} (hwhole : ∀ c ∈ whole, c.isDigit = true)
    (hfrac : ∀ c ∈ frac, c.isDigit = true) (hne : whole ≠ []) (neg : Bool) :
    read ((if neg then ['-'] else []) ++ whole) = ofParts neg (readDigits whole) 0 ∧
    read ((if neg then ['-'] else []) ++ (whole ++ '.' :: frac)) =
      ofParts neg (readDigits (whole ++ frac)) (-frac.length) := by
  have hdigit : ∀ c : Char, c.isDigit = true → c ≠ '_' := fun c hc heq ↦ by
    rw [heq] at hc
    cases hc
  have hsign : ((if neg then ['-'] else []).filter (· ≠ '_')) = if neg then ['-'] else [] := by
    cases neg <;> rfl
  have hfilter : whole.filter (· ≠ '_') = whole ∧ frac.filter (· ≠ '_') = frac :=
    ⟨List.filter_eq_self.2 fun c hc ↦ decide_eq_true (hdigit c (hwhole c hc)),
      List.filter_eq_self.2 fun c hc ↦ decide_eq_true (hdigit c (hfrac c hc))⟩
  have hhead : ∃ c, whole.head? = some c ∧ c.isDigit = true := by
    cases whole with
    | nil => exact absurd rfl hne
    | cons c whole => exact ⟨c, rfl, hwhole c List.mem_cons_self⟩
  have hhead' : ∃ c, (whole ++ '.' :: frac).head? = some c ∧ c.isDigit = true := by
    obtain ⟨c, hc, hdigit⟩ := hhead
    exact ⟨c, by rw [List.head?_append, hc]; rfl, hdigit⟩
  have hisDigit : ∀ {s : List Char}, (∀ c ∈ s, c.isDigit = true) → ∀ c ∈ s, isDigit c = true :=
    fun hs c hc ↦ isDigit_of_ascii (hs c hc)
  constructor
  · have hsplit := takeWhile_dropWhile_stop (t := []) (hisDigit hwhole) (fun c hc ↦ by cases hc)
    rw [List.append_nil] at hsplit
    rw [read, List.filter_append, hsign, hfilter.1, readSign_digit hhead]
    simp only [hsplit.1, hsplit.2, List.head?_nil, reduceCtorEq, if_false, List.append_nil,
      if_neg hne, if_true, List.length_nil]
    rfl
  · have hdot : ∀ c ∈ ('.' :: frac).head?, isDigit c = false := fun c hc ↦ by
      cases hc
      rfl
    have hsplit := takeWhile_dropWhile_stop (hisDigit hwhole) hdot
    have hsplit' := takeWhile_dropWhile_stop (t := []) (hisDigit hfrac) (fun c hc ↦ by cases hc)
    rw [List.append_nil] at hsplit'
    have hne' : whole ++ frac ≠ [] := fun h ↦ hne (List.append_eq_nil_iff.1 h).1
    have hfilter' : ('.' :: frac).filter (· ≠ '_') = '.' :: frac := by
      rw [List.filter_cons_of_pos (by decide), hfilter.2]
    rw [read, List.filter_append, List.filter_append, hsign, hfilter.1, hfilter',
      readSign_digit hhead']
    simp only [hsplit.1, hsplit.2, List.head?_cons, if_true, List.drop_succ_cons, List.drop_zero,
      hsplit'.1, hsplit'.2, if_neg hne']

theorem ofParts_eq (h : d.Fits) : ofParts d.neg d.coeff d.exp = some d := if_pos h

/-- A printed number is read back. -/
theorem read_format (h : d.settle.Fits) : read d.format = some d.settle := by
  rw [← ofParts_eq h]
  by_cases hexp : 0 ≤ d.exp
  · have hascii : ∀ c ∈ Nat.toDigits 10 d.coeff ++ List.replicate d.exp.toNat '0',
        c.isDigit = true := by
      intro c hc
      rcases List.mem_append.1 hc with hdigit | hzero
      · exact ascii_toDigits _ c hdigit
      · rw [List.eq_of_mem_replicate hzero]
        rfl
    have hne : Nat.toDigits 10 d.coeff ++ List.replicate d.exp.toNat '0' ≠ [] := fun h ↦
      Nat.toDigits_ne_nil (List.append_eq_nil_iff.1 h).1
    have hnone : ∀ c ∈ ([] : List Char), c.isDigit = true := fun c hc ↦ absurd hc List.not_mem_nil
    rw [format, if_pos hexp, (read_digits hascii hnone hne d.neg).1, readDigits_shift, settle,
      if_pos hexp]
  · have hplaces : 0 < (-d.exp).toNat := by omega
    have hlength := length_zfill ((-d.exp).toNat + 1) d.coeff
    have hascii := ascii_zfill ((-d.exp).toNat + 1) d.coeff
    have hne : (zfill ((-d.exp).toNat + 1) d.coeff).take
        ((zfill ((-d.exp).toNat + 1) d.coeff).length - (-d.exp).toNat) ≠ [] := by
      intro hnil
      have hzero := congrArg List.length hnil
      rw [List.length_take, List.length_nil] at hzero
      omega
    rw [format, if_neg hexp, (read_digits (fun c hc ↦ hascii c (List.mem_of_mem_take hc))
      (fun c hc ↦ hascii c (List.mem_of_mem_drop hc)) hne d.neg).2, List.take_append_drop,
      readDigits_zfill, settle, if_neg hexp, List.length_drop]
    congr 1
    omega

theorem normalize_spec (hd : d.coeff ≠ 0) : d.normalize.coeff ≠ 0 ∧
    d.normalize.value = d.value ∧ d.normalize.adjusted = d.adjusted ∧
    d.normalize.normalize = d.normalize ∧ d.normalize.digits ≤ d.digits := by
  obtain ⟨c, e, j, hpos, hnormalize, heq⟩ := exists_normalize hd
  refine ⟨?_, ?_, ?_, ?_, ?_⟩
  · rw [hnormalize]
    exact hpos.ne'
  · rw [hnormalize, ← value_mul, ← heq]
  · rw [hnormalize, ← adjusted_mul hpos, ← heq]
  · nth_rewrite 1 [hnormalize]
    rw [← normalize_mul hpos, ← heq]
  · rw [hnormalize]
    nth_rewrite 2 [heq]
    rw [digits, digits, digitCount_mul hpos]
    exact Nat.le_add_right _ _

theorem settle_spec (hd : d.coeff ≠ 0) : d.settle.coeff ≠ 0 ∧ d.settle.value = d.value ∧
    d.settle.adjusted = d.adjusted ∧ d.settle.normalize = d.normalize ∧
    d.settle.exp = min d.exp 0 := by
  obtain ⟨neg, c, e⟩ := d
  have hpos : 0 < c := Nat.pos_of_ne_zero hd
  rw [settle]
  split
  · next hexp =>
    obtain ⟨j, rfl⟩ := Int.eq_ofNat_of_zero_le hexp
    refine ⟨(Nat.mul_pos hpos (Nat.pow_pos (by decide))).ne', ?_, ?_, ?_, ?_⟩
    · rw [value_mul, Int.toNat_natCast, zero_add]
    · rw [adjusted_mul hpos, Int.toNat_natCast, zero_add]
    · rw [normalize_mul hpos, Int.toNat_natCast, zero_add]
    · exact (min_eq_right hexp).symm
  · next hexp => exact ⟨hd, rfl, rfl, rfl, (min_eq_left (not_le.1 hexp).le).symm⟩

/-- A decimal as it is stored. -/
def text (d : Decimal) : List Char :=
  let out := d.normalize.format
  if out = ['-', '0'] ∨ out = [] then ['0'] else out

theorem format_zero (neg : Bool) : format ⟨neg, 0, 0⟩ = if neg then ['-', '0'] else ['0'] := by
  cases neg <;> decide

theorem text_zero (hd : d.coeff = 0) : d.text = ['0'] := by
  rw [text, normalize, if_pos hd, format_zero]
  cases d.neg <;> decide

theorem read_zero : read ['0'] = some ⟨false, 0, 0⟩ := by decide

/-- A stored number is read back. -/
theorem read_text (hd : d.coeff ≠ 0) (hfits : d.normalize.settle.Fits) :
    d.text = d.normalize.format ∧ read d.text = some d.normalize.settle := by
  have hread := read_format hfits
  have htext : d.text = d.normalize.format := by
    rw [text]
    refine if_neg fun h ↦ ?_
    have hcoeff := (settle_spec (normalize_spec hd).1).1
    rcases h with h | h
    · rw [h] at hread
      have hzero : read ['-', '0'] = some ⟨true, 0, 0⟩ := by decide
      rw [hzero] at hread
      exact hcoeff (congrArg coeff (Option.some.inj hread)).symm
    · rw [h] at hread
      have hnone : read [] = none := by decide
      rw [hnone] at hread
      cases hread
  exact ⟨htext, htext ▸ hread⟩

end Decimal

/-- `str` of an integer. -/
def intText (n : ℤ) : List Char := (if n < 0 then ['-'] else []) ++ Nat.toDigits 10 n.natAbs

/-- `int` of a sign and digits. -/
def signedValue (s : List Char) : ℤ :=
  if (readSign s).1 then -(readDigits (readSign s).2 : ℤ) else readDigits (readSign s).2

theorem readSign_intText (n : ℤ) :
    readSign (intText n) = (decide (n < 0), Nat.toDigits 10 n.natAbs) := by
  have hdigit : ∃ c, (Nat.toDigits 10 n.natAbs).head? = some c ∧ c.isDigit = true := by
    cases hs : Nat.toDigits 10 n.natAbs with
    | nil => exact absurd hs Nat.toDigits_ne_nil
    | cons c s => exact ⟨c, rfl, ascii_toDigits n.natAbs c (hs ▸ List.mem_cons_self)⟩
  have hread := Decimal.readSign_digit hdigit (decide (n < 0))
  simp only [decide_eq_true_eq] at hread
  exact hread

theorem signedValue_intText (n : ℤ) : signedValue (intText n) = n := by
  have hdigits : readDigits (Nat.toDigits 10 n.natAbs) = n.natAbs := by
    rw [readDigits_ascii (ascii_toDigits _), Nat.ofDigitChars_ten_toDigits]
  rw [signedValue, readSign_intText]
  dsimp only
  rw [hdigits]
  split
  · next hneg =>
    rw [decide_eq_true_eq] at hneg
    omega
  · next hpos =>
    rw [decide_eq_true_eq] at hpos
    omega

theorem intText_chars (n : ℤ) : ∀ c ∈ intText n, c = '-' ∨ c.isDigit = true := by
  intro c hc
  rcases List.mem_append.1 hc with hsign | hdigit
  · split at hsign
    · exact .inl (List.mem_singleton.1 hsign)
    · cases hsign
  · exact .inr (ascii_toDigits _ c hdigit)

theorem intText_ne_nil (n : ℤ) : intText n ≠ [] := fun h ↦
  Nat.toDigits_ne_nil (List.append_eq_nil_iff.1 h).2

/-- `int` of a text of at most 4300 digits. -/
def readInt (s : List Char) : Option ℤ :=
  let (negative, body) := readSign (strip s)
  let groups := body.splitOn '_'
  if groups.all fun group ↦ group ≠ [] ∧ group.all isDigit then
    let value : ℤ := readDigits groups.flatten
    some (if negative then -value else value)
  else none

theorem readInt_intText (n : ℤ) : readInt (intText n) = some n := by
  have hascii := ascii_toDigits n.natAbs
  have hstrip : strip (intText n) = intText n := by
    refine strip_eq_self fun c hc ↦ ?_
    rcases intText_chars n c hc with rfl | hdigit
    · decide
    · exact not_space_of_digit hdigit
  have hsplit : (Nat.toDigits 10 n.natAbs).splitOn '_' = [Nat.toDigits 10 n.natAbs] := by
    rw [List.splitOn_eq_splitOnP]
    refine List.splitOnP_eq_singleton fun c hc ↦ beq_false_of_ne ?_
    rintro rfl
    exact absurd (hascii _ hc) (by decide)
  have hall : (Nat.toDigits 10 n.natAbs).all isDigit = true := by
    refine List.all_eq_true.2 fun c hc ↦ ?_
    rw [isDigit, digitValue_ascii (hascii c hc)]
    rfl
  have hvalue := signedValue_intText n
  rw [signedValue, readSign_intText] at hvalue
  simp only [readInt, hstrip, readSign_intText, hsplit, List.all_cons, List.all_nil, hall,
    List.flatten_cons, List.flatten_nil, List.append_nil, Bool.and_true, hvalue]
  rw [if_pos (decide_eq_true ⟨Nat.toDigits_ne_nil, trivial⟩)]

end Tiqora.Foundation
