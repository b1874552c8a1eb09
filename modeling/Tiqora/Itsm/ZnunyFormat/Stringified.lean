import Mathlib.Data.Char
import Mathlib.Data.List.Lex
import Tiqora.Itsm.ZnunyFormat.XmlData
import Tiqora.Itsm.ZnunyFormat.XmlDataSurvives

namespace Tiqora.Itsm.ZnunyFormat

open Foundation Cmdb.Definition Cmdb.Values

def perlTruthy : Raw → Bool
  | .null => false
  | .bool b => b
  | .int n => n ≠ 0
  | .float x => x.whole ≠ some 0
  | .str s => s ≠ [] ∧ s ≠ ['0']
  | .list _ | .dict _ => true

/-- The texts that are flattened, in the order of their keys. -/
def inOrder (found : List (Text × List (Text × Text))) : List (Text × Text) :=
  (found.mergeSort fun a b ↦ a.1 ≤ b.1).flatMap Prod.snd

section Stringify

variable (print : Raw → Text)

def contentPair (key : Text) (content : Raw) : List (Text × Text) :=
  if perlTruthy content then [(key, text print content)] else []

/-- The key of an entry below a start that ends with the separator. -/
def flatKey (path : Text) (counter : ℕ) : Text := path ++ ':' :: ':' :: Nat.toDigits 10 counter

def subStart (key : Text) : Text := key ++ [':', ':']

def isSub (found : Text × List (Text × Text)) : Bool := found.1 ≠ "Content".toList

mutual

def stringifyItems : List (Text × Raw) → Text → List (Text × List (Text × Text))
  | [], _ => []
  | (item, value) :: rest, start =>
    (item, stringifyValue value (start ++ item)) :: stringifyItems rest start

def stringifyValue : Raw → Text → List (Text × Text)
  | .list entries, path => stringifyEntries entries path 1
  | .null, _ | .bool _, _ | .int _, _ | .float _, _ | .str _, _ | .dict _, _ => []

def stringifyEntries : List Raw → Text → ℕ → List (Text × Text)
  | [], _, _ => []
  | .dict subItem :: rest, path, counter =>
    let key := flatKey path counter
    contentPair print key (get subItem "Content") ++
      inOrder ((stringifyItems subItem (subStart key)).filter isSub) ++
        stringifyEntries rest path (counter + 1)
  | .null :: rest, path, counter | .bool _ :: rest, path, counter | .int _ :: rest, path, counter
  | .float _ :: rest, path, counter | .str _ :: rest, path, counter
  | .list _ :: rest, path, counter => stringifyEntries rest path counter

end

def stringify (xmlData : Dict) (start : Text) : List (Text × Text) :=
  inOrder (stringifyItems print xmlData start)

def xmldataToStringified (xmlData : Dict) : Except ValueError (List (Text × Text)) := do
  guardXmlData xmlData
  return (stringify print xmlData []).foldl (fun out pair ↦ setItem out pair.1 pair.2) []

end Stringify

/-- An attribute of a Znuny definition without the ones below it. -/
structure ZnunySpec where
  key : Text
  countMax : Raw
  valueDefault : Raw
  inputType : Option Text

inductive ZnunyAttribute
  | mk (spec : ZnunySpec) (sub : List ZnunyAttribute)

namespace ZnunyAttribute

def spec : ZnunyAttribute → ZnunySpec
  | .mk spec _ => spec

def sub : ZnunyAttribute → List ZnunyAttribute
  | .mk _ sub => sub

def key (a : ZnunyAttribute) : Text := a.spec.key

end ZnunyAttribute

def maxCount : ℤ := 10000

section Merge

variable (print : Raw → Text) (int : Raw → Option ℤ) (customerLookup : Option (Text → List Text))
  (stringified : Dict) (original : List (Text × Text))

/-- The counters of an attribute; `int` is `none` where it raises an error. -/
def countMax (raw : Raw) : ℕ :=
  (min ((if raw.truthy then int raw else some 0).getD 0) maxCount).toNat

def isScalar : Raw → Bool
  | .str _ | .int _ | .bool _ => true
  | _ => false

/-- The value that a `Customer` input gets for a login. -/
def customerValue (spec : ZnunySpec) (value old : Raw) : Raw :=
  match customerLookup.elim [] fun lookup ↦ lookup (text print value) with
  | [login] => .str login
  | _ => if perlTruthy old then old else spec.valueDefault

/-- The value of an entry before lists and customers are looked into. -/
def mergedValue (spec : ZnunySpec) (new old : Raw) : Raw :=
  if ¬ new.isNull ∧ text print new = [] then .str []
  else if perlTruthy new then new
  else if perlTruthy old then old
  else spec.valueDefault

/-- The value of an entry: the n-th of a list, the login of a customer. -/
def finalValue (spec : ZnunySpec) (old : Raw) (counter : ℕ) : Raw → Option Raw
  | .list items => items[counter - 1]?.filter perlTruthy
  | value =>
    if isScalar value ∧ text print value ≠ [] ∧ spec.inputType = some "Customer".toList then
      some (customerValue print customerLookup spec value old)
    else some value

/-- The value of an entry; `none` when it is left out. -/
def itemValue (spec : ZnunySpec) (new old : Raw) (counter : ℕ) : Option Raw :=
  if ¬ perlTruthy new ∧ ¬ perlTruthy old then none
  else finalValue print customerLookup spec old counter (mergedValue print spec new old)

def asText : Raw → Raw
  | .null => .null
  | value => .str (str print value)

def oldOf (key : Text) : Raw := (original.lookup key).elim .null .str

/-- `result.setdefault(key, []).append(entry)` for each entry. -/
def addEntries (result : Dict) (key : Text) (entries : List Raw) : Dict :=
  if entries.isEmpty then result
  else setItem result key (.list ((match result.lookup key with
    | some (.list before) => before
    | _ => []) ++ entries))

mutual

def mergeAttrs : List ZnunyAttribute → Text → Dict → Dict
  | [], _, result => result
  | a :: definition, start, result =>
    mergeAttrs definition start (addEntries result a.key (mergeAttr a start))

def mergeAttr : ZnunyAttribute → Text → List Raw
  | .mk spec sub, start =>
    if spec.key = [] then []
    else (List.range' 1 (countMax int spec.countMax)).filterMap fun counter ↦
      let key := flatKey (start ++ spec.key) counter
      (itemValue print customerLookup spec ((stringified.lookup key).getD .null)
        (oldOf original key) counter).map fun value ↦
          .dict (setItem (if perlTruthy value ∧ ¬ sub.isEmpty then mergeAttrs sub (subStart key) []
            else []) "Content".toList (asText print value))

end

def stringifiedToXmldata (definition : List ZnunyAttribute) : Dict :=
  mergeAttrs print int customerLookup stringified original definition [] []

end Merge

/-- A key that does not contain the separator. -/
def Plain (key : Text) : Prop := ¬ [':', ':'] <:+: key

/-- What follows the counter of an entry. -/
def Tail (t : Text) : Prop := t = [] ∨ ∃ r, t = ':' :: ':' :: r

/-- The sub attributes of an entry. -/
def rest (d : Dict) : Dict := d.filter fun kv ↦ kv.1 ≠ "Content".toList

variable {print : Raw → Text} {k k' t t' start path key c : Text} {n m counter : ℕ} {x d : Dict}
  {p : Text × Text}

section Rest

variable {kv : Text × Raw}

theorem rest_cons_of_eq (h : kv.1 = "Content".toList) : rest (kv :: d) = rest d :=
  List.filter_cons_of_neg fun hne ↦ of_decide_eq_true (p := kv.1 ≠ "Content".toList) hne h

theorem rest_cons_of_ne (h : kv.1 ≠ "Content".toList) : rest (kv :: d) = kv :: rest d :=
  List.filter_cons_of_pos (decide_eq_true (p := kv.1 ≠ "Content".toList) h)

theorem mem_rest : kv ∈ rest d ↔ kv ∈ d ∧ kv.1 ≠ "Content".toList := by
  rw [rest, List.mem_filter, decide_eq_true_eq]

end Rest

section Keys

theorem toDigits_tail_inj (h : Nat.toDigits 10 n ++ t = Nat.toDigits 10 m ++ t') (ht : Tail t)
    (ht' : Tail t') : n = m ∧ t = t' := by
  have hstop : ∀ {t : Text}, Tail t → ∀ c ∈ t.head?, c.isDigit = false := by
    rintro t (rfl | ⟨r, rfl⟩) c hc
    · cases hc
    · cases hc
      rfl
  obtain ⟨htake, hdrop⟩ := takeWhile_dropWhile_stop (ascii_toDigits n) (hstop ht)
  obtain ⟨htake', hdrop'⟩ := takeWhile_dropWhile_stop (ascii_toDigits m) (hstop ht')
  rw [h] at htake hdrop
  have hdigits : Nat.toDigits 10 n = Nat.toDigits 10 m := htake.symm.trans htake'
  refine ⟨?_, hdrop.symm.trans hdrop'⟩
  rw [← Nat.ofDigitChars_ten_toDigits (n := n), hdigits, Nat.ofDigitChars_ten_toDigits]

/-- A key that is longer by something contains the separator. -/
theorem flatKey_shift {u : Text} (h : flatKey k n ++ t = flatKey (k ++ u) m ++ t')
    (hk : Plain (k ++ u)) : u = [] := by
  rw [flatKey, flatKey, List.append_assoc, List.append_assoc, List.append_assoc,
    List.append_cancel_left_eq] at h
  have hdigit : ∀ r s : Text, Nat.toDigits 10 n ++ r ≠ ':' :: s := by
    intro r s heq
    cases hdigits : Nat.toDigits 10 n with
    | nil => exact Nat.toDigits_ne_nil hdigits
    | cons c ds =>
      have hc := ascii_toDigits n c (hdigits ▸ List.mem_cons_self)
      rw [hdigits] at heq
      rw [(List.cons.inj heq).1] at hc
      cases hc
  rcases u with _ | ⟨c₁, _ | ⟨c₂, u⟩⟩
  · rfl
  · exact absurd (List.cons.inj (List.cons.inj h).2).2 (hdigit _ _)
  · obtain ⟨rfl, htail⟩ := List.cons.inj h
    obtain ⟨rfl, -⟩ := List.cons.inj htail
    exact absurd ⟨k, u, by simp⟩ hk

theorem flatKey_inj (hk : Plain k) (hk' : Plain k') (ht : Tail t) (ht' : Tail t')
    (h : flatKey k n ++ t = flatKey k' m ++ t') : k = k' ∧ n = m ∧ t = t' := by
  have hkey : k = k' := by
    have hflat := h
    rw [flatKey, flatKey, List.append_assoc, List.append_assoc] at hflat
    rcases List.append_eq_append_iff.1 hflat with ⟨u, rfl, -⟩ | ⟨u, rfl, -⟩
    · rw [flatKey_shift h hk', List.append_nil]
    · rw [flatKey_shift h.symm hk, List.append_nil]
  subst hkey
  rw [flatKey, flatKey, List.append_assoc, List.append_assoc, List.append_cancel_left_eq] at h
  exact ⟨rfl, toDigits_tail_inj (List.cons.inj (List.cons.inj h).2).2 ht ht'⟩

theorem flatKey_append : flatKey (start ++ k) n = start ++ flatKey k n := List.append_assoc _ _ _

theorem subStart_append : subStart key ++ t = key ++ ':' :: ':' :: t := List.append_assoc _ _ _

end Keys

section Pairs

theorem mem_inOrder {found : List (Text × List (Text × Text))} :
    p ∈ inOrder found ↔ ∃ f ∈ found, p ∈ f.2 := by
  rw [inOrder, List.mem_flatMap]
  simp only [List.mem_mergeSort]

theorem stringifyItems_eq : stringifyItems print x start =
    x.map fun kv ↦ (kv.1, stringifyValue print kv.2 (start ++ kv.1)) := by
  induction x with
  | nil => rfl
  | cons kv x ih => rw [stringifyItems, ih]; rfl

theorem mem_stringify : p ∈ stringify print x start ↔
    ∃ kv ∈ x, p ∈ stringifyValue print kv.2 (start ++ kv.1) := by
  rw [stringify, mem_inOrder, stringifyItems_eq]
  simp only [List.mem_map, exists_exists_and_eq_and]

theorem inOrder_sub : inOrder ((stringifyItems print d start).filter isSub) =
    stringify print (rest d) start := by
  rw [stringify, stringifyItems_eq, stringifyItems_eq, List.filter_map]
  rfl

mutual

theorem stringifyItems_start : ∀ (items : List (Text × Raw)) (start : Text),
    ∀ found ∈ stringifyItems print items start, ∀ p ∈ found.2, ∃ t, p.1 = start ++ t
  | [], _, _, hfound => absurd hfound List.not_mem_nil
  | (item, value) :: items, start, found, hfound => by
    rw [stringifyItems] at hfound
    rcases List.mem_cons.1 hfound with rfl | hfound
    · intro p hp
      obtain ⟨t, ht⟩ := stringifyValue_start value (start ++ item) p hp
      exact ⟨item ++ t, ht.trans (List.append_assoc _ _ _)⟩
    · exact stringifyItems_start items start found hfound

theorem stringifyValue_start : ∀ (value : Raw) (path : Text),
    ∀ p ∈ stringifyValue print value path, ∃ t, p.1 = path ++ t
  | .list entries, path, p, hp => stringifyEntries_start entries path 1 p hp
  | .null, _, _, hp | .bool _, _, _, hp | .int _, _, _, hp | .float _, _, _, hp
  | .str _, _, _, hp | .dict _, _, _, hp => absurd hp List.not_mem_nil

theorem stringifyEntries_start : ∀ (entries : List Raw) (path : Text) (counter : ℕ),
    ∀ p ∈ stringifyEntries print entries path counter, ∃ t, p.1 = path ++ t
  | [], _, _, _, hp => absurd hp List.not_mem_nil
  | .dict d :: entries, path, counter, p, hp => by
    rw [stringifyEntries] at hp
    rcases List.mem_append.1 hp with hp | hp
    · rcases List.mem_append.1 hp with hp | hp
      · rw [contentPair] at hp
        split at hp
        · rw [List.mem_singleton.1 hp]
          exact ⟨_, rfl⟩
        · cases hp
      · obtain ⟨found, hfound, hp⟩ := mem_inOrder.1 hp
        obtain ⟨t, ht⟩ := stringifyItems_start d _ found (List.mem_of_mem_filter hfound) p hp
        rw [subStart, flatKey, List.append_assoc, List.append_assoc] at ht
        exact ⟨_, ht⟩
    · exact stringifyEntries_start entries path (counter + 1) p hp
  | .null :: entries, path, counter, p, hp | .bool _ :: entries, path, counter, p, hp
  | .int _ :: entries, path, counter, p, hp | .float _ :: entries, path, counter, p, hp
  | .str _ :: entries, path, counter, p, hp | .list _ :: entries, path, counter, p, hp =>
    stringifyEntries_start entries path counter p hp

end

theorem stringify_start (h : p ∈ stringify print x start) : ∃ t, p.1 = start ++ t := by
  obtain ⟨found, hfound, hp⟩ := mem_inOrder.1 h
  exact stringifyItems_start x start found hfound p hp

/-- The pairs of one entry. -/
def entryPairs (print : Raw → Text) (key : Text) (d : Dict) : List (Text × Text) :=
  contentPair print key (get d "Content") ++ stringify print (rest d) (subStart key)

theorem stringifyEntries_dicts (ds : List Dict) :
    stringifyEntries print (ds.map .dict) path counter =
      (ds.zipIdx counter).flatMap fun q ↦ entryPairs print (flatKey path q.2) q.1 := by
  induction ds generalizing counter with
  | nil => rfl
  | cons d ds ih =>
    rw [List.map_cons, stringifyEntries, ih, List.zipIdx_cons, List.flatMap_cons, inOrder_sub]
    rfl

/-- Every pair of an entry has the key of the entry and something behind it. -/
theorem entryPairs_key (h : p ∈ entryPairs print key d) : ∃ t, p.1 = key ++ t ∧ Tail t ∧
    ((t = [] ∧ p ∈ contentPair print key (get d "Content")) ∨
      ∃ r, t = ':' :: ':' :: r ∧ p ∈ stringify print (rest d) (subStart key)) := by
  rcases List.mem_append.1 h with h | h
  · have hkey : p.1 = key := by
      rw [contentPair] at h
      split at h
      · rw [List.mem_singleton.1 h]
      · cases h
    exact ⟨[], by rw [hkey, List.append_nil], .inl rfl, .inl ⟨rfl, h⟩⟩
  · obtain ⟨r, hr⟩ := stringify_start h
    rw [subStart_append] at hr
    exact ⟨_, hr, .inr ⟨r, rfl⟩, .inr ⟨r, rfl, h⟩⟩

end Pairs

end Tiqora.Itsm.ZnunyFormat
