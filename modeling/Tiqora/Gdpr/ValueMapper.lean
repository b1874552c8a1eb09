import Mathlib.Data.Int.Notation
import Mathlib.Data.List.Basic
import Mathlib.Data.Nat.Find
import Tiqora.Foundation.Text

namespace Tiqora.Gdpr.Anonymize

abbrev Text := List Char

inductive Kind
  | firstName
  | lastName
  | email
  | login
  | company
  | phone
  | street
  | city
  | zip
  | country
  deriving DecidableEq

/-- The kinds of columns whose values must differ. -/
def Kind.isUnique : Kind → Bool
  | .company | .login | .email => true
  | _ => false

/-- What is hashed for a draw: the original, with the number of the attempt from the second on. -/
def salt (original : Text) (attempt : ℕ) : Text :=
  if attempt = 0 then original else original ++ '#' :: Nat.toDigits 10 attempt

theorem salt_injective (original : Text) : Function.Injective (salt original) := by
  intro n m h
  have hlength := congrArg List.length h
  rw [salt, salt] at h hlength
  split at h <;> split at h
  · next hn hm => exact hn.trans hm.symm
  · next hn hm =>
    rw [if_pos hn, if_neg hm, List.length_append, List.length_cons] at hlength
    omega
  · next hn hm =>
    rw [if_neg hn, if_pos hm, List.length_append, List.length_cons] at hlength
    omega
  · have hdigits := (List.cons.inj (List.append_cancel_left h)).2
    have hvalue := congrArg (fun s ↦ Nat.ofDigitChars 10 s 0) hdigits
    rwa [Nat.ofDigitChars_toDigits (by decide) (by decide),
      Nat.ofDigitChars_toDigits (by decide) (by decide)] at hvalue

/-- What Faker draws for a seed, and what `email.utils` reads and writes. -/
structure Faker where
  draw : ℤ → Kind → Text → Text
  /-- Some attempt draws a value that was not given away. -/
  fresh : ∀ seed kind original (used : List Text),
    ∃ attempt, draw seed kind (salt original attempt) ∉ used
  fullName : ℤ → Text → Text
  /-- A line of at most some length in the place of a line of a body. -/
  line : ℤ → Text → ℕ → ℕ → Text
  getaddresses : Text → List (Text × Text)
  formataddr : Text × Text → Text
  /-- A text in its parts, those that are e-mail addresses on the right. -/
  addressParts : Text → List (Text ⊕ Text)

structure Mapper where
  seed : ℤ
  cache : List ((Kind × Text) × Text)
  used : List (Kind × Text)

/-- The seed is zero where none is given. -/
def Mapper.new (seed : Option ℤ) : Mapper := ⟨seed.getD 0, [], []⟩

/-- The values of a kind that were given away. -/
def Mapper.taken (m : Mapper) (kind : Kind) : List Text :=
  (m.used.filter fun p ↦ p.1 = kind).map Prod.snd

section Values

variable (faker : Faker)

/-- The first draw that no other value of a unique kind has got. -/
def drawn (m : Mapper) (kind : Kind) (original : Text) : Text :=
  if kind.isUnique then
    let attempt := Nat.find (faker.fresh m.seed kind original (m.taken kind))
    faker.draw m.seed kind (salt original attempt)
  else faker.draw m.seed kind original

def mapText (m : Mapper) (original : Text) (kind : Kind) : Text × Mapper :=
  if original = [] then (original, m)
  else match m.cache.lookup (kind, original) with
    | some value => (value, m)
    | none =>
      let value := drawn faker m kind original
      (value, { m with
        cache := ((kind, original), value) :: m.cache
        used := if kind.isUnique then (kind, value) :: m.used else m.used })

def mapValue (m : Mapper) (original : Option Text) (kind : Kind) : Option Text × Mapper :=
  match original with
  | none => (none, m)
  | some original => ((some (mapText faker m original kind).1), (mapText faker m original kind).2)

def displayName (m : Mapper) (name : Text) : Text :=
  if name = [] then name else faker.fullName m.seed name

/-- The pairs of a list of addresses, written again. -/
def mapPairs : Mapper → List (Text × Text) → List Text × Mapper
  | m, [] => ([], m)
  | m, (name, address) :: pairs =>
    let (address, m') := mapText faker m address .email
    let (parts, m'') := mapPairs m' pairs
    (faker.formataddr (displayName faker m name, address) :: parts, m'')

def mapParts : Mapper → List (Text ⊕ Text) → List Text × Mapper
  | m, [] => ([], m)
  | m, .inl plain :: parts =>
    let (rest, m') := mapParts m parts
    (plain :: rest, m')
  | m, .inr address :: parts =>
    let (address, m') := mapText faker m address .email
    let (rest, m'') := mapParts m' parts
    (address :: rest, m'')

def anonymizeAddresses (m : Mapper) (value : Text) : Text × Mapper :=
  let pairs := faker.getaddresses value
  if pairs.all fun p ↦ p.1 = [] && p.2 = [] then
    let (parts, m') := mapParts faker m (faker.addressParts value)
    (parts.flatten, m')
  else
    let (parts, m') := mapPairs faker m pairs
    ([',', ' '].intercalate parts, m')

def anonymizeAddressField (m : Mapper) (value : Option Text) : Option Text × Mapper :=
  match value with
  | none => (none, m)
  | some value =>
    if value = [] then (some value, m)
    else (some (anonymizeAddresses faker m value).1, (anonymizeAddresses faker m value).2)

/-- The lines keep their lengths. -/
def anonymizeBody (m : Mapper) (value : Option Text) : Option Text :=
  value.map fun value ↦
    if value = [] then value
    else
      let lines := (value.splitOn '\n').mapIdx fun i line ↦
        if line = [] then [] else (faker.line m.seed value i (max line.length 5)).take line.length
      ['\n'].intercalate lines

end Values

/-- No two values of a unique kind have the same first draw. -/
def Clashless (faker : Faker) (seed : ℤ) (values : List (Kind × Text)) : Prop :=
  ∀ p ∈ values, ∀ q ∈ values, p.1 = q.1 → p.1.isUnique = true →
    faker.draw seed p.1 p.2 = faker.draw seed q.1 q.2 → p.2 = q.2

instance (faker : Faker) (seed : ℤ) (values : List (Kind × Text)) :
    Decidable (Clashless faker seed values) :=
  inferInstanceAs (Decidable (∀ p ∈ values, ∀ q ∈ values, p.1 = q.1 → p.1.isUnique = true →
    faker.draw seed p.1 p.2 = faker.draw seed q.1 q.2 → p.2 = q.2))

/-- What a value becomes at the first draw. -/
def replaced (faker : Faker) (seed : ℤ) (kind : Kind) (v : Text) : Text :=
  if v = [] then v else faker.draw seed kind v

/-- The mapper has given away first draws of the values only. -/
structure Mapper.Holds (m : Mapper) (faker : Faker) (seed : ℤ) (values : List (Kind × Text)) :
    Prop where
  seeded : m.seed = seed
  cached : ∀ e ∈ m.cache, e.1 ∈ values ∧ e.2 = faker.draw seed e.1.1 e.1.2
  given : ∀ u ∈ m.used, ∃ v, ((u.1, v), u.2) ∈ m.cache

namespace Mapper.Holds

variable {faker : Faker} {seed : ℤ} {values : List (Kind × Text)} {m : Mapper} {kind : Kind}
  {v : Text}

theorem new (seed : Option ℤ) : (Mapper.new seed).Holds faker (seed.getD 0) values :=
  ⟨rfl, fun _ h ↦ absurd h List.not_mem_nil, fun _ h ↦ absurd h List.not_mem_nil⟩

theorem drawn_of_taken (h : m.Holds faker seed values)
    (hfree : kind.isUnique = true → faker.draw seed kind v ∉ m.taken kind) :
    drawn faker m kind v = faker.draw seed kind v := by
  have hseed := h.seeded
  subst hseed
  rw [drawn]
  split
  · next hunique =>
    have hfirst : Nat.find (faker.fresh m.seed kind v (m.taken kind)) = 0 := by
      rw [Nat.find_eq_zero]
      exact hfree hunique
    dsimp only
    rw [hfirst, salt, if_pos rfl]
  · rfl

theorem not_taken (h : m.Holds faker seed values) (hclash : Clashless faker seed values)
    (hv : (kind, v) ∈ values) (hnone : m.cache.lookup (kind, v) = none)
    (hunique : kind.isUnique = true) : faker.draw seed kind v ∉ m.taken kind := by
  intro hmem
  obtain ⟨u, hu, hdraw⟩ := List.mem_map.1 hmem
  obtain ⟨hu, hkind⟩ := List.mem_filter.1 hu
  obtain ⟨w, hw⟩ := h.given u hu
  have hcached := h.cached _ hw
  rw [of_decide_eq_true hkind] at hcached hw
  have hwv : w = v := hclash (kind, w) hcached.1 (kind, v) hv rfl hunique
    (hcached.2.symm.trans hdraw)
  have hne := List.lookup_eq_none_iff.1 hnone _ hw
  rw [hwv, bne_self_eq_false] at hne
  cases hne

theorem mapText_eq (h : m.Holds faker seed values) (hclash : Clashless faker seed values)
    (hv : v ≠ [] → (kind, v) ∈ values) :
    (mapText faker m v kind).1 = replaced faker seed kind v ∧
      (mapText faker m v kind).2.Holds faker seed values := by
  rw [mapText, replaced]
  split
  · exact ⟨rfl, h⟩
  · next hne =>
    cases hlookup : m.cache.lookup (kind, v) with
    | some value =>
      obtain ⟨l₁, l₂, hcache, -⟩ := List.lookup_eq_some_iff.1 hlookup
      have hmem : ((kind, v), value) ∈ m.cache := by
        rw [hcache]
        exact List.mem_append_right l₁ List.mem_cons_self
      exact ⟨(h.cached _ hmem).2, h⟩
    | none =>
      have hdrawn := h.drawn_of_taken (h.not_taken hclash (hv hne) hlookup)
      refine ⟨hdrawn, h.seeded, List.forall_mem_cons.2 ⟨⟨hv hne, hdrawn⟩, h.cached⟩, ?_⟩
      intro u hu
      dsimp only at hu
      split at hu
      · rcases List.mem_cons.1 hu with rfl | hu
        · exact ⟨v, List.mem_cons_self⟩
        · obtain ⟨w, hw⟩ := h.given u hu
          exact ⟨w, List.mem_cons_of_mem _ hw⟩
      · obtain ⟨w, hw⟩ := h.given u hu
        exact ⟨w, List.mem_cons_of_mem _ hw⟩

theorem mapValue_eq {original : Option Text} (h : m.Holds faker seed values)
    (hclash : Clashless faker seed values)
    (hv : ∀ v ∈ original, v ≠ [] → (kind, v) ∈ values) :
    (mapValue faker m original kind).1 = original.map (replaced faker seed kind) ∧
      (mapValue faker m original kind).2.Holds faker seed values := by
  cases original with
  | none => exact ⟨rfl, h⟩
  | some v =>
    obtain ⟨heq, hholds⟩ := h.mapText_eq hclash (hv v rfl)
    exact ⟨congrArg some heq, hholds⟩

/-- A value of a kind that was not asked for yet. -/
theorem mapText_other (h : m.Holds faker seed values) (hkind : ∀ p ∈ values, p.1 ≠ kind) :
    (mapText faker m v kind).1 = replaced faker seed kind v := by
  rw [mapText, replaced]
  split
  · rfl
  · have hkeys : ∀ e ∈ m.cache, e.1.1 ≠ kind := fun e he ↦ hkind e.1 (h.cached e he).1
    have hnone : m.cache.lookup (kind, v) = none := by
      refine List.lookup_eq_none_iff.2 fun e he ↦ bne_iff_ne.2 fun heq ↦ ?_
      exact hkeys e he (congrArg Prod.fst heq.symm)
    rw [hnone]
    refine h.drawn_of_taken fun _ hmem ↦ ?_
    obtain ⟨u, hu, -⟩ := List.mem_map.1 hmem
    obtain ⟨hu, hu'⟩ := List.mem_filter.1 hu
    obtain ⟨w, hw⟩ := h.given u hu
    exact hkeys _ hw (of_decide_eq_true hu')

end Mapper.Holds

end Tiqora.Gdpr.Anonymize
