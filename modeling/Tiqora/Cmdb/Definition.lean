import Mathlib.Data.Int.Notation
import Tiqora.Foundation.Decimal

namespace Tiqora.Cmdb.Definition

open Foundation

abbrev Text := List Char

inductive AttributeType
  | text | textarea | integer | decimal | date | datetime | catalog | ciRef | customerUser
  | customerCompany | agent | service | sla | queue | priority | ticketType | state | url | email
  | ip | mac | money | attachment | group
  deriving DecidableEq

structure AttributeOptions where
  maxLength : Option ℤ
  min : Option Decimal
  max : Option Decimal
  currency : Option Text
  catalogClass : Option Text
  classKeys : List Text

inductive Default
  | str (s : Text)
  | int (n : ℤ)

/-- An attribute without the ones below it. -/
structure AttributeSpec where
  key : Text
  name : Text
  type : AttributeType
  required : Bool
  searchable : Bool
  countMin : ℤ
  countMax : ℤ
  countDefault : ℤ
  default : Option Default
  help : Option Text
  options : AttributeOptions

inductive AttributeDef
  | mk (spec : AttributeSpec) (sub : List AttributeDef)

namespace AttributeDef

def spec : AttributeDef → AttributeSpec
  | .mk spec _ => spec

def sub : AttributeDef → List AttributeDef
  | .mk _ sub => sub

def key (a : AttributeDef) : Text := a.spec.key

end AttributeDef

structure DefinitionIssue where
  path : Text
  code : String
  message : String
  deriving DecidableEq

def maxDepth : ℕ := 5

def maxCount : ℤ := 100

def maxAttributes : ℕ := 500

/-- The types whose stored value is an integer id. -/
def AttributeType.isIntId : AttributeType → Bool
  | .catalog | .ciRef | .agent | .service | .sla | .queue | .priority | .ticketType | .state
  | .attachment => true
  | _ => false

/-- What `$` may leave out at the end. -/
def chomp (s : Text) : Text := if s.getLast? = some '\n' then s.dropLast else s

def isKey (key : Text) : Bool :=
  match chomp key with
  | [] => false
  | c :: s => c.isAlpha && s.all (fun c ↦ c.isAlphanum || c = '_') && s.length ≤ 63

def isCurrency (s : Text) : Bool := (chomp s).length = 3 && (chomp s).all Char.isUpper

/-- The pattern `\d{4}-\d{2}-\d{2}`. -/
def isDatePattern (s : Text) : Bool :=
  match s with
  | [y, e, a, r, '-', m, o, '-', d, t] => [y, e, a, r, m, o, d, t].all isDigit
  | _ => false

/-- The pattern `[+-]?\d+` for a text without white space at its ends. -/
def isIntPattern (s : Text) : Bool := (readSign s).2 ≠ [] && (readSign s).2.all isDigit

def defaultOk (spec : AttributeSpec) : Bool :=
  match spec.default with
  | none => true
  | some d =>
    match spec.type, d with
    | .group, _ | .attachment, _ => false
    | .decimal, .int _ | .money, .int _ => true
    | .decimal, .str s | .money, .str s => (Decimal.read (strip s)).isSome
    | .date, .int _ => false
    | .date, .str s => isDatePattern (chomp s)
    | type, d =>
      if type = .integer ∨ type.isIntId = true then
        match d with
        | .int _ => true
        | .str s => isIntPattern (strip s)
      else true

section Validate

variable (knownCatalogClasses knownClassKeys : List Text)

/-- What is wrong with one attribute. -/
def specIssues (spec : AttributeSpec) (childless : Bool) (path : Text) (depth : ℕ) :
    List DefinitionIssue :=
  (if isKey spec.key then [] else
    [⟨path, "bad_key", "Der Schlüssel muss mit einem Buchstaben beginnen (A-Z, 0-9, _)."⟩]) ++
  (if 1 ≤ spec.name.length ∧ spec.name.length ≤ 200 then [] else
    [⟨path, "bad_name", "Die Bezeichnung muss 1 bis 200 Zeichen lang sein."⟩]) ++
  (if spec.help.any fun help ↦ 500 < help.length then
    [⟨path, "bad_name", "Der Hilfetext darf höchstens 500 Zeichen lang sein."⟩] else []) ++
  (if maxDepth < depth then [⟨path, "depth", "Höchstens 5 Ebenen sind erlaubt."⟩] else []) ++
  (if 1 ≤ spec.countMax ∧ spec.countMax ≤ maxCount ∧ 0 ≤ spec.countMin ∧
      spec.countMin ≤ spec.countMax ∧ spec.countMin ≤ spec.countDefault ∧
        spec.countDefault ≤ spec.countMax then [] else
    [⟨path, "count_range", "Anzahl: 0 <= min <= Standard <= max <= 100 muss gelten."⟩]) ++
  (if spec.type = .group ∧ childless then
    [⟨path, "group_without_sub", "Eine Gruppe braucht mindestens ein Unterattribut."⟩] else []) ++
  (if spec.searchable ∧ (spec.type = .group ∨ spec.type = .attachment) then
    [⟨path, "searchable_not_allowed", "Dieser Typ kann nicht durchsucht werden."⟩] else []) ++
  (if spec.type = .catalog ∧ ¬ spec.options.catalogClass.any (· ∈ knownCatalogClasses) then
    [⟨path, "catalog_class_missing", "Die Katalogklasse fehlt oder ist unbekannt."⟩] else []) ++
  (if spec.type = .ciRef then (spec.options.classKeys.filter (· ∉ knownClassKeys)).map fun k ↦
    ⟨path, "unknown_class_key", "Unbekannte Klasse: " ++ String.ofList k⟩ else []) ++
  (if spec.type = .money ∧ spec.options.currency.any (fun cur ↦ ¬ isCurrency cur) then
    [⟨path, "bad_currency", "Die Währung muss ein ISO-4217-Code sein (z. B. EUR)."⟩] else []) ++
  (if defaultOk spec then [] else
    [⟨path, "bad_default", "Der Standardwert passt nicht zum Typ."⟩])

mutual

def check : AttributeDef → Text → ℕ → List DefinitionIssue
  | .mk spec sub, path, depth =>
    specIssues knownCatalogClasses knownClassKeys spec sub.isEmpty path depth ++
      checkAll sub (path ++ ['.']) (depth + 1) []

def checkAll : List AttributeDef → Text → ℕ → List Text → List DefinitionIssue
  | [], _, _, _ => []
  | a :: attrs, start, depth, seen =>
    (if a.key ∈ seen then
      [⟨start ++ a.key, "duplicate_key", "Doppelter Schlüssel: " ++ String.ofList a.key⟩] else []) ++
    check a (start ++ a.key) depth ++ checkAll attrs start depth (a.key :: seen)

end

mutual

def countAttrs : List AttributeDef → ℕ
  | [] => 0
  | a :: attrs => countAttr a + countAttrs attrs

def countAttr : AttributeDef → ℕ
  | .mk _ sub => countAttrs sub + 1

end

def validateDefinition (attrs : List AttributeDef) : List DefinitionIssue :=
  (if maxAttributes < countAttrs attrs then
    [⟨[], "too_many", "Mehr als 500 Attribute."⟩] else []) ++
  checkAll knownCatalogClasses knownClassKeys attrs [] 1 []

end Validate

/-- No two attributes of a level have the same key. -/
inductive DistinctKeys : List AttributeDef → Prop
  | intro {attrs : List AttributeDef} : (attrs.map (·.key)).Nodup →
      (∀ a ∈ attrs, DistinctKeys a.sub) → DistinctKeys attrs

variable {knownCatalogClasses knownClassKeys : List Text}

mutual

theorem check_distinct {path : Text} {depth : ℕ} : ∀ a : AttributeDef,
    check knownCatalogClasses knownClassKeys a path depth = [] → DistinctKeys a.sub
  | .mk spec sub => fun h ↦ by
    rw [check, List.append_eq_nil_iff] at h
    exact .intro (checkAll_distinct sub h.2).1 (checkAll_distinct sub h.2).2.2

theorem checkAll_distinct {start : Text} {depth : ℕ} {seen : List Text} :
    ∀ attrs : List AttributeDef,
      checkAll knownCatalogClasses knownClassKeys attrs start depth seen = [] →
        (attrs.map (·.key)).Nodup ∧ (∀ a ∈ attrs, a.key ∉ seen) ∧
          ∀ a ∈ attrs, DistinctKeys a.sub
  | [] => fun _ ↦ ⟨.nil, fun _ ha ↦ absurd ha List.not_mem_nil, fun _ ha ↦ absurd ha List.not_mem_nil⟩
  | a :: attrs => fun h ↦ by
    rw [checkAll, List.append_eq_nil_iff, List.append_eq_nil_iff] at h
    obtain ⟨⟨hseen, hcheck⟩, hrest⟩ := h
    have hkey : a.key ∉ seen := fun hmem ↦ by
      rw [if_pos hmem] at hseen
      cases hseen
    obtain ⟨hnodup, hout, hsub⟩ := checkAll_distinct attrs hrest
    have hcheck := check_distinct a hcheck
    refine ⟨?_, ?_, ?_⟩
    · rw [List.map_cons, List.nodup_cons]
      refine ⟨fun hmem ↦ ?_, hnodup⟩
      obtain ⟨b, hb, heq⟩ := List.mem_map.1 hmem
      exact hout b hb (heq ▸ List.mem_cons_self)
    · exact List.forall_mem_cons.2 ⟨hkey, fun b hb hmem ↦ hout b hb (List.mem_cons_of_mem _ hmem)⟩
    · exact List.forall_mem_cons.2 ⟨hcheck, hsub⟩

end

/-- An accepted definition has distinct keys at every level. -/
theorem validateDefinition_distinct {attrs : List AttributeDef}
    (h : validateDefinition knownCatalogClasses knownClassKeys attrs = []) : DistinctKeys attrs := by
  rw [validateDefinition, List.append_eq_nil_iff] at h
  obtain ⟨hnodup, -, hsub⟩ := checkAll_distinct attrs h.2
  exact .intro hnodup hsub

end Tiqora.Cmdb.Definition
