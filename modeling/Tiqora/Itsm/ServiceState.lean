import Mathlib.Tactic.SplitIfs
import Tiqora.Foundation.Tables
import Tiqora.Foundation.Worklist

namespace Tiqora.Itsm.ServiceState

open Foundation

inductive ServiceState
  | operational
  | warning
  | incident
  deriving DecidableEq

structure ServiceFold where
  state : ServiceState
  hasCis : Bool
  cisIncident : ℕ
  cisWarning : ℕ
  deriving DecidableEq

/-- None for a service that is operational only because nothing is linked to it. -/
def ServiceFold.shown (fold : ServiceFold) : Option ServiceState :=
  if fold.state = .operational ∧ fold.hasCis = false then none else some fold.state

structure Service where
  name : List Char
  valid : Bool
  deriving DecidableEq

/-- The services by their ids. -/
abbrev Services := Table ℕ Service

/-- `str.rpartition("::")`, none without the separator. -/
def rpartition : List Char → Option (List Char × List Char)
  | [] => none
  | c :: s =>
    match rpartition s with
    | some (before, after) => some (c :: before, after)
    | none => if c = ':' ∧ s.head? = some ':' then some ([], s.drop 1) else none

/-- `str.count("::")`. -/
def countSep : List Char → ℕ
  | ':' :: ':' :: s => countSep s + 1
  | _ :: s => countSep s
  | [] => 0

def parentName (name : List Char) : Option (List Char) := (rpartition name).map Prod.fst

/-- The valid children of a name. -/
def childrenOf (services : Services) (name : List Char) : List ℕ :=
  (services.rows.filter fun r ↦ r.2.valid && parentName r.2.name = some name).map Prod.fst

def expansion (services : Services) : Expansion ℕ where
  next sid := (services.find sid).map fun service ↦ childrenOf services service.name
  known := (services.rows.map Prod.fst).toFinset
  known_of_next sid cs h := by
    obtain ⟨service, hservice, -⟩ := Option.map_eq_some_iff.1 h
    exact List.mem_toFinset.2 (List.mem_map.2 ⟨_, Table.find_eq_some.1 hservice, rfl⟩)

def serviceClosure (services : Services) (wanted : List ℕ) : Finset ℕ :=
  (expansion services).run (wanted.filter fun sid ↦ (services.find sid).isSome).reverse ∅

def depth (services : Services) (sid : ℕ) : ℕ :=
  ((services.find sid).map fun service ↦ countSep service.name).getD 0

section Fold

variable (services : Services) (childrenOf : List Char → List ℕ)
  (counted : ℕ → List (Option String)) (linked : ℕ → Bool)

/-- Whether a child that is finished is not operational. -/
def raised (final : Table ℕ ServiceFold) (child : ℕ) : Bool :=
  (final.find child).any fun fold ↦ fold.state ≠ .operational

def foldOne (final : Table ℕ ServiceFold) (sid : ℕ) : Option (Table ℕ ServiceFold) := do
  let service ← services.find sid
  let nIncident := (counted sid).countP (· = some "incident")
  let nWarning := (counted sid).countP (· = some "warning")
  let state :=
    if nIncident ≠ 0 then .incident
    else if nWarning ≠ 0 then .warning
    else if (childrenOf service.name).any (raised final) then .warning
    else .operational
  return final.set sid (some ⟨state, linked sid, nIncident, nWarning⟩)

/-- The services of a closure, deepest first; none stands for a missing key. -/
def foldServiceStates (closure : List ℕ) : Option (Table ℕ ServiceFold) :=
  (closure.mergeSort fun a b ↦ depth services b ≤ depth services a).foldlM
    (foldOne services childrenOf counted linked) Table.empty

end Fold

section Names

variable {c : Char} {s before after : List Char}

theorem countSep_cons : countSep (c :: s) =
    if c = ':' ∧ s.head? = some ':' then countSep s.tail + 1 else countSep s := by
  cases s with
  | nil => simp [countSep]
  | cons d s =>
    by_cases h : c = ':' ∧ d = ':'
    · obtain ⟨rfl, rfl⟩ := h
      rfl
    · rw [if_neg fun hsep ↦ h ⟨hsep.1, Option.some.inj hsep.2⟩, countSep]
      rintro t rfl heq
      cases heq
      exact h ⟨rfl, rfl⟩

theorem rpartition_cons_eq_none (h : rpartition (c :: s) = none) :
    rpartition s = none ∧ ¬ (c = ':' ∧ s.head? = some ':') := by
  rw [rpartition] at h
  cases hs : rpartition s with
  | some p => rw [hs] at h; cases h
  | none =>
    refine ⟨rfl, fun hsep ↦ ?_⟩
    simp only [hs, if_pos hsep] at h
    cases h

theorem countSep_of_rpartition_none (h : rpartition s = none) : countSep s = 0 := by
  induction s with
  | nil => rfl
  | cons c s ih =>
    obtain ⟨hs, hsep⟩ := rpartition_cons_eq_none h
    rw [countSep_cons, if_neg hsep, ih hs]

theorem rpartition_cons_eq_some (h : rpartition (c :: s) = some (before, after)) :
    (∃ rest, before = c :: rest ∧ rpartition s = some (rest, after)) ∨
      before = [] ∧ c = ':' ∧ s.head? = some ':' ∧ rpartition s = none := by
  rw [rpartition] at h
  cases hs : rpartition s with
  | some p =>
    rw [hs] at h
    cases h
    exact .inl ⟨p.1, rfl, rfl⟩
  | none =>
    simp only [hs] at h
    split at h
    · next hsep =>
      cases h
      exact .inr ⟨rfl, hsep.1, hsep.2, rfl⟩
    · cases h

theorem head?_of_rpartition {d : Char} (h : rpartition s = some (before, after))
    (hhead : before.head? = some d) : s.head? = some d := by
  cases s with
  | nil => cases h
  | cons c s =>
    obtain ⟨rest, rfl, -⟩ | ⟨rfl, -⟩ := rpartition_cons_eq_some h
    · exact hhead
    · cases hhead

/-- The part before the rightmost separator has one separator less, however long its runs of
colons are. -/
theorem countSep_of_rpartition (h : rpartition s = some (before, after)) :
    countSep s = countSep before + 1 := by
  induction s using countSep.induct generalizing before with
  | case1 s ih =>
    rw [countSep]
    obtain ⟨rest, rfl, htail⟩ | ⟨rfl, -, -, htail⟩ := rpartition_cons_eq_some h
    · obtain ⟨rest, rfl, hrest⟩ | ⟨rfl, -, -, hrest⟩ := rpartition_cons_eq_some htail
      · rw [countSep, ih hrest]
      · rw [countSep_of_rpartition_none hrest]
        rfl
    · rw [countSep_of_rpartition_none (rpartition_cons_eq_none htail).1]
      rfl
  | case2 c s hsep ih =>
    have hnot : ¬ (c = ':' ∧ s.head? = some ':') := by
      rintro ⟨rfl, hhead⟩
      obtain ⟨t, rfl⟩ := List.head?_eq_some_iff.1 hhead
      exact hsep t rfl rfl
    rw [countSep_cons, if_neg hnot]
    obtain ⟨rest, rfl, htail⟩ | ⟨-, hc, hhead, -⟩ := rpartition_cons_eq_some h
    · have hrest : ¬ (c = ':' ∧ rest.head? = some ':') := fun hsep ↦
        hnot ⟨hsep.1, head?_of_rpartition htail hsep.2⟩
      rw [countSep_cons, if_neg hrest, ih htail]
    · exact absurd ⟨hc, hhead⟩ hnot
  | case3 => cases h

theorem countSep_of_parentName {parent name : List Char} (h : parentName name = some parent) :
    countSep name = countSep parent + 1 := by
  obtain ⟨p, hp, rfl⟩ := Option.map_eq_some_iff.1 h
  exact countSep_of_rpartition hp

end Names

section Children

variable {services : Services} {sid c : ℕ} {service : Service}

theorem mem_childrenOf {name : List Char} : c ∈ childrenOf services name ↔
    ∃ child, services.find c = some child ∧ child.valid = true ∧
      parentName child.name = some name := by
  simp only [childrenOf, List.mem_map, List.mem_filter, Bool.and_eq_true, decide_eq_true_eq]
  constructor
  · rintro ⟨⟨c, child⟩, ⟨hrow, hvalid, hparent⟩, rfl⟩
    exact ⟨child, Table.find_eq_some.2 hrow, hvalid, hparent⟩
  · rintro ⟨child, hchild, hvalid, hparent⟩
    exact ⟨(c, child), ⟨Table.find_eq_some.1 hchild, hvalid, hparent⟩, rfl⟩

theorem depth_eq (h : services.find sid = some service) :
    depth services sid = countSep service.name := by
  rw [depth, h]
  rfl

theorem depth_child (h : services.find sid = some service)
    (hc : c ∈ childrenOf services service.name) : depth services c = depth services sid + 1 := by
  obtain ⟨child, hchild, -, hparent⟩ := mem_childrenOf.1 hc
  rw [depth_eq h, depth_eq hchild, countSep_of_parentName hparent]

/-- The recursive definition: a service is raised by what is linked to it and by its children. -/
structure Solves (services : Services) (counted : ℕ → List (Option String))
    (σ : ℕ → ServiceState) : Prop where
  incident : ∀ sid service, services.find sid = some service →
    (σ sid = .incident ↔ some "incident" ∈ counted sid)
  warning : ∀ sid service, services.find sid = some service →
    (σ sid = .warning ↔ some "incident" ∉ counted sid ∧ (some "warning" ∈ counted sid ∨
      ∃ c child, services.find c = some child ∧ child.valid = true ∧
        parentName child.name = some service.name ∧ σ c ≠ .operational))

variable {counted : ℕ → List (Option String)} {linked : ℕ → Bool} {σ : ℕ → ServiceState}
  {wanted order : List ℕ} {final : Table ℕ ServiceFold}

theorem mem_serviceClosure (hsid : sid ∈ wanted) (h : services.find sid = some service) :
    sid ∈ serviceClosure services wanted := by
  refine (Expansion.run_covers Expansion.covers_empty).2.2 sid ?_
    ⟨childrenOf services service.name, by simp [expansion, h]⟩
  exact List.mem_reverse.2 (List.mem_filter.2 ⟨hsid, by simp [h]⟩)

theorem serviceClosure_known (h : sid ∈ serviceClosure services wanted) :
    ∃ service, services.find sid = some service := by
  obtain ⟨cs, hcs⟩ := (Expansion.run_covers Expansion.covers_empty).1.expanded sid h
  obtain ⟨service, hservice, -⟩ := Option.map_eq_some_iff.1 hcs
  exact ⟨service, hservice⟩

theorem serviceClosure_children (h : sid ∈ serviceClosure services wanted)
    (hservice : services.find sid = some service) (hc : c ∈ childrenOf services service.name) :
    c ∈ serviceClosure services wanted := by
  obtain ⟨child, hchild, -⟩ := mem_childrenOf.1 hc
  have hnext := (Expansion.run_covers Expansion.covers_empty).1.next sid h
    (childrenOf services service.name) (by simp [expansion, hservice]) c hc
    ⟨childrenOf services child.name, by simp [expansion, hchild]⟩
  exact hnext.resolve_right List.not_mem_nil

/-- A service is finished with the state that a solution gives it. -/
def Finished (σ : ℕ → ServiceState) (final : Table ℕ ServiceFold) (sid : ℕ) : Prop :=
  ∃ fold, final.find sid = some fold ∧ fold.state = σ sid

theorem countP_kind_ne_zero {kinds : List (Option String)} {kind : String} :
    kinds.countP (· = some kind) ≠ 0 ↔ some kind ∈ kinds := by
  rw [← Nat.pos_iff_ne_zero, List.countP_pos_iff]
  simp

theorem raised_iff (h : Finished σ final c) : raised final c = true ↔ σ c ≠ .operational := by
  obtain ⟨fold, hfind, hstate⟩ := h
  rw [raised, hfind, Option.any_some, decide_eq_true_eq, hstate]

/-- A service whose children are finished gets its state from the recursive definition. -/
theorem foldOne_finished (linked : ℕ → Bool) (hσ : Solves services counted σ)
    (hservice : services.find sid = some service)
    (hchildren : ∀ c ∈ childrenOf services service.name, Finished σ final c) :
    ∃ fold, foldOne services (childrenOf services) counted linked final sid =
      some (final.set sid (some fold)) ∧ fold.state = σ sid := by
  rw [foldOne, hservice]
  refine ⟨_, rfl, ?_⟩
  have hincident := hσ.incident sid service hservice
  have hwarning := hσ.warning sid service hservice
  dsimp only
  split
  · next h => exact (hincident.2 (countP_kind_ne_zero.1 h)).symm
  · next hnone =>
    rw [countP_kind_ne_zero] at hnone
    split
    · next h => exact (hwarning.2 ⟨hnone, .inl (countP_kind_ne_zero.1 h)⟩).symm
    · next hquiet =>
      rw [countP_kind_ne_zero] at hquiet
      split
      · next h =>
        obtain ⟨c, hc, hraised⟩ := List.any_eq_true.1 h
        obtain ⟨child, hchild, hvalid, hparent⟩ := mem_childrenOf.1 hc
        have hstate := (raised_iff (hchildren c hc)).1 hraised
        exact (hwarning.2 ⟨hnone, .inr ⟨c, child, hchild, hvalid, hparent, hstate⟩⟩).symm
      · next h =>
        cases hstate : σ sid with
        | operational => rfl
        | incident => exact absurd (hincident.1 hstate) hnone
        | warning =>
          obtain ⟨-, hwarn | ⟨c, child, hchild, hvalid, hparent, hraised⟩⟩ := hwarning.1 hstate
          · exact absurd hwarn hquiet
          · have hc := mem_childrenOf.2 ⟨child, hchild, hvalid, hparent⟩
            exact absurd (List.any_eq_true.2 ⟨c, hc, (raised_iff (hchildren c hc)).2 hraised⟩) h

theorem foldlM_finished (linked : ℕ → Bool) (hσ : Solves services counted σ)
    (hknown : ∀ sid ∈ order, ∃ service, services.find sid = some service)
    (hclosed : ∀ sid ∈ order, ∀ service, services.find sid = some service →
      ∀ c ∈ childrenOf services service.name, c ∈ order)
    (hsorted : order.Pairwise fun a b ↦ depth services b ≤ depth services a)
    (done rest : List ℕ) (final : Table ℕ ServiceFold) (horder : order = done ++ rest)
    (hdone : ∀ sid ∈ done, Finished σ final sid) :
    ∃ final', rest.foldlM (foldOne services (childrenOf services) counted linked) final =
      some final' ∧ ∀ sid ∈ order, Finished σ final' sid := by
  induction rest generalizing done final with
  | nil =>
    rw [List.append_nil] at horder
    exact ⟨final, rfl, horder ▸ hdone⟩
  | cons sid rest ih =>
    have hmem : sid ∈ order := horder ▸ List.mem_append_right _ List.mem_cons_self
    obtain ⟨service, hservice⟩ := hknown sid hmem
    have hchildren : ∀ c ∈ childrenOf services service.name, Finished σ final c := by
      intro c hc
      have hdepth := depth_child hservice hc
      have hc := hclosed sid hmem service hservice c hc
      rw [horder, List.mem_append] at hc
      refine hdone c (hc.resolve_right fun hrest ↦ ?_)
      rw [horder] at hsorted
      have hsid := (List.pairwise_append.1 hsorted).2.1
      rcases List.mem_cons.1 hrest with rfl | hrest
      · omega
      · have := (List.pairwise_cons.1 hsid).1 c hrest
        omega
    obtain ⟨fold, hfold, hstate⟩ := foldOne_finished linked hσ hservice hchildren
    rw [List.foldlM_cons, hfold]
    refine ih (done ++ [sid]) _ (by rw [horder, List.append_assoc]; rfl) fun x hx ↦ ?_
    by_cases hsame : x = sid
    · subst hsame
      exact ⟨fold, Table.find_set_self, hstate⟩
    · rw [List.mem_append, List.mem_singleton] at hx
      obtain ⟨fold', hfind, hstate'⟩ := hdone x (hx.resolve_right hsame)
      exact ⟨fold', (Table.find_set_of_ne hsame).trans hfind, hstate'⟩

theorem fold_finished (linked : ℕ → Bool) (hσ : Solves services counted σ)
    (horder : ∀ sid, sid ∈ order ↔ sid ∈ serviceClosure services wanted) :
    ∃ final, foldServiceStates services (childrenOf services) counted linked order = some final ∧
      ∀ sid ∈ wanted, (∃ service, services.find sid = some service) → Finished σ final sid := by
  have hmem : ∀ sid, sid ∈ order.mergeSort (fun a b ↦ depth services b ≤ depth services a) ↔
      sid ∈ serviceClosure services wanted := fun sid ↦ by rw [List.mem_mergeSort, horder]
  have hsorted : (order.mergeSort fun a b ↦ depth services b ≤ depth services a).Pairwise
      fun a b ↦ depth services b ≤ depth services a := by
    have htrans : ∀ a b c, decide (depth services b ≤ depth services a) = true →
        decide (depth services c ≤ depth services b) = true →
          decide (depth services c ≤ depth services a) = true := fun a b c hab hbc ↦
      decide_eq_true ((of_decide_eq_true hbc).trans (of_decide_eq_true hab))
    have htotal : ∀ a b, (decide (depth services b ≤ depth services a) ||
        decide (depth services a ≤ depth services b)) = true := fun a b ↦ by
      rw [Bool.or_eq_true, decide_eq_true_eq, decide_eq_true_eq]
      exact Nat.le_total _ _
    exact (List.pairwise_mergeSort htrans htotal order).imp of_decide_eq_true
  obtain ⟨final, hfinal, hfinished⟩ := foldlM_finished linked hσ
    (fun sid hsid ↦ serviceClosure_known ((hmem sid).1 hsid))
    (fun sid hsid service hservice c hc ↦
      (hmem c).2 (serviceClosure_children ((hmem sid).1 hsid) hservice hc))
    hsorted [] _ Table.empty rfl fun sid hsid ↦ absurd hsid List.not_mem_nil
  exact ⟨final, hfinal, fun sid hsid ⟨service, hservice⟩ ↦
    hfinished sid ((hmem sid).2 (mem_serviceClosure hsid hservice))⟩

end Children

section Solution

variable (services : Services) (counted : ℕ → List (Option String))

def maxDepth : ℕ := (services.rows.map fun r ↦ countSep r.2.name).foldr max 0

variable {services} in
theorem depth_le_maxDepth {sid : ℕ} {service : Service} (h : services.find sid = some service) :
    depth services sid ≤ maxDepth services := by
  rw [depth_eq h, maxDepth]
  have hrow := Table.find_eq_some.1 h
  generalize services.rows = rows at hrow ⊢
  induction rows with
  | nil => cases hrow
  | cons r rows ih =>
    rw [List.map_cons, List.foldr_cons]
    rcases List.mem_cons.1 hrow with rfl | hrow
    · exact Nat.le_max_left _ _
    · exact (ih hrow).trans (Nat.le_max_right _ _)

/-- The state of a service from the states of its children, however deep they nest. -/
def solution (sid : ℕ) : ServiceState :=
  match _h : services.find sid with
  | none => .operational
  | some service =>
    if some "incident" ∈ counted sid then .incident
    else if some "warning" ∈ counted sid then .warning
    else if (childrenOf services service.name).attach.any fun c ↦ solution c.1 ≠ .operational then
      .warning
    else .operational
termination_by maxDepth services - depth services sid
decreasing_by
  obtain ⟨c, hc⟩ := c
  obtain ⟨child, hchild, -⟩ := mem_childrenOf.1 hc
  have hchild := depth_le_maxDepth hchild
  have hdepth := depth_child _h hc
  dsimp only
  omega

variable {services counted}

theorem solution_eq {sid : ℕ} {service : Service} (h : services.find sid = some service) :
    solution services counted sid =
      if some "incident" ∈ counted sid then .incident
      else if some "warning" ∈ counted sid then .warning
      else if (childrenOf services service.name).any fun c ↦
        solution services counted c ≠ .operational then .warning
      else .operational := by
  rw [solution]
  split
  · next hnone => rw [h] at hnone; cases hnone
  · next service' hservice =>
    rw [h] at hservice
    cases hservice
    have hany : ((childrenOf services service.name).attach.any fun c ↦
        decide (solution services counted c.1 ≠ .operational)) =
          (childrenOf services service.name).any fun c ↦
            decide (solution services counted c ≠ .operational) := by
      rw [Bool.eq_iff_iff, List.any_eq_true, List.any_eq_true]
      constructor
      · rintro ⟨⟨c, hc⟩, -, hstate⟩
        exact ⟨c, hc, hstate⟩
      · rintro ⟨c, hc, hstate⟩
        exact ⟨⟨c, hc⟩, List.mem_attach _ _, hstate⟩
    rw [hany]

theorem solution_solves : Solves services counted (solution services counted) := by
  have hraised : ∀ service : Service, ((childrenOf services service.name).any fun c ↦
      decide (solution services counted c ≠ .operational)) = true ↔
        ∃ c child, services.find c = some child ∧ child.valid = true ∧
          parentName child.name = some service.name ∧
            solution services counted c ≠ .operational := by
    intro service
    simp only [List.any_eq_true, mem_childrenOf, decide_eq_true_eq]
    constructor
    · rintro ⟨c, ⟨child, hchild, hvalid, hparent⟩, hstate⟩
      exact ⟨c, child, hchild, hvalid, hparent, hstate⟩
    · rintro ⟨c, child, hchild, hvalid, hparent, hstate⟩
      exact ⟨c, ⟨child, hchild, hvalid, hparent⟩, hstate⟩
  refine ⟨fun sid service h ↦ ?_, fun sid service h ↦ ?_⟩
  · rw [solution_eq h]
    split_ifs <;> simp_all
  · rw [solution_eq h, ← hraised service]
    split_ifs <;> simp_all

/-- Both solutions are what a run for the service alone gives. -/
theorem Solves.unique {σ σ' : ℕ → ServiceState} (hσ : Solves services counted σ)
    (hσ' : Solves services counted σ') {sid : ℕ} {service : Service}
    (h : services.find sid = some service) : σ sid = σ' sid := by
  have horder : ∀ x, x ∈ (serviceClosure services [sid]).toList ↔
      x ∈ serviceClosure services [sid] := fun _ ↦ Finset.mem_toList
  obtain ⟨final, hfinal, hfinished⟩ := fold_finished (fun _ ↦ false) hσ horder
  obtain ⟨final', hfinal', hfinished'⟩ := fold_finished (fun _ ↦ false) hσ' horder
  obtain rfl : final = final' := Option.some.inj (hfinal.symm.trans hfinal')
  obtain ⟨fold, hfind, hstate⟩ := hfinished sid List.mem_cons_self ⟨service, h⟩
  obtain ⟨fold', hfind', hstate'⟩ := hfinished' sid List.mem_cons_self ⟨service, h⟩
  rw [← hstate, ← hstate', Option.some.inj (hfind.symm.trans hfind')]

end Solution

/-- The fold over the closure gives every wanted service the state that its recursive definition
has, whatever the order of the closure and whatever else is wanted. -/
theorem service_states_solved (services : Services) (counted : ℕ → List (Option String))
    (linked : ℕ → Bool) :
    ∃ σ, Solves services counted σ ∧
      (∀ σ', Solves services counted σ' → ∀ sid service, services.find sid = some service →
        σ' sid = σ sid) ∧
      ∀ wanted order, (∀ sid, sid ∈ order ↔ sid ∈ serviceClosure services wanted) →
        ∃ final,
          foldServiceStates services (childrenOf services) counted linked order = some final ∧
            ∀ sid ∈ wanted, (∃ service, services.find sid = some service) →
              Finished σ final sid :=
  ⟨solution services counted, solution_solves,
    fun _ hσ' _ _ h ↦ hσ'.unique solution_solves h,
    fun _ _ horder ↦ fold_finished linked solution_solves horder⟩

end Tiqora.Itsm.ServiceState
