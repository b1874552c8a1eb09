import Mathlib.Data.List.TakeWhile
import Mathlib.Data.Nat.Digits.Defs
import Tiqora.Foundation.Commuting
import Tiqora.Znuny.XmlHash

namespace Tiqora.Znuny.XmlHash

open Foundation

section Items

variable {cur : Items} {index index' : ℕ} {node node' : Node}

theorem getElem?_setNode (cur : Items) (index j : ℕ) (node : Node) :
    (setNode cur index node)[j]? = if j = index then some (some node)
      else if j < cur.length then cur[j]? else if j < index then some none else none := by
  unfold setNode
  by_cases hj : j = index
  · subst hj
    rw [if_pos rfl, List.getElem?_set_self]
    rw [List.length_append, List.length_replicate]
    omega
  · rw [if_neg hj, List.getElem?_set_ne (Ne.symm hj), List.getElem?_append]
    by_cases hlt : j < cur.length
    · rw [if_pos hlt, if_pos hlt]
    · rw [if_neg hlt, if_neg hlt, List.getElem?_replicate]
      by_cases hindex : j < index
      · rw [if_pos hindex, if_pos (by omega)]
      · rw [if_neg hindex, if_neg (by omega)]

theorem nodeAt_setNode_self : nodeAt (setNode cur index node) index = node := by
  rw [nodeAt, getElem?_setNode, if_pos rfl]
  rfl

theorem nodeAt_setNode_of_ne (h : index' ≠ index) :
    nodeAt (setNode cur index node) index' = nodeAt cur index' := by
  rw [nodeAt, nodeAt, getElem?_setNode, if_neg h]
  by_cases hlt : index' < cur.length
  · rw [if_pos hlt]
  · rw [if_neg hlt, List.getElem?_eq_none (by omega)]
    split <;> rfl

theorem length_setNode : (setNode cur index node).length = max cur.length (index + 1) := by
  rw [setNode, List.length_set, List.length_append, List.length_replicate]
  omega

theorem setNode_setNode : setNode (setNode cur index node) index node' =
    setNode cur index node' := by
  refine List.ext_getElem? fun j ↦ ?_
  rw [getElem?_setNode, getElem?_setNode, getElem?_setNode, length_setNode]
  by_cases hj : j = index
  · rw [if_pos hj, if_pos hj]
  · simp only [if_neg hj]
    by_cases hlt : j < cur.length
    · rw [if_pos hlt, if_pos (by omega)]
    · rw [if_neg hlt]
      split
      · rfl
      · split
        · omega
        · rfl

theorem setNode_comm (h : index ≠ index') :
    setNode (setNode cur index node) index' node' =
      setNode (setNode cur index' node') index node := by
  refine List.ext_getElem? fun j ↦ ?_
  rw [getElem?_setNode, getElem?_setNode, getElem?_setNode, getElem?_setNode, length_setNode,
    length_setNode]
  grind

end Items

section Places

variable {cur : Items}

/-- What a row makes of the child on its way. -/
def childStep (value : Text) : Path → Option Child → Except XmlHashError Child
  | [], child =>
    match child with
    | some _ => .error .badStat
    | none => .ok (.leaf value)
  | path, child => do
    let items ← match child with
      | none => .ok [none]
      | some (.list items) => .ok items
      | some (.leaf _) => .error .badStat
    let items ← insertLeaf value path items
    .ok (.list items)

/-- One step of a walk: the child of a tag is replaced. -/
def place (cur : Items) (index : ℕ) (tag : Text) (f : Option Child → Except XmlHashError Child) :
    Except XmlHashError Items := do
  let child ← f (nodeAt cur index tag)
  .ok (setNode cur index (Function.update (nodeAt cur index) tag (some child)))

theorem insertLeaf_cons (value : Text) (index : ℕ) (tag : Text) (rest : Path) (cur : Items) :
    insertLeaf value ((index, tag) :: rest) cur = place cur index tag (childStep value rest) := by
  cases rest with
  | nil =>
    unfold insertLeaf place childStep
    cases nodeAt cur index tag <;> rfl
  | cons next rest =>
    unfold place childStep
    rw [insertLeaf]
    cases nodeAt cur index tag with
    | none =>
      cases hrest : insertLeaf value (next :: rest) [none] <;> simp [bind, Except.bind, hrest]
    | some child =>
      cases child with
      | leaf text => rfl
      | list items =>
        cases hrest : insertLeaf value (next :: rest) items <;> simp [bind, Except.bind, hrest]

theorem place_toOption (cur : Items) (index : ℕ) (tag : Text)
    (f : Option Child → Except XmlHashError Child) : (place cur index tag f).toOption =
      (f (nodeAt cur index tag)).toOption.map fun child ↦
        setNode cur index (Function.update (nodeAt cur index) tag (some child)) := by
  unfold place
  cases f (nodeAt cur index tag) <;> rfl

variable {f g : Option Child → Except XmlHashError Child}

/-- Steps at one tag commute when what they make of its child does. -/
theorem place_comm_self (h : ∀ child, (f child >>= fun c ↦ g (some c)).toOption =
      (g child >>= fun c ↦ f (some c)).toOption) (index : ℕ) (tag : Text) :
    (place cur index tag f >>= fun cur ↦ place cur index tag g).toOption =
      (place cur index tag g >>= fun cur ↦ place cur index tag f).toOption := by
  have htwice : ∀ f g : Option Child → Except XmlHashError Child,
      (place cur index tag f >>= fun cur ↦ place cur index tag g).toOption =
        (f (nodeAt cur index tag) >>= fun c ↦ g (some c)).toOption.map fun child ↦
          setNode cur index (Function.update (nodeAt cur index) tag (some child)) := by
    intro f g
    rw [toOption_bind, place_toOption, toOption_bind, Option.bind_map, Option.map_bind]
    refine congrArg _ (funext fun child ↦ ?_)
    rw [Function.comp_apply, place_toOption, nodeAt_setNode_self, Function.update_self,
      Function.comp_apply]
    simp only [setNode_setNode, Function.update_idem]
  rw [htwice, htwice, h]

/-- Steps at different tags commute. -/
theorem place_comm_of_ne {index index' : ℕ} {tag tag' : Text} (h : (index, tag) ≠ (index', tag')) :
    (place cur index tag f >>= fun cur ↦ place cur index' tag' g).toOption =
      (place cur index' tag' g >>= fun cur ↦ place cur index tag f).toOption := by
  rw [toOption_bind, toOption_bind, place_toOption, place_toOption, Option.bind_map,
    Option.bind_map]
  simp only [Function.comp_def, place_toOption]
  by_cases hindex : index = index'
  · subst hindex
    have htag : tag ≠ tag' := fun heq ↦ h (by rw [heq])
    simp only [nodeAt_setNode_self, Function.update_of_ne htag, Function.update_of_ne htag.symm,
      setNode_setNode]
    cases hf : f (nodeAt cur index tag) <;> cases hg : g (nodeAt cur index tag') <;>
      simp [Except.toOption, Function.update_comm htag]
  · simp only [nodeAt_setNode_of_ne hindex, nodeAt_setNode_of_ne (Ne.symm hindex)]
    cases hf : f (nodeAt cur index tag) <;> cases hg : g (nodeAt cur index' tag') <;>
      simp [Except.toOption, setNode_comm hindex]

/-- The nodes that a walk goes on in. -/
def childItems : Option Child → Option Items
  | none => some [none]
  | some (.list items) => some items
  | some (.leaf _) => none

theorem childStep_cons (value : Text) (step : ℕ × Text) (path : Path) (child : Option Child) :
    (childStep value (step :: path) child).toOption = (childItems child).bind fun items ↦
      (insertLeaf value (step :: path) items).toOption.map .list := by
  unfold childStep childItems
  cases child with
  | none =>
    cases hpath : insertLeaf value (step :: path) [none] <;>
      simp [bind, Except.bind, hpath, Except.toOption]
  | some child =>
    cases child with
    | leaf text => rfl
    | list items =>
      cases hpath : insertLeaf value (step :: path) items <;>
        simp [bind, Except.bind, hpath, Except.toOption]

theorem childStep_nil (value : Text) (child : Option Child) :
    (childStep value [] child).toOption = if child.isNone then some (.leaf value) else none := by
  cases child <;> rfl

theorem childStep_comm {value value' : Text} {path path' : Path}
    (h : ∀ cur, (insertLeaf value path cur >>= insertLeaf value' path').toOption =
      (insertLeaf value' path' cur >>= insertLeaf value path).toOption) (child : Option Child) :
    (childStep value path child >>= fun c ↦ childStep value' path' (some c)).toOption =
      (childStep value' path' child >>= fun c ↦ childStep value path (some c)).toOption := by
  simp only [toOption_bind] at h ⊢
  cases path with
  | nil =>
    cases path' with
    | nil => cases child <;> rfl
    | cons step' path' =>
      simp only [childStep_nil, childStep_cons]
      cases child <;> simp [childItems]
  | cons step path =>
    cases path' with
    | nil =>
      simp only [childStep_nil, childStep_cons]
      cases child <;> simp [childItems]
    | cons step' path' =>
      simp only [childStep_cons]
      cases hitems : childItems child with
      | none => rfl
      | some items =>
        have hboth := h items
        simp only [Option.bind_some, Option.bind_map, Function.comp_def, childItems]
        simpa only [Option.map_bind, Function.comp_def] using
          congrArg (Option.map Child.list) hboth

theorem insertLeaf_comm (value value' : Text) (path path' : Path) (cur : Items) :
    (insertLeaf value path cur >>= insertLeaf value' path').toOption =
      (insertLeaf value' path' cur >>= insertLeaf value path).toOption := by
  induction path generalizing path' cur with
  | nil =>
    cases hpath : insertLeaf value' path' cur <;> simp [insertLeaf, bind, Except.bind, hpath]
  | cons step rest ih =>
    obtain ⟨index, tag⟩ := step
    cases path' with
    | nil =>
      cases hpath : insertLeaf value ((index, tag) :: rest) cur <;>
        simp [insertLeaf, bind, Except.bind, hpath]
    | cons step' rest' =>
      obtain ⟨index', tag'⟩ := step'
      have hstep : ∀ cur, insertLeaf value ((index, tag) :: rest) cur =
          place cur index tag (childStep value rest) := insertLeaf_cons value index tag rest
      have hstep' : ∀ cur, insertLeaf value' ((index', tag') :: rest') cur =
          place cur index' tag' (childStep value' rest') :=
        insertLeaf_cons value' index' tag' rest'
      rw [funext hstep, funext hstep']
      by_cases heq : (index, tag) = (index', tag')
      · cases heq
        exact place_comm_self (childStep_comm (ih rest')) index tag
      · exact place_comm_of_ne heq

end Places

section Order

theorem insertRow_comm (root : Items) (row row' : Row) :
    (insertRow root row >>= fun root ↦ insertRow root row').toOption =
      (insertRow root row' >>= fun root ↦ insertRow root row).toOption := by
  unfold insertRow
  cases rowPath row.1 with
  | error e =>
    cases rowPath row'.1 with
    | error e' => rfl
    | ok path' =>
      cases hroot : insertLeaf (row'.2.getD []) path' root <;>
        simp [bind, Except.bind, hroot, Except.toOption]
  | ok path =>
    cases rowPath row'.1 with
    | error e' =>
      cases hroot : insertLeaf (row.2.getD []) path root <;>
        simp [bind, Except.bind, hroot, Except.toOption]
    | ok path' => exact insertLeaf_comm _ _ path path' root

/-- Up to the limit of rows the structure is grown row by row; beyond it nothing is read. -/
theorem insertRows_eq (count : ℕ) (rows : List Row) (root : Items) :
    (insertRows count rows root).toOption =
      if count + rows.length ≤ maxStatRows ∨ rows = [] then (rows.foldlM insertRow root).toOption
      else none := by
  induction rows generalizing count root with
  | nil => simp [insertRows, pure, Except.pure]
  | cons row rows ih =>
    unfold insertRows
    rw [List.length_cons, List.foldlM_cons]
    by_cases hcount : maxStatRows < count + 1
    · rw [if_pos hcount, if_neg (by simp; omega)]
      rfl
    · rw [if_neg hcount, toOption_bind, toOption_bind]
      cases insertRow root row with
      | error e => simp [Except.toOption]
      | ok root' =>
        change (insertRows (count + 1) rows root').toOption =
          if _ then (rows.foldlM insertRow root').toOption else none
        rw [ih]
        by_cases hlen : count + (rows.length + 1) ≤ maxStatRows
        · rw [if_pos (.inl (by omega)), if_pos (.inl hlen)]
        · rw [if_neg, if_neg]
          · simpa using hlen
          · rintro (hle | rfl)
            · omega
            · rw [List.length_nil] at hlen
              omega

theorem buildXmlHash_eq (rows : List Row) : (buildXmlHash rows).toOption =
    if rows.length ≤ maxStatRows then (rows.foldlM insertRow [none]).toOption else none := by
  rw [buildXmlHash, insertRows_eq, Nat.zero_add]
  cases rows with
  | nil => rfl
  | cons row rows => simp

theorem buildXmlHash_perm {rows rows' : List Row} (h : rows.Perm rows') :
    (buildXmlHash rows).toOption = (buildXmlHash rows').toOption := by
  rw [buildXmlHash_eq, buildXmlHash_eq, h.length_eq, foldlM_perm insertRow_comm h]

end Order

section Leaves

variable {cur cur' : Items} {value : Text} {path : Path}

/-- The text of a leaf below a child. -/
def childLeaf : Path → Option Child → Option Text
  | [], some (.leaf value) => some value
  | next :: rest, some (.list items) => leafAt (next :: rest) items
  | _, _ => none

theorem leafAt_cons (index : ℕ) (tag : Text) (rest : Path) (cur : Items) :
    leafAt ((index, tag) :: rest) cur = childLeaf rest (nodeAt cur index tag) := by
  cases rest with
  | nil =>
    rw [leafAt]
    cases nodeAt cur index tag with
    | none => rfl
    | some child => cases child <;> rfl
  | cons next rest =>
    rw [leafAt]
    cases nodeAt cur index tag with
    | none => rfl
    | some child => cases child <;> rfl

theorem leafAt_fresh (path : Path) : leafAt path [none] = none := by
  cases path with
  | nil => rfl
  | cons step rest =>
    have hnode : nodeAt [none] step.1 step.2 = none := by
      cases hindex : step.1 <;> rfl
    rw [leafAt_cons, hnode]
    cases rest <;> rfl

/-- A row adds its own leaf, which was not there before, and no other. -/
def Adds (value : Text) (path : Path) (before after : Path → Option Text) : Prop :=
  before path = none ∧ ∀ path', after path' = if path' = path then some value else before path'

theorem Adds.childStep {rest : Path} {child : Option Child} {child' : Child}
    (hrest : ∀ cur cur', rest ≠ [] → insertLeaf value rest cur = .ok cur' →
      Adds value rest (leafAt · cur) (leafAt · cur'))
    (h : childStep value rest child = .ok child') :
    Adds value rest (childLeaf · child) (childLeaf · (some child')) := by
  cases rest with
  | nil =>
    cases child with
    | some child => cases h
    | none =>
      cases h
      refine ⟨rfl, fun path' ↦ ?_⟩
      cases path' <;> rfl
  | cons next rest =>
    have hsome := congrArg Except.toOption h
    rw [childStep_cons] at hsome
    obtain ⟨items, hitems, hinsert⟩ := Option.bind_eq_some_iff.1 hsome
    obtain ⟨items', hok, rfl⟩ := Option.map_eq_some_iff.1 hinsert
    have hinserted : insertLeaf value (next :: rest) items = .ok items' := eq_ok_of_toOption hok
    obtain ⟨hnew, hother⟩ := hrest items items' (List.cons_ne_nil _ _) hinserted
    have hbefore : ∀ step path', childLeaf (step :: path') child =
        leafAt (step :: path') items := by
      intro step path'
      cases child with
      | none =>
        cases hitems
        exact (leafAt_fresh _).symm
      | some child =>
        cases child with
        | leaf text => cases hitems
        | list items =>
          cases hitems
          rfl
    refine ⟨(hbefore _ _).trans hnew, fun path' ↦ ?_⟩
    cases path' with
    | nil =>
      rw [if_neg (List.cons_ne_nil _ _).symm]
      cases child with
      | none => rfl
      | some child =>
        cases child with
        | leaf text => cases hitems
        | list items => rfl
    | cons step path' =>
      dsimp only
      rw [hbefore]
      exact hother (step :: path')

theorem insertLeaf_adds (path : Path) (cur cur' : Items) (hpath : path ≠ [])
    (h : insertLeaf value path cur = .ok cur') :
    Adds value path (leafAt · cur) (leafAt · cur') := by
  induction path generalizing cur cur' with
  | nil => exact absurd rfl hpath
  | cons step rest ih =>
    obtain ⟨index, tag⟩ := step
    rw [insertLeaf_cons, place, bind_eq_ok] at h
    obtain ⟨child, hchild, h⟩ := h
    cases h
    obtain ⟨hnew, hother⟩ := Adds.childStep (fun cur cur' hne hok ↦ ih cur cur' hne hok) hchild
    refine ⟨(leafAt_cons _ _ _ _).trans hnew, fun path' ↦ ?_⟩
    cases path' with
    | nil => rfl
    | cons step' rest' =>
      obtain ⟨index', tag'⟩ := step'
      dsimp only
      rw [leafAt_cons, leafAt_cons]
      by_cases hindex : index' = index
      · subst hindex
        rw [nodeAt_setNode_self]
        by_cases htag : tag' = tag
        · subst htag
          have hsame : (index', tag') :: rest' = (index', tag') :: rest ↔ rest' = rest := by simp
          simp only [Function.update_self, hsame]
          exact hother rest'
        · rw [Function.update_of_ne htag, if_neg (by simp [htag])]
      · rw [nodeAt_setNode_of_ne hindex, if_neg (by simp [hindex])]

theorem length_pairs {tokens : List Token} (h : pairs tokens = some path) :
    tokens.length = 2 * path.length := by
  fun_induction pairs tokens generalizing path with
  | case1 =>
    cases h
    rfl
  | case2 index tag rest ih =>
    obtain ⟨path, hpath, rfl⟩ := Option.map_eq_some_iff.1 h
    rw [List.length_cons, List.length_cons, List.length_cons, ih hpath]
    omega
  | case3 => cases h

theorem rowPath_eq_ok {key : Text} (h : rowPath key = .ok path) : ∃ tokens,
    parseContentKey key = .ok tokens ∧ pairs tokens = some path ∧
      ¬(tokens.length < 2 ∨ tokens.length % 2 ≠ 0 ∨ maxDepth < tokens.length / 2) := by
  obtain ⟨tokens, htokens, h⟩ := bind_eq_ok.1 h
  obtain ⟨hshape, h⟩ := require_bind_eq_ok.1 h
  cases hpairs : pairs tokens with
  | none =>
    rw [hpairs] at h
    cases h
  | some path' =>
    rw [hpairs] at h
    cases h
    exact ⟨tokens, htokens, hpairs, hshape⟩

theorem rowPath_ne_nil {key : Text} (h : rowPath key = .ok path) : path ≠ [] := by
  rintro rfl
  obtain ⟨tokens, -, hpairs, hshape⟩ := rowPath_eq_ok h
  have hlength := length_pairs hpairs
  rw [List.length_nil] at hlength
  omega

/-- The leaves after some rows are those before and those of the rows, each of them once. -/
theorem foldlM_leaves (rows : List Row) {root root' : Items}
    (h : rows.foldlM insertRow root = .ok root') :
    (∀ path value, leafAt path root' = some value ↔ leafAt path root = some value ∨
      ∃ row ∈ rows, rowPath row.1 = .ok path ∧ value = row.2.getD []) ∧
    (rows.map fun row ↦ rowPath row.1).Nodup ∧
    ∀ row ∈ rows, ∃ path, rowPath row.1 = .ok path ∧ leafAt path root = none := by
  induction rows generalizing root with
  | nil =>
    cases h
    simp
  | cons row rows ih =>
    rw [List.foldlM_cons, bind_eq_ok] at h
    obtain ⟨next, hnext, h⟩ := h
    obtain ⟨path, hpath, hinsert⟩ := bind_eq_ok.1 hnext
    obtain ⟨hnew, hother⟩ := insertLeaf_adds path root next (rowPath_ne_nil hpath) hinsert
    obtain ⟨hleaves, hnodup, hfree⟩ := ih h
    have hfresh : ∀ row' ∈ rows, ∃ path', rowPath row'.1 = .ok path' ∧ path' ≠ path ∧
        leafAt path' root = none := by
      intro row' hrow'
      obtain ⟨path', hpath', hnone⟩ := hfree row' hrow'
      have hnext' := hother path'
      dsimp only at hnext'
      rw [hnone] at hnext'
      by_cases heq : path' = path
      · rw [if_pos heq] at hnext'
        cases hnext'
      · rw [if_neg heq] at hnext'
        exact ⟨path', hpath', heq, hnext'.symm⟩
    refine ⟨fun path' value ↦ ?_, ?_, ?_⟩
    · have hnext' := hother path'
      dsimp only at hnext' hnew
      rw [hleaves, hnext', List.exists_mem_cons_iff, hpath]
      by_cases heq : path' = path
      · subst heq
        rw [if_pos rfl, hnew]
        simp [eq_comm]
      · rw [if_neg heq]
        simp [Ne.symm heq]
    · rw [List.map_cons, List.nodup_cons]
      refine ⟨fun hmem ↦ ?_, hnodup⟩
      obtain ⟨row', hrow', heq⟩ := List.mem_map.1 hmem
      obtain ⟨path', hpath', hne, -⟩ := hfresh row' hrow'
      rw [hpath', hpath] at heq
      exact hne (Except.ok.inj heq)
    · refine List.forall_mem_cons.2 ⟨⟨path, hpath, hnew⟩, fun row' hrow' ↦ ?_⟩
      obtain ⟨path', hpath', -, hnone⟩ := hfresh row' hrow'
      exact ⟨path', hpath', hnone⟩

end Leaves

section Keys

variable {s rest : Text} {tag digits : Text} {token : Token} {tokens : List Token} {path : Path}

theorem escape_cons (c : Char) (tag : Text) :
    escape (c :: tag) = (if c = '\'' ∨ c = '\\' then ['\\', c] else [c]) ++ escape tag :=
  List.flatMap_cons

theorem scanTag_escape (tag s : Text) : scanTag (escape tag ++ '\'' :: s) = some (tag, s) := by
  induction tag with
  | nil => rfl
  | cons c tag ih =>
    rw [escape_cons]
    by_cases hc : c = '\'' ∨ c = '\\'
    · rw [if_pos hc]
      change scanTag ('\\' :: c :: (escape tag ++ '\'' :: s)) = _
      rw [scanTag, if_pos hc, ih]
      rfl
    · rw [if_neg hc]
      rw [not_or] at hc
      change scanTag (c :: (escape tag ++ '\'' :: s)) = _
      rw [scanTag.eq_4 _ _ (fun h _ ↦ hc.2 h) (fun _ _ h _ ↦ hc.2 h), if_neg hc.1, ih]
      rfl

theorem length_scanTag (h : scanTag s = some (tag, rest)) :
    (escape tag).length + 1 + rest.length ≤ s.length := by
  fun_induction scanTag s generalizing tag with
  | case1 => cases h
  | case2 => cases h
  | case3 c s hc ih =>
    obtain ⟨⟨tag', rest'⟩, hscan, heq⟩ := Option.map_eq_some_iff.1 h
    cases heq
    have hlength := ih hscan
    rw [escape_cons, if_pos hc, List.length_append]
    simp only [List.length_cons, List.length_nil] at hlength ⊢
    omega
  | case4 => cases h
  | case5 =>
    cases h
    rw [List.length_cons]
    change 0 + 1 + _ ≤ _
    omega
  | case6 c s hnot hnot' hc ih =>
    obtain ⟨⟨tag', rest'⟩, hscan, heq⟩ := Option.map_eq_some_iff.1 h
    cases heq
    have hlength := ih hscan
    have hplain : ¬(c = '\'' ∨ c = '\\') := by
      rintro (rfl | rfl)
      · exact hc rfl
      · cases s with
        | nil => exact hnot rfl rfl
        | cons d s => exact hnot' d s rfl rfl
    rw [escape_cons, if_neg hplain, List.length_append]
    simp only [List.length_cons, List.length_nil] at hlength ⊢
    omega

/-- A token that a key can have. -/
def Valid : Token → Prop
  | .inl index => index ≤ maxIndex
  | .inr _ => True

theorem ofDigitChars_lt (h : ∀ c ∈ digits, c.isDigit = true) :
    Nat.ofDigitChars 10 digits 0 < 10 ^ digits.length := by
  induction digits with
  | nil => decide
  | cons c digits ih =>
    obtain ⟨hc, hdigits⟩ := List.forall_mem_cons.1 h
    have hrest := ih hdigits
    rw [Char.isDigit, Bool.and_eq_true, decide_eq_true_eq, decide_eq_true_eq] at hc
    have hbound : c.toNat ≤ 57 := hc.2
    rw [Nat.ofDigitChars_cons, Nat.ofDigitChars_eq_ofDigitChars_zero, List.length_cons,
      Nat.pow_succ]
    have hvalue : 10 * 0 + (c.toNat - '0'.toNat) ≤ 9 := by
      change 10 * 0 + (c.toNat - 48) ≤ 9
      omega
    have hmul := Nat.mul_le_mul_left (10 ^ digits.length) hvalue
    omega

theorem scanToken_printToken (h : Valid token) (s : Text) :
    scanToken (printToken token ++ s) = some (token, s) := by
  cases token with
  | inl index =>
    have hdigits : ∀ c ∈ Nat.toDigits 10 index, c.isDigit = true := fun c hc ↦
      Nat.isDigit_of_mem_toDigits (by decide) (by decide) hc
    have htake : (Nat.toDigits 10 index ++ ']' :: s).takeWhile Char.isDigit =
        Nat.toDigits 10 index := by
      rw [List.takeWhile_append_of_pos hdigits]
      simp
    have hdrop : (Nat.toDigits 10 index ++ ']' :: s).dropWhile Char.isDigit = ']' :: s := by
      rw [List.dropWhile_append_of_pos hdigits]
      rfl
    have hlength : (Nat.toDigits 10 index).length ≤ 6 := by
      refine Nat.toDigits_length 10 index 6 (by decide) (Nat.lt_of_le_of_lt h (by decide))
    have hne : Nat.toDigits 10 index ≠ [] := Nat.toDigits_ne_nil
    have hvalue : Nat.ofDigitChars 10 (Nat.toDigits 10 index) 0 = index :=
      Nat.ofDigitChars_ten_toDigits
    have hprint : printToken (.inl index) ++ s = '[' :: (Nat.toDigits 10 index ++ ']' :: s) := by
      simp [printToken]
    rw [hprint, scanToken, htake, hdrop]
    dsimp only
    rw [if_neg (by simp [hne]; omega), hvalue, if_neg (Nat.not_lt.2 h)]
  | inr tag =>
    have hprint : printToken (.inr tag) ++ s =
        '{' :: '\'' :: (escape tag ++ '\'' :: '}' :: s) := by
      simp [printToken]
    rw [hprint, scanToken, scanTag_escape]
    rfl

theorem scanToken_spec (h : scanToken s = some (token, rest)) :
    Valid token ∧ (printToken token).length + rest.length ≤ s.length := by
  unfold scanToken at h
  split at h
  · rename_i s
    dsimp only at h
    have hsplit : (s.takeWhile Char.isDigit).length + (s.dropWhile Char.isDigit).length =
        s.length := by
      rw [← List.length_append, List.takeWhile_append_dropWhile]
    cases hdrop : s.dropWhile Char.isDigit with
    | nil =>
      rw [hdrop] at h
      cases h
    | cons c after =>
      rw [hdrop] at h hsplit
      dsimp only at h
      split at h
      · cases h
      · rename_i hshape
        split at h
        · cases h
        · rename_i hindex
          cases h
          have hlt := ofDigitChars_lt fun c hc ↦
            List.mem_takeWhile_imp (p := Char.isDigit) (l := s) hc
          have hpos : 0 < (s.takeWhile Char.isDigit).length := by
            rw [not_or, not_or] at hshape
            exact List.length_pos_iff.2 hshape.1
          have hdigits := Nat.toDigits_length 10 _ _ hpos hlt
          refine ⟨Nat.le_of_not_lt hindex, ?_⟩
          simp only [printToken, List.length_cons, List.length_append, List.length_nil] at hsplit ⊢
          omega
  · rename_i s
    split at h
    · rename_i tag after hscan
      cases h
      have hlength := length_scanTag hscan
      refine ⟨trivial, ?_⟩
      simp only [printToken, List.length_cons, List.length_append, List.length_nil] at hlength ⊢
      omega
    · cases h
  · cases h

theorem printToken_ne_nil (token : Token) : printToken token ≠ [] := by
  cases token <;> exact List.cons_ne_nil _ _

theorem parseTokens_spec {n : ℕ} (h : parseTokens n s = some tokens) :
    (∀ token ∈ tokens, Valid token) ∧ (tokens.flatMap printToken).length ≤ s.length := by
  fun_induction parseTokens n s generalizing tokens with
  | case1 =>
    cases h
    exact ⟨fun _ hmem ↦ absurd hmem List.not_mem_nil, le_rfl⟩
  | case2 => cases h
  | case3 n c s token rest hscan ih =>
    obtain ⟨tokens, htokens, rfl⟩ := Option.map_eq_some_iff.1 h
    obtain ⟨hvalid, hlength⟩ := ih htokens
    obtain ⟨htoken, hscanned⟩ := scanToken_spec hscan
    refine ⟨List.forall_mem_cons.2 ⟨htoken, hvalid⟩, ?_⟩
    rw [List.flatMap_cons, List.length_append]
    omega
  | case4 => cases h

theorem parseTokens_print {n : ℕ} (h : ∀ token ∈ tokens, Valid token) (hn : tokens.length ≤ n) :
    parseTokens n (tokens.flatMap printToken) = some tokens := by
  induction tokens generalizing n with
  | nil => cases n <;> rfl
  | cons token tokens ih =>
    obtain ⟨htoken, htokens⟩ := List.forall_mem_cons.1 h
    rw [List.length_cons] at hn
    obtain ⟨n, rfl⟩ : ∃ m, n = m + 1 := ⟨n - 1, by omega⟩
    have hscan := scanToken_printToken htoken (tokens.flatMap printToken)
    rw [List.flatMap_cons]
    cases hprint : printToken token ++ tokens.flatMap printToken with
    | nil => exact absurd (List.append_eq_nil_iff.1 hprint).1 (printToken_ne_nil token)
    | cons c rest =>
      rw [hprint] at hscan
      rw [parseTokens, hscan]
      dsimp only
      rw [ih htokens (by omega)]
      rfl

theorem printKey_eq (h : pairs tokens = some path) : printKey path = tokens.flatMap printToken := by
  fun_induction pairs tokens generalizing path with
  | case1 =>
    cases h
    rfl
  | case2 index tag rest ih =>
    obtain ⟨path, hpath, rfl⟩ := Option.map_eq_some_iff.1 h
    rw [printKey, List.flatMap_cons, List.flatMap_cons, List.flatMap_cons, ← ih hpath,
      List.append_assoc]
    rfl
  | case3 => cases h

/-- The printed path of a row is a key of the same path. -/
theorem rowPath_printKey {key : Text} (h : rowPath key = .ok path) :
    rowPath (printKey path) = .ok path := by
  obtain ⟨tokens, hparse, hpairs, hshape⟩ := rowPath_eq_ok h
  unfold parseContentKey at hparse
  split at hparse
  · cases hparse
  · rename_i hkey
    cases htokens : parseTokens key.length key with
    | none =>
      rw [htokens] at hparse
      cases hparse
    | some tokens' =>
      rw [htokens] at hparse
      cases hparse
      obtain ⟨hvalid, hlength⟩ := parseTokens_spec htokens
      have hcount : ∀ tokens : List Token,
          tokens.length ≤ (tokens.flatMap printToken).length := by
        intro tokens
        induction tokens with
        | nil => exact le_rfl
        | cons token tokens ih =>
          have hpos := List.length_pos_iff.2 (printToken_ne_nil token)
          rw [List.flatMap_cons, List.length_append, List.length_cons]
          omega
      have hprinted : parseContentKey (printKey path) = .ok tokens := by
        rw [parseContentKey, printKey_eq hpairs, if_neg,
          parseTokens_print hvalid (hcount tokens)]
        · rfl
        · have hpos := hcount tokens
          omega
      rw [rowPath, hprinted, ok_bind, require, if_pos hshape, ok_bind, hpairs]
      rfl

end Keys

section Rebuild

/-- The rows in another order are refused as well, or give the same structure; and the leaves of a
structure are the rows, each of them once, under the keys that the printed paths are. -/
theorem xml_hash_rebuilt (rows : List Row) :
    (∀ rows', rows.Perm rows' →
      (∃ e e', buildXmlHash rows = .error e ∧ buildXmlHash rows' = .error e') ∨
        ∃ root, buildXmlHash rows = .ok root ∧ buildXmlHash rows' = .ok root) ∧
    ∀ root, buildXmlHash rows = .ok root →
      (∀ path value, leafAt path root = some value ↔
        ∃ row ∈ rows, rowPath row.1 = .ok path ∧ value = row.2.getD []) ∧
      (rows.map fun row ↦ rowPath row.1).Nodup ∧
      ∀ row ∈ rows, ∃ path, rowPath row.1 = .ok path ∧ rowPath (printKey path) = .ok path := by
  refine ⟨fun rows' hperm ↦ toOption_eq_iff.1 (buildXmlHash_perm hperm), fun root h ↦ ?_⟩
  have hfold : rows.foldlM insertRow [none] = .ok root := by
    have hsome := congrArg Except.toOption h
    rw [buildXmlHash_eq] at hsome
    split at hsome
    · exact eq_ok_of_toOption hsome
    · cases hsome
  obtain ⟨hleaves, hnodup, hfree⟩ := foldlM_leaves rows hfold
  refine ⟨fun path value ↦ ?_, hnodup, fun row hrow ↦ ?_⟩
  · rw [hleaves, leafAt_fresh]
    simp
  · obtain ⟨path, hpath, -⟩ := hfree row hrow
    exact ⟨path, hpath, rowPath_printKey hpath⟩

end Rebuild

end Tiqora.Znuny.XmlHash
