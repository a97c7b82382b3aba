import Unscramble.Proofs.Propagation.Filling
import Unscramble.Proofs.Rewriting.Walk
import Unscramble.Proofs.Traces.LastWrite

/-! Constant propagation replaces reads only. What a script writes and which parameters it has stay as
they were, and so does whatever stands where something is written. In the rounds of a loop nothing is
replaced that the loop writes, and in functions and script blocks only what is written once. -/
namespace Unscramble.Simplify

open Unscramble.Tree Scripts Traces

variable {around inner outer : Surroundings} {site : Option Site} {e : Element}
  {t t' n u u' : Tree} {cs cs' : List Tree} {i : Nat} {name : String} {p q : List Nat}

/-! ### What holds in a place -/

/-- What holds in a part of a part: it is in the same loops and maybe in more, and it is not run
before the part. -/
structure Encloses (outer inner : Surroundings) : Prop where
  written : inner.written = outer.written
  looped : outer.looped ⊆ inner.looped
  deferred : outer.deferred = true → inner.deferred = true

theorem Encloses.refl (around : Surroundings) : Encloses around around :=
  ⟨rfl, List.Subset.refl _, id⟩

theorem Encloses.trans (h : Encloses outer around) (h' : Encloses around inner) :
    Encloses outer inner :=
  ⟨h'.written.trans h.written, List.Subset.trans h.looped h'.looped, h'.deferred ∘ h.deferred⟩

theorem encloses_inLoop (names : List String) : Encloses around (around.inLoop names) :=
  ⟨rfl, List.subset_append_right .., id⟩

theorem encloses_inward (h : inward? around t i = some inner) : Encloses around inner := by
  unfold inward? at h
  split at h <;> (try split at h) <;> (try split at h) <;>
    first | (cases h; done) | (cases h; first
      | exact .refl _
      | exact encloses_inLoop _
      | exact ⟨rfl, List.Subset.refl _, fun _ => rfl⟩)

/-- Nothing is replaced that a loop around it writes. -/
theorem Encloses.not_mem_of_mayReplace {names : List String} (h : Encloses (around.inLoop names) inner)
    (hmay : inner.mayReplace name = true) : name ∉ names := fun hname => by
  have hlooped : name ∈ inner.looped := h.looped (List.mem_append_left _ hname)
  simp [Surroundings.mayReplace, Surroundings.excludes, hlooped] at hmay

/-- What is run later is only replaced if it is written once. -/
theorem Encloses.count_of_mayReplace (h : Encloses around.later inner)
    (hmay : inner.mayReplace name = true) : around.written.count name = 1 := by
  simp only [Surroundings.mayReplace, h.deferred rfl, Bool.and_eq_true, Bool.not_true,
    Bool.false_or, beq_iff_eq] at hmay
  exact h.written ▸ hmay.2

/-! ### Places in a filled tree -/

/-- A child that the walk goes on to. -/
theorem Filled.child {c : Tree} (h : Filled around site t t') (hin : inward? around t i = some inner)
    (hc : t.children[i]? = some c) :
    ∃ site' c', t'.children[i]? = some c' ∧ Filled inner site' c c' := by
  cases h with
  | literal _ hleaf => simp [hleaf] at hc
  | @node _ _ e cs cs' hlength _ hfilled =>
    have hi : i < cs'.length := hlength ▸ (List.getElem?_eq_some_iff.mp hc).1
    exact ⟨_, cs'[i], List.getElem?_eq_getElem hi,
      hfilled i inner c cs'[i] hin hc (List.getElem?_eq_getElem hi)⟩

/-- What stands in a place of a tree is filled in the place that it has in the filled tree. -/
theorem Filled.at (h : Filled around site t t') (hu : t.at? p = some u) :
    ∃ inner site' u', t'.at? p = some u' ∧ Encloses around inner ∧ Filled inner site' u u' := by
  induction p generalizing around site t t' with
  | nil =>
    cases hu
    exact ⟨around, site, t', rfl, .refl around, h⟩
  | cons i p ih =>
    obtain ⟨c, hc, hcu⟩ := Option.bind_eq_some_iff.mp hu
    cases hin : inward? around t i with
    | none =>
      cases h with
      | literal _ hleaf => simp [hleaf] at hc
      | node _ hkept _ =>
        refine ⟨around, site, u, ?_, .refl around, .refl u around site⟩
        rw [at?, children_node, hkept i hin]
        exact hu
    | some inner =>
      obtain ⟨site', c', hc', hfilled⟩ := h.child hin hc
      obtain ⟨inner', site'', u', hu', hencloses, hfilled'⟩ := ih hfilled hcu
      exact ⟨inner', site'', u', by rw [at?, hc', Option.bind_some, hu'],
        (encloses_inward hin).trans hencloses, hfilled'⟩

/-- The same below a node, with what holds for the child that is on the way. -/
theorem Filled.at_inward {inside : Surroundings → Surroundings} (h : Filled around site t t')
    (hn : t.at? p = some n) (hin : ∀ outer, inward? outer n i = some (inside outer))
    (hu : t.at? (p ++ i :: q) = some u) :
    ∃ outer inner site' u', t'.at? (p ++ i :: q) = some u' ∧ Encloses around outer ∧
      Encloses (inside outer) inner ∧ Filled inner site' u u' := by
  rw [at?_append, hn, Option.bind_some] at hu
  obtain ⟨c, hc, hu⟩ := Option.bind_eq_some_iff.mp hu
  obtain ⟨outer, site', n', hn', houter, hfilled⟩ := h.at hn
  obtain ⟨site'', c', hc', hchild⟩ := hfilled.child (hin outer) hc
  obtain ⟨inner, site₃, u', hu', hinner, hfilled'⟩ := hchild.at hu
  refine ⟨outer, inner, site₃, u', ?_, houter, hinner, hfilled'⟩
  rw [at?_append, hn', Option.bind_some, at?, hc', Option.bind_some, hu']

theorem Filled.eq_or_mayReplace (h : Filled around site u u') (hkey : u.variableKey? = some name) :
    u' = u ∨ around.mayReplace name = true := by
  cases h with
  | literal hname _ _ hmay =>
    cases hkey.symm.trans hname
    exact .inr hmay
  | @node _ _ e cs cs' _ hkept _ =>
    have hflow : flowOf e = .read := by
      unfold flowOf
      rw [show e.kind = .variableRef from kind_of_variableKey? hkey]
    have hcs : cs' = cs := List.ext_getElem? fun i => hkept i (by
      simp only [inward?, element_node, hflow])
    exact .inl (by rw [hcs])

theorem Filled.same_or_replaced (h : Filled around site u u') :
    (u'.element = u.element ∧ u'.children.length = u.children.length) ∨
      (u.children = [] ∧ Replaced u u') := by
  cases h with
  | literal hname hleaf hsplatted hmay =>
    exact .inr ⟨hleaf, _, _, _, hname, hsplatted, not_isAmbient_of_mayReplace hmay, rfl⟩
  | node hlength => exact .inl ⟨rfl, hlength⟩

/-! ### Writes and parameters -/

/-- What is the same for children that are filled and for those that are kept is the same for all. -/
theorem map_children_eq {α : Type} {f : Tree → α} (hlength : cs'.length = cs.length)
    (hkept : ∀ i, inward? around (.node e cs) i = none → cs'[i]? = cs[i]?)
    (hf : ∀ i inner c c', inward? around (.node e cs) i = some inner → cs[i]? = some c →
      cs'[i]? = some c' → f c' = f c) : cs'.map f = cs.map f := by
  refine List.ext_getElem (by simp [hlength]) fun i hi' hi => ?_
  rw [List.length_map] at hi' hi
  rw [List.getElem_map, List.getElem_map]
  cases hin : inward? around (.node e cs) i with
  | none =>
    have heq := hkept i hin
    rw [List.getElem?_eq_getElem hi', List.getElem?_eq_getElem hi] at heq
    rw [Option.some.inj heq]
  | some inner =>
    exact hf i inner _ _ hin (List.getElem?_eq_getElem hi) (List.getElem?_eq_getElem hi')

/-- Nodes that write their first child: assignments, increments, and loops over a collection. -/
def WritesFirst (e : Element) : Prop :=
  e.kind = .assignment ∨ e.isIncrement = true ∨ e.kind = .forEach

/-- What a node writes stays as it is. -/
theorem inward?_of_writesFirst (h : WritesFirst t.element) : inward? around t 0 = none := by
  unfold inward? flowOf
  rcases h with h | h | h
  · simp [h]
  · have hkind : t.element.kind = .unaryExpression := by
      simp only [Element.isIncrement, Bool.and_eq_true, beq_iff_eq] at h
      exact h.1
    simp [hkind, h]
  · simp [h]

theorem not_writesFirst_of_key (h : u.variableKey? = some name) : ¬ WritesFirst u.element := by
  have hkind : u.element.kind = .variableRef := kind_of_variableKey? h
  simp [WritesFirst, Element.isIncrement, hkind]

theorem ownWrites_eq (h : WritesFirst e → cs'[0]? = cs[0]?) :
    (Tree.node e cs').ownWrites = (Tree.node e cs).ownWrites := by
  have hfirst (hfirst : cs'[0]? = cs[0]?) : targetsFirst cs' = targetsFirst cs := by
    cases cs <;> cases cs' <;> simp_all [targetsFirst]
  unfold ownWrites
  simp only [kind_node, children_node]
  split
  next hkind => exact hfirst (h (.inl hkind))
  next =>
    rw [isIncrement, isIncrement, element_node, element_node]
    split
    next hincrement => exact hfirst (h (.inr (.inl hincrement)))
    next => rfl
  next hkind => rw [List.head?_eq_getElem?, List.head?_eq_getElem?, h (.inr (.inr hkind))]
  next => rfl

theorem writes_toTree (quoting : Quoting) (v : Value) : (v.toTree quoting).writes = [] := by
  refine List.flatMap_eq_nil_iff.mpr fun s hs => ?_
  have hkind := kind_of_mem_toTree quoting v s hs
  simp only [valueKinds, List.mem_cons, List.not_mem_nil, or_false] at hkind
  unfold ownWrites
  rcases hkind with hkind | hkind | hkind | hkind <;> rw [hkind]

theorem writes_of_leaf (hkey : u.variableKey? = some name) (hleaf : u.children = []) :
    u.writes = [] := by
  obtain ⟨e, cs⟩ := u
  cases hleaf
  rw [writes_node, ownWrites, kind_of_variableKey? hkey]
  rfl

theorem Filled.writes_eq (h : Filled around site t t') : t'.writes = t.writes := by
  induction h with
  | literal hname hleaf => rw [writes_toTree, writes_of_leaf hname hleaf]
  | @node around site e cs cs' hlength hkept _ ih =>
    have hown : (Tree.node e cs').ownWrites = (Tree.node e cs).ownWrites :=
      ownWrites_eq fun hfirst => hkept 0 (inward?_of_writesFirst hfirst)
    rw [writes_node, writes_node, hown, List.flatMap_def, List.flatMap_def,
      map_children_eq hlength hkept ih]

theorem parameterNames_node (e : Element) (cs : List Tree) : (Tree.node e cs).parameterNames =
    (if e.kind = .parameter then (((Tree.node e cs).childOf? .variableRef).bind variableKey?).toList
      else []) ++ cs.flatMap parameterNames := by
  have hbelow : ((nodesAll cs).filter (·.is .parameter)).filterMap
      (fun p => (p.childOf? .variableRef).bind variableKey?) = cs.flatMap parameterNames := by
    rw [nodesAll_eq_flatMap, List.filter_flatMap, List.filterMap_flatMap]
    rfl
  rw [parameterNames, nodes_eq, children_node, List.filter_cons, ← hbelow]
  by_cases hkind : e.kind = .parameter
  · rw [if_pos hkind, if_pos (by simp [Tree.is, hkind]), List.filterMap_cons]
    cases ((Tree.node e cs).childOf? .variableRef).bind variableKey? <;> rfl
  · rw [if_neg hkind, if_neg (by simp [Tree.is, hkind]), List.nil_append]

theorem parameterNames_toTree (quoting : Quoting) (v : Value) :
    (v.toTree quoting).parameterNames = [] := by
  have hnone : (v.toTree quoting).nodes.filter (·.is .parameter) = [] :=
    List.filter_eq_nil_iff.mpr fun s hs hparameter => by
      have hkind := kind_of_mem_toTree quoting v s hs
      rw [is_iff.mp hparameter] at hkind
      simp [valueKinds] at hkind
  rw [parameterNames, hnone]
  rfl

theorem parameterNames_of_leaf (hkey : u.variableKey? = some name) (hleaf : u.children = []) :
    u.parameterNames = [] := by
  obtain ⟨e, cs⟩ := u
  cases hleaf
  have hkind : e.kind = .variableRef := kind_of_variableKey? hkey
  rw [parameterNames_node, if_neg (by simp [hkind])]
  rfl

/-- There is no literal in the place of a parameter's variable. -/
theorem Filled.variable_of_parameter {holder : Holder} (hkind : holder.element.kind = .parameter)
    (h : Filled around (some ⟨holder, i⟩) u u') (hu : u.is .variableRef ∨ u'.is .variableRef) :
    u' = u := by
  cases h with
  | @literal _ _ _ name v quoting _ _ _ _ hquoting =>
    rw [Site.quoting?, Site.parentKind, hkind] at hquoting
    cases hquoting
  | @node _ _ e cs cs' _ hkept _ =>
    have hvariable : e.kind = .variableRef := by simpa [Tree.is] using hu
    have hflow : flowOf e = .read := by
      unfold flowOf
      rw [hvariable]
    have hcs : cs' = cs := List.ext_getElem? fun i => hkept i (by
      simp only [inward?, element_node, hflow])
    rw [hcs]

/-- The variable of a parameter is the first one among its children. -/
theorem childOf?_eq (hlength : cs'.length = cs.length)
    (hkept : ∀ i, inward? around (.node e cs) i = none → cs'[i]? = cs[i]?)
    (hsame : ∀ i inner c c', inward? around (.node e cs) i = some inner → cs[i]? = some c →
      cs'[i]? = some c' → c.is .variableRef = true ∨ c'.is .variableRef = true → c' = c) :
    (Tree.node e cs').childOf? .variableRef = (Tree.node e cs).childOf? .variableRef := by
  have hguard : cs'.map (Option.guard (·.is .variableRef)) = cs.map (Option.guard (·.is .variableRef)) :=
    map_children_eq hlength hkept fun i inner c c' hin hc hc' => by
      by_cases h : c.is .variableRef = true ∨ c'.is .variableRef = true
      · rw [hsame i inner c c' hin hc hc' h]
      · rw [not_or] at h
        rw [Option.guard, Option.guard, if_neg h.1, if_neg h.2]
  have hfind (ts : List Tree) : ts.find? (·.is .variableRef) =
      (ts.map (Option.guard (·.is .variableRef))).findSome? id := by
    rw [List.findSome?_map, Function.id_comp, List.findSome?_guard]
  rw [childOf?, childOf?, children_node, children_node, hfind, hfind, hguard]

theorem Filled.parameterNames_eq (h : Filled around site t t') : t'.parameterNames = t.parameterNames := by
  induction h with
  | literal hname hleaf => rw [parameterNames_toTree, parameterNames_of_leaf hname hleaf]
  | @node around site e cs cs' hlength hkept hfilled ih =>
    rw [parameterNames_node, parameterNames_node, List.flatMap_def, List.flatMap_def,
      map_children_eq hlength hkept ih]
    by_cases hkind : e.kind = .parameter
    · rw [if_pos hkind, if_pos hkind,
        childOf?_eq hlength hkept fun i inner c c' hin hc hc' =>
          (hfilled i inner c c' hin hc hc').variable_of_parameter hkind]
    · rw [if_neg hkind, if_neg hkind]

/-! ### Whole scripts -/

/-- The parts of a loop that its rounds run. -/
def isRepeated (kind : Kind) (i : Nat) : Bool :=
  match kind with
  | .forEach => i == 1
  | .forLoop => i != 0
  | .whileLoop | .doWhile | .doUntil => true
  | _ => false

theorem inward?_of_isRepeated (h : isRepeated n.kind i = true) (around : Surroundings) :
    inward? around n i = some (around.inLoop n.writes) := by
  obtain ⟨e, cs⟩ := n
  rw [kind_node] at h
  unfold isRepeated at h
  unfold inward? flowOf
  rw [element_node]
  split at h <;> simp_all

theorem inward?_of_definition (h : n.kind = .functionDefinition ∨ n.kind = .scriptBlockExpression)
    (i : Nat) (around : Surroundings) : inward? around n i = some around.later := by
  obtain ⟨e, cs⟩ := n
  rw [kind_node] at h
  unfold inward? flowOf
  rcases h with h | h <;> simp [h]

/-- The same script, but for reads that became literals. -/
structure ReadsOnly (t t' : Tree) : Prop where
  writes : t'.writes = t.writes
  parameters : t'.parameterNames = t.parameterNames
  /-- Whatever stands where an assignment, an increment or a loop over a collection writes. -/
  targets : ∀ p n, t.at? p = some n → WritesFirst n.element → t'.at? (p ++ [0]) = t.at? (p ++ [0])
  elsewhere : ∀ p u, t.at? p = some u → ∃ u', t'.at? p = some u' ∧
    ((u'.element = u.element ∧ u'.children.length = u.children.length) ∨
      (u.children = [] ∧ Replaced u u'))
  /-- What a loop writes is read in its rounds as before. -/
  loops : ∀ p n i q u name, t.at? p = some n → isRepeated n.kind i = true → name ∈ n.writes →
    t.at? (p ++ i :: q) = some u → u.variableKey? = some name → t'.at? (p ++ i :: q) = some u
  definitions : ∀ p n i q u name, t.at? p = some n →
    n.kind = .functionDefinition ∨ n.kind = .scriptBlockExpression →
    t.at? (p ++ i :: q) = some u → u.variableKey? = some name →
    t'.at? (p ++ i :: q) = some u ∨ t.writes.count name = 1

theorem Filled.readsOnly (h : Filled (.ofTree t) none t t') : ReadsOnly t t' where
  writes := h.writes_eq
  parameters := h.parameterNames_eq
  targets p n hn hfirst := by
    obtain ⟨inner, site, n', hn', -, hfilled⟩ := h.at hn
    rw [at?_child, at?_child, hn, hn', Option.bind_some, Option.bind_some]
    cases hfilled with
    | literal hname => exact absurd hfirst (not_writesFirst_of_key hname)
    | node _ hkept _ => exact hkept 0 (inward?_of_writesFirst hfirst)
  elsewhere p u hu := by
    obtain ⟨inner, site, u', hu', -, hfilled⟩ := h.at hu
    exact ⟨u', hu', hfilled.same_or_replaced⟩
  loops p n i q u name hn hrepeated hwritten hu hkey := by
    obtain ⟨outer, inner, site, u', hu', -, hinner, hfilled⟩ :=
      h.at_inward hn (inward?_of_isRepeated hrepeated) hu
    rcases hfilled.eq_or_mayReplace hkey with rfl | hmay
    · exact hu'
    · exact absurd hwritten (hinner.not_mem_of_mayReplace hmay)
  definitions p n i q u name hn hkind hu hkey := by
    obtain ⟨outer, inner, site, u', hu', houter, hinner, hfilled⟩ :=
      h.at_inward hn (inward?_of_definition hkind i) hu
    rcases hfilled.eq_or_mayReplace hkey with rfl | hmay
    · exact .inl hu'
    · have hcount := hinner.count_of_mayReplace hmay
      rw [houter.written] at hcount
      exact .inr hcount

/-- In a regular script nothing but reads is replaced. -/
theorem propagateConstants_readsOnly (hregular : Regular t) (h : propagateConstants t = some t') :
    ReadsOnly t t' := by
  simp only [propagateConstants, Option.ite_none_left_eq_some, Option.ite_none_right_eq_some,
    Option.some.injEq] at h
  obtain ⟨-, -, rfl⟩ := h
  exact (walk_filled t hregular (.ofTree t) none {}).readsOnly

def assignTo (target value : Tree) : Tree :=
  branch .assignment [("Operator", "Equals")] [target, branch .commandExpression [] [value]]

/-- The script `$x = 1; while ($i -lt bound) { $a[index] = value }`. -/
def rounds (bound index value : Tree) : Tree :=
  scriptOf [setTo "x" 1, branch .whileLoop [] [statementOf (binaryOf "Ilt" (readOf "i") bound),
    branch .statementBlock [] [branch .statements []
      [assignTo (branch .indexExpression [] [readOf "a", index]) value]]]]

theorem propagateConstants_readsOnly_rounds :
    let t := rounds (readOf "x") (readOf "x") (readOf "x")
    let t' := rounds (intTree 1) (readOf "x") (intTree 1)
    Regular t ∧ propagateConstants t = some t' ∧ ReadsOnly t t' := by
  intro t t'
  have hregular : Regular t := ⟨by decide +kernel, by decide +kernel⟩
  have hput : propagateConstants t = some t' := by decide +kernel
  exact ⟨hregular, hput, propagateConstants_readsOnly hregular hput⟩

/-- The script `$x = 1; switch ($a) { [int]target = 5 }`, with the assignment where only clauses
belong. -/
def misplaced (target : Tree) : Tree :=
  scriptOf [setTo "x" 1, branch .switchStatement [] [statementOf (readOf "a"), branch .clauses []
    [assignTo (branch .convert [] [branch .typeConstraint [("TypeName", "int")] [], target])
      (intTree 5)]]]

/-- Such an assignment is taken for a clause, and a variable that it writes is replaced. -/
theorem propagateConstants_misplaced :
    let t := misplaced (readOf "x")
    let t' := misplaced (intTree 1)
    let target := [0, 0, 1, 1, 0, 0]
    (∀ n ∈ t.nodes, n.kind = .variableRef → n.children = []) ∧ t.malformed = [] ∧
      propagateConstants t = some t' ∧ t'.at? target ≠ t.at? target ∧
        t.writes.count "x" = 2 ∧ t'.writes.count "x" = 1 := by
  decide +kernel

end Unscramble.Simplify
