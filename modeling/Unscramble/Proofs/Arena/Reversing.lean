import Unscramble.Proofs.Arena.Deciding
import Unscramble.Proofs.Arena.Outermost

/-! Arrays that are reversed in an arena. The list of items gives way to a new one above the same items, and the call
disappears. These are two edits of one batch, which act on two statements of the same list. -/
namespace Unscramble

open Simplify IdTree

namespace IdTree

section
variable {f : Nat → Element} {s t : IdTree}

theorem unwrapStatement_mem (f : Nat → Element) (t : IdTree) : t.unwrapStatement f ∈ t.nodes := by
  induction t using unwrapStatement.induct f with
  | case1 id child hwrapper ih =>
    rw [unwrapStatement, if_pos hwrapper]
    exact mem_nodes_iff.mpr (.inr ⟨child, List.mem_cons_self, ih⟩)
  | case2 id child hwrapper =>
    rw [unwrapStatement, if_neg hwrapper]
    exact mem_nodes_self _
  | case3 t hnode =>
    rw [unwrapStatement]
    · exact mem_nodes_self t
    · exact hnode

theorem child_below (hs : s ∈ t.nodes) {c : IdTree} (hc : c ∈ s.children) : c ∈ nodesAll t.children := by
  rcases mem_nodes_iff.mp hs with rfl | ⟨d, hd, hs⟩
  · exact mem_nodesAll.mpr ⟨c, hc, mem_nodes_self c⟩
  · exact mem_nodesAll.mpr ⟨d, hd, child_mem_nodes hs hc⟩

/-- The list of items that a value carries, if it is an array. -/
def itemsOf? (f : Nat → Element) (value : IdTree) : Option IdTree :=
  (value.unwrapStatement f).childOf? f .elements

theorem itemsOf?_below {items : IdTree} (h : itemsOf? f t = some items) : items ∈ nodesAll t.children :=
  child_below (unwrapStatement_mem f t) (childOf?_mem h)

/-- Puts a new list above the items of a list, in their reverse order. -/
def reversing (f : Nat → Element) (items : IdTree) (id : Nat) : Option (List Tree) :=
  if id = items.root then some [.branch .elements [] (items.children.map (toTree f)).reverse] else none

theorem reversing_ne_none {items : IdTree} {id : Nat} (h : reversing f items id ≠ none) : id = items.root := by
  by_contra hne
  exact h (if_neg hne)

theorem reverseFirstElements_append {before after : List Tree} {items : Tree}
    (hbefore : ∀ u ∈ before, u.is .elements = false) (hitems : items.is .elements = true) :
    reverseFirstElements (before ++ items :: after) =
      before ++ .branch .elements [] items.children.reverse :: after := by
  induction before with
  | nil => rw [List.nil_append, reverseFirstElements, if_pos hitems, List.nil_append]
  | cons u before ih =>
    obtain ⟨hu, hbefore⟩ := List.forall_mem_cons.mp hbefore
    rw [List.cons_append, reverseFirstElements, if_neg (by simp [hu]), ih hbefore, List.cons_append]

theorem fill_array {array items : IdTree} (hnodup : array.ids.Nodup)
    (h : array.childOf? f .elements = some items) :
    array.fill f (reversing f items) =
      (array.toTree f).withChildren (reverseFirstElements (array.toTree f).children) := by
  obtain ⟨hitems, before, after, hsplit, hbefore⟩ := List.find?_eq_some_iff_append.mp h
  have hids := nodup_below hnodup
  rw [hsplit] at hids
  have hlist : (items.toTree f).is .elements = true := (is_toTree f items _).trans hitems
  have hothers : ∀ u ∈ before.map (toTree f), u.is .elements = false := by
    intro u hu
    obtain ⟨c, hc, rfl⟩ := List.mem_map.mp hu
    rw [is_toTree]
    simpa using hbefore c hc
  have hnew (id : Nat) (hne : reversing f items id ≠ none) : id ∈ items.ids := by
    rw [reversing_ne_none hne]
    exact root_mem_ids items
  rw [fill_eq, hsplit, fillAll_around hids hnew, reversing, if_pos rfl, Option.getD_some, Tree.withChildren,
    element_toTree, children_toTree, hsplit, List.map_append, List.map_cons,
    reverseFirstElements_append hothers hlist, children_toTree]
  rfl

/-- The array that a value carries looks reversed when its list of items is replaced. -/
theorem fill_reversing (value : IdTree) {items : IdTree} (hnodup : value.ids.Nodup)
    (h : itemsOf? f value = some items) :
    value.fill f (reversing f items) = (value.toTree f).mapCore fun array =>
      array.withChildren (reverseFirstElements array.children) := by
  induction value using unwrapStatement.induct f with
  | case1 id child hwrapper ih =>
    have hchild : itemsOf? f child = some items := by
      rw [itemsOf?, unwrapStatement, if_pos hwrapper] at h
      exact h
    have hnodupChild : child.ids.Nodup := nodup_child hnodup List.mem_cons_self
    have hnone : reversing f items child.root = none := by
      by_contra hne
      have hroot := reversing_ne_none hne
      exact root_not_mem_below hnodupChild (hroot ▸ List.mem_map_of_mem (itemsOf?_below hchild))
    have hcore : ((node id [child]).toTree f).mapCore
        (fun array => array.withChildren (reverseFirstElements array.children)) =
        .node (f id) [(child.toTree f).mapCore fun array =>
          array.withChildren (reverseFirstElements array.children)] := if_pos hwrapper
    rw [hcore, fill, fillAll, fillAll, hnone, Option.getD_none, List.append_nil, ih hnodupChild hchild]
  | case2 id child hwrapper =>
    rw [itemsOf?, unwrapStatement, if_neg hwrapper] at h
    exact (fill_array hnodup h).trans (if_neg hwrapper).symm
  | case3 t hnode =>
    obtain ⟨id, below⟩ := t
    cases below with
    | nil => exact fill_array hnodup h
    | cons child rest =>
      cases rest with
      | nil => exact absurd rfl (hnode id child)
      | cons second rest => exact fill_array hnodup h

/-- A statement that assigns an array to a variable is made of the variable, the array and what comes behind. -/
theorem reverseAssigned?_toTree {name : String} {statement : IdTree} {u : Tree}
    (h : reverseAssigned? name (statement.toTree f) = some u) :
    ∃ target value rest items, statement.children = target :: value :: rest ∧ itemsOf? f value = some items ∧
      u = .node (f statement.root) (target.toTree f :: (value.toTree f).mapCore (fun array =>
        array.withChildren (reverseFirstElements array.children)) :: rest.map (toTree f)) := by
  obtain ⟨id, below⟩ := statement
  rw [reverseAssigned?] at h
  split at h
  next looks look others hplain hchildren =>
    rw [children_toTree, children_node] at hchildren
    match below, hchildren with
    | target :: value :: rest, rfl =>
      dsimp only at h
      split at h
      next hnamed =>
        obtain ⟨-, hitems⟩ := Bool.and_eq_true_iff.mp hnamed
        rw [Tree.items?, Option.isSome_bind, unwrapStatement_toTree, childOf?_toTree, Option.any_map] at hitems
        cases hlist : (value.unwrapStatement f).childOf? f .elements with
        | none => simp [hlist] at hitems
        | some items =>
          cases h
          exact ⟨target, value, rest, items, rfl, hlist, rfl⟩
      next => cases h
  next => cases h

/-- The statement looks reversed when the list of items is replaced. -/
theorem fill_statement {statement target value items : IdTree} {rest : List IdTree}
    (hnodup : statement.ids.Nodup) (hchildren : statement.children = target :: value :: rest)
    (hitems : itemsOf? f value = some items) :
    statement.fill f (reversing f items) = .node (f statement.root) (target.toTree f ::
      (value.toTree f).mapCore (fun array => array.withChildren (reverseFirstElements array.children)) ::
        rest.map (toTree f)) := by
  have hids := nodup_below hnodup
  rw [hchildren] at hids
  have hnodupValue : value.ids.Nodup := hids.sublist (ids_sublist_idsAll (by simp))
  have hbelow : items.root ∈ idsAll value.children := List.mem_map_of_mem (itemsOf?_below hitems)
  have hnew (id : Nat) (hne : reversing f items id ≠ none) : id ∈ value.ids := by
    rw [reversing_ne_none hne]
    exact mem_ids_of_below hbelow
  have hnone : reversing f items value.root = none := by
    by_contra hne
    exact root_not_mem_below hnodupValue (reversing_ne_none hne ▸ hbelow)
  have haround := @fillAll_around f value (reversing f items) [target] rest hids hnew
  rw [List.singleton_append] at haround
  rw [fill_eq, hchildren, haround, hnone, Option.getD_none, fill_reversing value hnodupValue hitems]
  rfl

end
end IdTree

namespace Arena

section
variable {a : Arena} {t : IdTree}

theorem idsAll_reverse_perm (ts : List IdTree) : (idsAll ts.reverse).Perm (idsAll ts) := by
  induction ts with
  | nil => exact .refl _
  | cons t ts ih =>
    rw [List.reverse_cons, idsAll_append, idsAll_singleton, idsAll_cons]
    exact (ih.append_right _).trans List.perm_append_comm

/-- The edits that reverse a list of items and delete a call. -/
def reversal (items : IdTree) (call : Nat) : List (Nat × List Sketch) :=
  [(items.root, [.made { kind := .elements } (items.children.reverse.map .kept)]), (call, [])]

/-- The parts of a list of statements in which an array is assigned and reversed later. -/
structure Reversal (list : IdTree) (pre : List IdTree) (statement : IdTree) (mid : List IdTree) (call : IdTree)
    (post : List IdTree) (items : IdTree) : Prop where
  children : list.children = pre ++ statement :: (mid ++ call :: post)
  below : items ∈ nodesAll statement.children

section
variable {list statement call items : IdTree} {pre mid post : List IdTree}

theorem Reversal.statement_mem (h : Reversal list pre statement mid call post items) : statement ∈ list.children := by
  simp [h.children]

theorem Reversal.call_mem (h : Reversal list pre statement mid call post items) : call ∈ list.children := by
  simp [h.children]

theorem Reversal.items_ids (h : Reversal list pre statement mid call post items) : items.root ∈ statement.ids :=
  mem_ids_of_below (List.mem_map_of_mem h.below)

/-- The parts have no node in common. -/
theorem Reversal.nodup (h : Reversal list pre statement mid call post items) (hnodup : list.ids.Nodup) :
    (idsAll pre ++ (statement.ids ++ (idsAll mid ++ (call.ids ++ idsAll post)))).Nodup := by
  have hids := nodup_below hnodup
  rwa [h.children, idsAll_append, idsAll_cons, idsAll_append, idsAll_cons] at hids

theorem keepsAll_reversal (items : IdTree) :
    Sketch.keepsAll [.made { kind := .elements } (items.children.reverse.map .kept)] = items.children.reverse := by
  rw [Sketch.keepsAll, Sketch.keeps, Sketch.keepsAll_kept, Sketch.keepsAll, List.append_nil]

theorem Shape.sound_reversal (h : a.Shape t) (hlist : list ∈ t.nodes)
    (hr : Reversal list pre statement mid call post items) : Sound t (reversal items call.root) where
  below := by
    have hitems : items ∈ t.nodes :=
      mem_nodes_trans (child_mem_nodes hlist hr.statement_mem) ((nodesAll_below_sublist statement).subset hr.below)
    refine List.forall_mem_cons.mpr ⟨⟨items, hitems, rfl, fun u hu => ?_⟩, List.forall_mem_singleton.mpr
      ⟨call, child_mem_nodes hlist hr.call_mem, rfl, by simp [Sketch.keepsAll]⟩⟩
    rw [keepsAll_reversal, List.mem_reverse] at hu
    exact mem_nodesAll.mpr ⟨u, hu, mem_nodes_self u⟩
  nodup := by
    have hitems : items ∈ list.nodes :=
      mem_nodes_trans (child_mem_nodes (mem_nodes_self list) hr.statement_mem)
        ((nodesAll_below_sublist statement).subset hr.below)
    have hids := nodup_below (nodup_of_node h.nodup (mem_nodes_trans hlist hitems))
    rw [reversal, List.flatMap_cons, List.flatMap_singleton, keepsAll_reversal, Sketch.keepsAll, idsAll_nil,
      List.append_nil]
    exact (idsAll_reverse_perm _).nodup_iff.mpr hids

/-- Both edits are carried out. -/
theorem Shape.taken_reversal (h : a.Shape t) (hlist : list ∈ t.nodes)
    (hr : Reversal list pre statement mid call post items) :
    t.taken (reversal items call.root) = reversal items call.root := by
  have hitems : items.root ∈ idsAll list.children := mem_idsAll.mpr ⟨statement, hr.statement_mem, hr.items_ids⟩
  have hcall : call.root ∈ idsAll list.children := mem_idsAll.mpr ⟨call, hr.call_mem, root_mem_ids call⟩
  have hroot : t.root ∉ idsAll list.children := root_not_below h hlist
  refine takenFrom_eq_self (List.forall_mem_cons.mpr ⟨ne_of_mem_of_not_mem hitems hroot,
    List.forall_mem_singleton.mpr (ne_of_mem_of_not_mem hcall hroot)⟩) (List.pairwise_pair.mpr ?_) (by simp)
  obtain ⟨-, hrest, -⟩ := List.nodup_append.mp (hr.nodup (nodup_of_node h.nodup hlist))
  obtain ⟨-, -, hapart⟩ := List.nodup_append.mp hrest
  refine not_overlap h (child_mem_nodes hlist hr.call_mem) (child_mem_nodes hlist hr.statement_mem)
    (fun x hx hxs => ?_) (root_mem_ids call) hr.items_ids
  exact hapart x hxs x (by simp [hx]) rfl

/-- What the edits put in the places of nodes. -/
theorem lookup_reversal (f : Nat → Element) (items : IdTree) (call id : Nat) :
    (lookup (reversal items call) id).map (Sketch.trees f) =
      (reversing f items id).or (if call = id then some [] else none) := by
  rw [reversal, lookup_cons, lookup_cons, reversing]
  by_cases hitems : items.root = id
  · rw [if_pos hitems, if_pos hitems.symm, Option.map_some, Option.some_or, Sketch.trees, Sketch.tree,
      Sketch.trees_kept, List.map_reverse, Sketch.trees]
    rfl
  · rw [if_neg hitems, if_neg (Ne.symm hitems), Option.none_or]
    split <;> rfl

/-- The list of statements in which an array is reversed. -/
theorem fillAll_reversal (f : Nat → Element) (hr : Reversal list pre statement mid call post items)
    (hnodup : list.ids.Nodup) :
    fillAll f (fun id => (lookup (reversal items call.root) id).map (Sketch.trees f)) list.children =
      pre.map (IdTree.toTree f) ++ statement.fill f (reversing f items) ::
        (mid.map (IdTree.toTree f) ++ post.map (IdTree.toTree f)) := by
  obtain ⟨-, hrest, hpre⟩ := List.nodup_append.mp (hr.nodup hnodup)
  obtain ⟨hnodupStatement, hrest, hstatement⟩ := List.nodup_append.mp hrest
  obtain ⟨-, hrest, hmid⟩ := List.nodup_append.mp hrest
  obtain ⟨-, -, hcall⟩ := List.nodup_append.mp hrest
  have hitems := hr.items_ids
  have hroot := root_mem_ids call
  have hnone (id : Nat) (hne : id ≠ items.root) (hne' : id ≠ call.root) :
      (lookup (reversal items call.root) id).map (Sketch.trees f) = none := by
    rw [lookup_reversal, reversing, if_neg hne, if_neg hne'.symm]
    rfl
  have hbefore := @fillAll_of_none f _ pre fun id hid =>
    hnone id (hpre id hid _ (by simp [hitems])) (hpre id hid _ (by simp [hroot]))
  have hbetween := @fillAll_of_none f _ mid fun id hid =>
    hnone id (hstatement _ hitems id (by simp [hid])).symm (hmid id hid _ (by simp [hroot]))
  have hbehind := @fillAll_of_none f _ post fun id hid =>
    hnone id (hstatement _ hitems id (by simp [hid])).symm (hcall _ hroot id hid).symm
  have hstays : (lookup (reversal items call.root) statement.root).map (Sketch.trees f) = none :=
    hnone _ (fun heq => root_not_mem_below hnodupStatement (heq ▸ List.mem_map_of_mem hr.below))
      (hstatement _ (root_mem_ids statement) _ (by simp [hroot]))
  have hgoes : (lookup (reversal items call.root) call.root).map (Sketch.trees f) = some [] := by
    rw [lookup_reversal, reversing, if_neg (hstatement _ hitems _ (by simp [hroot])).symm, if_pos rfl]
    rfl
  have hinside : statement.fill f (fun id => (lookup (reversal items call.root) id).map (Sketch.trees f)) =
      statement.fill f (reversing f items) := fill_congr statement fun id hid => by
    rw [lookup_reversal, if_neg (hstatement id (mem_ids_of_below hid) _ (by simp [hroot])).symm, Option.or_none]
  rw [hr.children, fillAll_append, fillAll, fillAll_append, fillAll, hbefore, hbetween, hbehind, hstays, hgoes,
    hinside]
  rfl

theorem Shape.reversal_does (h : a.Shape t) {s : Seat} (hs : s.On t)
    (hr : Reversal s.node pre statement mid call post items) :
    (Plan.replace (reversal items call.root) (· == 2)).Does a (some ((s.place a.element).update
      ((s.node.toTree a.element).withChildren (pre.map (IdTree.toTree a.element) ++
        statement.fill a.element (reversing a.element items) ::
          (mid.map (IdTree.toTree a.element) ++ post.map (IdTree.toTree a.element)))))) := by
  obtain ⟨hcount, htree, hshape⟩ := replace_carryOut h (h.sound_reversal hs.mem_nodes hr) (· == 2)
  rw [h.taken_reversal hs.mem_nodes hr] at hcount htree
  refine ⟨hcount, htree.trans ?_, hshape⟩
  rw [hs.fill_plug h.nodup, fill_eq, fillAll_reversal a.element hr (nodup_of_node h.nodup hs.mem_nodes)]
  · rw [Option.getD_some, Place.update, Tree.withChildren, element_toTree]
  · intro id hne
    have hid : id = items.root ∨ id = call.root := by
      by_contra hother
      rw [not_or] at hother
      rw [lookup_reversal, reversing, if_neg hother.1, if_neg (Ne.symm hother.2)] at hne
      exact hne rfl
    rcases hid with rfl | rfl
    · exact mem_idsAll.mpr ⟨statement, hr.statement_mem, hr.items_ids⟩
    · exact mem_idsAll.mpr ⟨call, hr.call_mem, root_mem_ids call⟩

/-- The items of the array that is reversed when a statement of a list is the call. -/
def reversedItems? (a : Arena) (name : String) (list : IdTree) (call : Nat) : Option IdTree :=
  let before := list.children.take call
  (before.findIdx? fun t => (reverseAssigned? name (t.toTree a.element)).isSome).bind fun i =>
    if (before.drop (i + 1)).any fun t => (t.toTree a.element).nodes.any (isNamed name) then none
    else before[i]?.bind a.assignedItems?

theorem reversedItems?_eq (a : Arena) (name : String) {list call : IdTree} {before post : List IdTree}
    (hsplit : list.children = before ++ call :: post) :
    a.reversedItems? name list before.length =
      (before.findIdx? fun t => (reverseAssigned? name (t.toTree a.element)).isSome).bind fun i =>
        if (before.drop (i + 1)).any fun t => (t.toTree a.element).nodes.any (isNamed name) then none
        else before[i]?.bind a.assignedItems? := by
  have htake : list.children.take before.length = before := by rw [hsplit]; simp
  rw [reversedItems?, htake]

theorem reverseInList?_toTree (f : Nat → Element) (name : String) {list call : IdTree} {before post : List IdTree}
    (hsplit : list.children = before ++ call :: post) :
    reverseInList? name (list.toTree f).children before.length =
      (before.findIdx? fun t => (reverseAssigned? name (t.toTree f)).isSome).bind fun i =>
        if (before.drop (i + 1)).any fun t => (t.toTree f).nodes.any (isNamed name) then none
        else (before[i]?.bind fun t => reverseAssigned? name (t.toTree f)).map fun reversed =>
          (before.map (IdTree.toTree f)).set i reversed ++ post.map (IdTree.toTree f) := by
  have htake : list.children.take before.length = before := by rw [hsplit]; simp
  have hbehind : (list.children.map (IdTree.toTree f)).drop (before.length + 1) = post.map (IdTree.toTree f) := by
    rw [hsplit, ← List.map_drop]
    simp
  rw [reverseInList?, children_toTree, hbehind, ← List.map_take, htake, List.findIdx?_map]
  refine congrArg _ (funext fun i => ?_)
  rw [← List.map_drop, List.any_map, List.getElem?_map, Option.bind_map]
  rfl

/-- An array that is reversed in a list of statements is reversed by two edits. -/
theorem Shape.reverseInList_does (h : a.Shape t) {trail : List (IdTree × Nat)} {list call : IdTree} {i : Nat}
    (hlist : Seat.On t ⟨trail, list⟩) (hcall : list.children[i]? = some call) (name : String) :
    Option.Rel (fun items u => (Plan.replace (reversal items call.root) (· == 2)).Does a (some u))
      (a.reversedItems? name list i)
      ((reverseInList? name (list.toTree a.element).children i).map fun statements =>
        (Seat.place a.element ⟨trail, list⟩).update ((list.toTree a.element).withChildren statements)) := by
  obtain ⟨before, post, hsplit, rfl⟩ := exists_eq_append hcall
  rw [reversedItems?_eq a name hsplit, reverseInList?_toTree a.element name hsplit]
  cases hfind : before.findIdx? fun t => (reverseAssigned? name (t.toTree a.element)).isSome with
  | none => exact .none
  | some j =>
    rw [Option.bind_some, Option.bind_some]
    split
    next => exact .none
    next =>
      obtain ⟨hj, hassigned, -⟩ := List.findIdx?_eq_some_iff_getElem.mp hfind
      obtain ⟨pre, mid, hbefore, rfl⟩ := exists_eq_append (List.getElem?_eq_getElem hj)
      obtain ⟨reversed, hreversed⟩ := Option.isSome_iff_exists.mp hassigned
      rw [List.getElem?_eq_getElem hj, Option.bind_some, Option.bind_some, hreversed, Option.map_some,
        Option.map_some]
      generalize before[pre.length] = statement at hbefore hreversed
      subst hbefore
      obtain ⟨target, value, rest, items, hchildren, hitems, hlook⟩ := reverseAssigned?_toTree hreversed
      have hassignedItems : a.assignedItems? statement = some items := by
        rw [assignedItems?, hchildren]
        exact hitems
      have hparts : Reversal list pre statement mid call post items := by
        refine ⟨by rw [hsplit, List.append_assoc, List.cons_append], ?_⟩
        rw [hchildren]
        exact mem_nodesAll.mpr ⟨value, by simp, (nodesAll_below_sublist value).subset (itemsOf?_below hitems)⟩
      have hnodup := nodup_of_node h.nodup (child_mem_nodes hlist.mem_nodes hparts.statement_mem)
      have hdoes := h.reversal_does hlist hparts
      rw [fill_statement hnodup hchildren hitems, ← hlook] at hdoes
      rw [hassignedItems]
      refine .some ?_
      simpa using hdoes

theorem Shape.reversedAt?_does (h : a.Shape t) {s : Seat} (hs : s.On t) (written : List String) :
    Option.Rel (fun items u => (Plan.replace (reversal items s.id) (· == 2)).Does a (some u))
      (a.reversedAt? written s) (Simplify.reverseAt? written (s.place a.element)) := by
  cases hs with
  | root => exact .none
  | @child trail list i call hlist hcall =>
    have harena : a.reversedAt? written ⟨(list, i) :: trail, call⟩ =
        if list.is a.element .statements then
          (reversedName? (call.toTree a.element).unwrapStatement).bind fun name =>
            if Vocabulary.isAmbient name || written.count name != 1 then none
            else a.reversedItems? name list i
        else none := rfl
    have htree : Simplify.reverseAt? written (Seat.place a.element ⟨(list, i) :: trail, call⟩) =
        if (list.toTree a.element).is .statements then
          (reversedName? (call.toTree a.element).unwrapStatement).bind fun name =>
            if Vocabulary.isAmbient name || written.count name != 1 then none
            else (reverseInList? name (list.toTree a.element).children i).map fun statements =>
              (Seat.place a.element ⟨trail, list⟩).update ((list.toTree a.element).withChildren statements)
        else none := rfl
    rw [harena, htree, is_toTree]
    split
    next =>
      cases reversedName? (call.toTree a.element).unwrapStatement with
      | none => exact .none
      | some name =>
        rw [Option.bind_some, Option.bind_some]
        split
        next => exact .none
        next => exact h.reverseInList_does hlist hcall name
    next => exact .none

theorem Shape.reverseConstArray_does (h : a.Shape t) :
    a.reverseConstArray.Does a (Simplify.reverseConstArray a.toTree) := by
  have hfound : Option.Rel (fun (found : Seat × IdTree) u =>
      (Plan.replace (reversal found.2 found.1.id) (· == 2)).Does a (some u))
      (t.seats.findSome? fun s => (a.reversedAt? a.toTree.writes s).map (s, ·))
      (t.seats.findSome? fun s => Simplify.reverseAt? a.toTree.writes (s.place a.element)) := by
    refine rel_findSome? fun s hs => ?_
    have hhere := h.reversedAt?_does (Seat.on_of_mem hs) a.toTree.writes
    generalize a.reversedAt? a.toTree.writes s = items? at hhere
    generalize Simplify.reverseAt? a.toTree.writes (s.place a.element) = new at hhere
    cases hhere with
    | none => exact .none
    | some hdoes => exact .some hdoes
  have hplaces : Simplify.reverseConstArray a.toTree =
      t.seats.findSome? fun s => Simplify.reverseAt? a.toTree.writes (s.place a.element) := by
    rw [Simplify.reverseConstArray]
    generalize a.toTree.writes = written
    rw [h.toTree_eq, ← Seat.map_place_seats, List.findSome?_map]
    rfl
  rw [reverseConstArray, h.layout_eq, hplaces]
  generalize (t.seats.findSome? fun s => (a.reversedAt? a.toTree.writes s).map (s, ·)) = found at hfound
  generalize (t.seats.findSome? fun s => Simplify.reverseAt? a.toTree.writes (s.place a.element)) = new at hfound
  cases hfound with
  | none => exact h.does_nothing rfl
  | some hdoes => exact hdoes

end
end
end Arena
end Unscramble
