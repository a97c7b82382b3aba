import Unscramble.Proofs.Arena.Respelling

/-! Plans that give nodes one more child. What a node of the rule's turns into depends on the node itself and on how
many children it has, not on what stands below it. -/
namespace Unscramble

open IdTree

namespace Arena

/-- The position of the child that a node has got when the new children come behind all nodes there are. -/
def newChild? (a : Arena) (patches : List (Nat × Element)) (id : Nat) : Option Nat :=
  (patches.findIdx? (·.1 == id)).map (a.nodes.size + ·)

/-- An arena in which some nodes have got new elements and one more child. -/
structure Extended (a : Arena) (patches : List (Nat × Element)) (child : Element) (b : Arena) : Prop where
  root : b.root = a.root
  size : b.nodes.size = a.nodes.size + patches.length
  children : ∀ x < a.nodes.size, b.children x = a.children x ++ (a.newChild? patches x).toList
  element : ∀ x < a.nodes.size, b.element x = (lookup patches x).getD (a.element x)
  new : ∀ x, a.nodes.size ≤ x → x < b.nodes.size → b.children x = [] ∧ b.element x = child

section
variable {a b : Arena} {t : IdTree} {patches : List (Nat × Element)} {child : Element}

theorem newChild?_bounds {x y : Nat} (h : a.newChild? patches x = some y) :
    a.nodes.size ≤ y ∧ y < a.nodes.size + patches.length := by
  obtain ⟨i, hi, rfl⟩ := Option.map_eq_some_iff.mp h
  obtain ⟨hlt, -⟩ := List.findIdx?_eq_some_iff_getElem.mp hi
  exact ⟨Nat.le_add_right _ _, Nat.add_lt_add_left hlt _⟩

theorem newChild?_inj {x x' y : Nat} (h : a.newChild? patches x = some y) (h' : a.newChild? patches x' = some y) :
    x = x' := by
  obtain ⟨i, hi, hy⟩ := Option.map_eq_some_iff.mp h
  obtain ⟨i', hi', hy'⟩ := Option.map_eq_some_iff.mp h'
  obtain rfl : i = i' := Nat.add_left_cancel (hy.trans hy'.symm)
  obtain ⟨_, hx, -⟩ := List.findIdx?_eq_some_iff_getElem.mp hi
  obtain ⟨_, hx', -⟩ := List.findIdx?_eq_some_iff_getElem.mp hi'
  exact (beq_iff_eq.mp hx).symm.trans (beq_iff_eq.mp hx')

theorem isSome_newChild? (a : Arena) (patches : List (Nat × Element)) (x : Nat) :
    (a.newChild? patches x).isSome = (lookup patches x).isSome := by
  rw [newChild?, lookup, Option.isSome_map, Option.isSome_map, List.findIdx?_isSome, Bool.eq_iff_iff,
    List.any_eq_true, List.find?_isSome]

theorem newChild?_cons (a : Arena) (p : Nat × Element) (patches : List (Nat × Element)) (x : Nat) :
    a.newChild? (p :: patches) x =
      if p.1 = x then some a.nodes.size else (patches.findIdx? (·.1 == x)).map (a.nodes.size + 1 + ·) := by
  rw [newChild?, List.findIdx?_cons]
  by_cases hx : p.1 = x
  · simp [hx]
  · rw [if_neg (by simpa using hx), if_neg hx, Option.map_map]
    exact congrArg (Option.map · _) (funext fun i => by simp only [Function.comp_apply]; omega)

theorem newChild?_eq_none {x : Nat} (h : x ∉ patches.map Prod.fst) : a.newChild? patches x = none := by
  rw [← Option.isNone_iff_eq_none, ← Option.not_isSome, isSome_newChild?, lookup_eq_none h]
  rfl

/-- One node gets a new element and one more child. -/
theorem extended_one (a : Arena) {p : Nat × Element} (hp : p.1 < a.nodes.size) (child : Element) :
    Extended a [p] child (Plan.extendNode child a p) := by
  have hgrows := grows_add a child []
  have hp' : p.1 < (a.add child []).1.nodes.size := hp.trans_le hgrows.size
  have hsize := extends_modifyElement (a.add child []).1 p.1 fun _ => p.2
  have hchildren (x : Nat) : (Plan.extendNode child a p).children x =
      if x = p.1 then (a.add child []).1.children x ++ [a.nodes.size] else (a.add child []).1.children x := by
    rw [← children_modifyElement (a.add child []).1 p.1 fun _ => p.2]
    exact children_modifyChildren _ (hp'.trans_le hsize.size) x _
  have helement (x : Nat) : (Plan.extendNode child a p).element x =
      if x = p.1 then p.2 else (a.add child []).1.element x :=
    (element_modifyChildren _ p.1 x _).trans (element_modifyElement _ hp' _ x)
  have hlast : (Plan.extendNode child a p).nodes.size = a.nodes.size + 1 := by
    refine (size_modifyChildren _ p.1 _).trans ?_
    simp [Arena.modifyElement, Arena.modifyNode]
  refine ⟨rfl, hlast, fun x hx => ?_, fun x hx => ?_, fun x hx hx' => ?_⟩
  · rw [hchildren, newChild?_cons, hgrows.extends.children x hx]
    by_cases hxp : x = p.1
    · rw [if_pos hxp, if_pos hxp.symm, Option.toList_some]
    · rw [if_neg hxp, if_neg (Ne.symm hxp), List.findIdx?_nil, Option.map_none, Option.toList_none, List.append_nil]
  · rw [helement, lookup_cons, hgrows.element hx]
    by_cases hxp : x = p.1
    · rw [if_pos hxp, if_pos hxp.symm, Option.getD_some]
    · rw [if_neg hxp, if_neg (Ne.symm hxp)]
      rfl
  · obtain rfl : x = a.nodes.size := by omega
    rw [hchildren, helement, if_neg hp.ne', if_neg hp.ne', children_add_self, element_add_self]
    exact ⟨rfl, rfl⟩

/-- Nodes that differ get their new elements and children one after the other. -/
theorem Extended.cons {c : Arena} {p : Nat × Element} (h : Extended a [p] child b)
    (h' : Extended b patches child c) (hp : p.1 ∉ patches.map Prod.fst)
    (hlt : ∀ q ∈ patches, q.1 < a.nodes.size) : Extended a (p :: patches) child c := by
  have hsize : b.nodes.size = a.nodes.size + 1 := h.size
  refine ⟨h'.root.trans h.root, ?_, fun x hx => ?_, fun x hx => ?_, fun x hx hx' => ?_⟩
  · rw [h'.size, hsize, List.length_cons]
    omega
  · rw [h'.children x (by omega), h.children x hx, newChild?_cons, newChild?_cons, newChild?, hsize,
      List.append_assoc]
    by_cases hxp : p.1 = x
    · subst hxp
      rw [if_pos rfl, if_pos rfl, ← hsize, ← newChild?, newChild?_eq_none hp, Option.toList_none, List.append_nil]
    · rw [if_neg hxp, if_neg hxp, List.findIdx?_nil, Option.map_none, Option.toList_none, List.nil_append]
  · rw [h'.element x (by omega), h.element x hx, lookup_cons, lookup_cons]
    by_cases hxp : p.1 = x
    · subst hxp
      rw [if_pos rfl, if_pos rfl, lookup_eq_none hp]
      rfl
    · rw [if_neg hxp, if_neg hxp]
      rfl
  · by_cases hlast : x < b.nodes.size
    · obtain ⟨hchildren, helement⟩ := h.new x hx hlast
      have hfresh : x ∉ patches.map Prod.fst := fun hmem => by
        obtain ⟨q, hq, rfl⟩ := List.mem_map.mp hmem
        exact Nat.not_lt_of_le hx (hlt q hq)
      rw [h'.children x hlast, h'.element x hlast, hchildren, helement, lookup_eq_none hfresh,
        newChild?_eq_none hfresh]
      exact ⟨rfl, rfl⟩
    · exact h'.new x (by omega) hx'

theorem foldl_extendNode (hnodup : (patches.map Prod.fst).Nodup) (hlt : ∀ p ∈ patches, p.1 < a.nodes.size) :
    Extended a patches child (patches.foldl (Plan.extendNode child) a) := by
  induction patches generalizing a with
  | nil =>
    refine ⟨rfl, rfl, fun x _ => ?_, fun x _ => rfl, fun x hx hx' => ?_⟩
    · simp [newChild?]
    · exact absurd hx' (by simpa using hx)
  | cons p patches ih =>
    rw [List.map_cons, List.nodup_cons] at hnodup
    obtain ⟨hp, hlt⟩ := List.forall_mem_cons.mp hlt
    have hone := extended_one a hp child
    have hrest := @ih (Plan.extendNode child a p) hnodup.2 fun q hq => by
      rw [hone.size]
      exact (hlt q hq).trans_le (Nat.le_add_right _ _)
    exact hone.cons hrest hnodup.1 hlt

end
end Arena

namespace IdTree

mutual

/-- A tree in which some nodes have got one more child. -/
def grow (child? : Nat → Option Nat) : IdTree → IdTree
  | .node id below => .node id (growAll child? below ++ ((child? id).map (.node · [])).toList)

def growAll (child? : Nat → Option Nat) : List IdTree → List IdTree
  | [] => []
  | t :: ts => t.grow child? :: growAll child? ts

end

section
variable {a b : Arena} {f f' : Nat → Element} {child? : Nat → Option Nat} {t : IdTree}

theorem growAll_eq_map (child? : Nat → Option Nat) (ts : List IdTree) : growAll child? ts = ts.map (grow child?) := by
  induction ts with
  | nil => rfl
  | cons t ts ih => rw [growAll, ih, List.map_cons]

theorem root_grow (child? : Nat → Option Nat) (t : IdTree) : (t.grow child?).root = t.root := by
  cases t
  rfl

theorem ids_leaf (child : Option Nat) : idsAll (child.map (IdTree.node · [])).toList = child.toList := by
  cases child <;> simp

mutual

/-- The nodes of a grown tree are those that were there and the new children. -/
theorem ids_grow (child? : Nat → Option Nat) : (t : IdTree) →
    (t.grow child?).ids.Perm (t.ids ++ t.ids.filterMap child?)
  | .node id below => by
    have hbelow := idsAll_growAll child? below
    rw [grow, ids_node, ids_node, idsAll_append, ids_leaf, List.filterMap_cons, List.cons_append]
    refine .cons _ ((hbelow.append_right _).trans ?_)
    rw [List.append_assoc]
    refine .append_left _ ?_
    cases child? id with
    | none => simp
    | some child => exact List.perm_append_comm

theorem idsAll_growAll (child? : Nat → Option Nat) : (ts : List IdTree) →
    (idsAll (growAll child? ts)).Perm (idsAll ts ++ (idsAll ts).filterMap child?)
  | [] => .refl _
  | t :: ts => by
    rw [growAll, idsAll_cons, idsAll_cons, List.filterMap_append]
    refine ((ids_grow child? t).append (idsAll_growAll child? ts)).trans ?_
    rw [List.append_assoc, List.append_assoc]
    refine .append_left _ ?_
    rw [← List.append_assoc, ← List.append_assoc]
    exact .append_right _ List.perm_append_comm

end

/-! ### What the tree looks like -/

/-- An update that depends on no more than what a node is and how many children it has. It gives the node one more
child. -/
def AddsChild (g : Tree → Option Tree) (child : Element) : Prop :=
  ∀ element (cs ds : List Tree), cs.length = ds.length →
    g (.node element ds) = ((g (.node element cs)).map Tree.element).map fun e => .node e (ds ++ [.node child []])

mutual

/-- A grown tree looks like one in which every node that has an update is updated. -/
theorem toTree_grow {g : Tree → Option Tree} {child : Element} (hg : AddsChild g child)
    (hnew : ∀ x y, child? x = some y → f' y = child) : (t : IdTree) →
    (∀ s ∈ t.nodes, f' s.root = ((g (s.toTree f)).map Tree.element).getD (f s.root) ∧
      (child? s.root).isSome = (g (s.toTree f)).isSome) →
    (t.grow child?).toTree f' = ((t.toTree f).updateEvery? g).getD (t.toTree f) ∧
      ((t.toTree f).updateEvery? g).isSome = t.nodes.any fun s => (g (s.toTree f)).isSome
  | .node id below, h => by
    rw [nodes_eq, List.forall_mem_cons] at h
    obtain ⟨hbelow, hany⟩ := toTreeAll_growAll hg hnew below h.2
    obtain ⟨⟨hhere, hsome⟩, -⟩ := h
    rw [root_node, toTree] at hhere hsome
    have hlength : (toTreeAll f below).length =
        ((Tree.updateEveryAll? g (toTreeAll f below)).getD (toTreeAll f below)).length := by
      rw [← hbelow, toTreeAll_eq_map, toTreeAll_eq_map, growAll_eq_map]
      simp
    have hupdate := hg (f id) _ _ hlength
    have hsplit : toTreeAll f' (growAll child? below ++ ((child? id).map (.node · [])).toList) =
        (Tree.updateEveryAll? g (toTreeAll f below)).getD (toTreeAll f below) ++
          ((child? id).map fun y => .node (f' y) []).toList := by
      rw [← hbelow, toTreeAll_eq_map, toTreeAll_eq_map, List.map_append]
      cases child? id <;> rfl
    rw [grow, toTree, hsplit, toTree, Tree.updateEvery?, hupdate, nodes_eq, List.any_cons, children_node, ← hany,
      toTree, hhere]
    cases hhere' : g (.node (f id) (toTreeAll f below)) with
    | none =>
      rw [hhere', Option.isSome_none, Option.isSome_eq_false_iff, Option.isNone_iff_eq_none] at hsome
      rw [hsome]
      cases Tree.updateEveryAll? g (toTreeAll f below) <;> simp
    | some joined =>
      rw [hhere', Option.isSome_some, Option.isSome_iff_exists] at hsome
      obtain ⟨y, hy⟩ := hsome
      simp [hy, hnew id y hy]

theorem toTreeAll_growAll {g : Tree → Option Tree} {child : Element} (hg : AddsChild g child)
    (hnew : ∀ x y, child? x = some y → f' y = child) : (ts : List IdTree) →
    (∀ s ∈ nodesAll ts, f' s.root = ((g (s.toTree f)).map Tree.element).getD (f s.root) ∧
      (child? s.root).isSome = (g (s.toTree f)).isSome) →
    toTreeAll f' (growAll child? ts) = (Tree.updateEveryAll? g (toTreeAll f ts)).getD (toTreeAll f ts) ∧
      (Tree.updateEveryAll? g (toTreeAll f ts)).isSome = (nodesAll ts).any fun s => (g (s.toTree f)).isSome
  | [], _ => ⟨rfl, rfl⟩
  | t :: ts, h => by
    rw [nodesAll, List.forall_mem_append] at h
    obtain ⟨ht, htany⟩ := toTree_grow hg hnew t h.1
    obtain ⟨hts, htsany⟩ := toTreeAll_growAll hg hnew ts h.2
    rw [growAll, toTreeAll, ht, hts, nodesAll, List.any_append, ← htany, ← htsany]
    exact respelled_or_rest _ _ _ _

end

end
end IdTree

namespace Arena

section
variable {a b : Arena} {t : IdTree} {patches : List (Nat × Element)} {child : Element}

theorem Extended.holds (h : Extended a patches child b) (ht : a.Holds t) : b.Holds (t.grow (a.newChild? patches)) := by
  induction t using children_induction with
  | h id below ih =>
    have hsize : a.nodes.size ≤ b.nodes.size := h.size ▸ Nat.le_add_right _ _
    have hid : id < a.nodes.size ∧ a.children id = below.map IdTree.root := ht _ (mem_nodes_self _)
    intro r hr
    rw [grow, IdTree.nodes, nodesAll_append, growAll_eq_map, List.mem_cons, List.mem_append] at hr
    rcases hr with rfl | hr | hr
    · refine ⟨hid.1.trans_le hsize, ?_⟩
      have hroots : (below.map (grow (a.newChild? patches))).map IdTree.root = below.map IdTree.root := by
        rw [List.map_map]
        exact List.map_congr_left fun s _ => root_grow _ s
      rw [root_node, children_node, h.children id hid.1, List.map_append, hroots, hid.2]
      congr 1
      cases a.newChild? patches id <;> rfl
    · obtain ⟨_, hgrown, hr⟩ := mem_nodesAll.mp hr
      obtain ⟨s, hs, rfl⟩ := List.mem_map.mp hgrown
      exact ih s hs (ht.child hs) r hr
    · cases hnew : a.newChild? patches id with
      | none => simp [hnew, nodesAll] at hr
      | some y =>
        obtain rfl : r = .node y [] := by simpa [hnew, nodesAll, IdTree.nodes] using hr
        obtain ⟨hle, hlt⟩ := newChild?_bounds hnew
        rw [← h.size] at hlt
        exact ⟨hlt, (h.new y hle hlt).1⟩

/-- Nodes that get one more child still form a tree. -/
theorem Extended.shape (h : Extended a patches child b) (ht : a.Shape t) : b.Shape (t.grow (a.newChild? patches)) := by
  refine ⟨h.holds ht.holds, ?_, ?_⟩
  · rw [root_grow, ht.root, h.root]
  · refine (ids_grow _ t).nodup_iff.mpr (List.nodup_append.mpr ⟨ht.nodup, ?_, ?_⟩)
    · exact ht.nodup.filterMap fun x x' y hx hx' => newChild?_inj hx hx'
    · rintro x hx _ hnew rfl
      obtain ⟨y, -, hy⟩ := List.mem_filterMap.mp hnew
      exact Nat.not_lt_of_le (newChild?_bounds hy).1 (ht.holds.lt_size hx)

end
end Arena

theorem Simplify.addsChild_binaryJoin : AddsChild binaryJoin? (stringTree .singleQuoted "").element := by
  intro element cs ds hlength
  have hjoin : (Tree.node element ds).is .unaryExpression = (Tree.node element cs).is .unaryExpression ∧
      (Tree.node element ds).token? = (Tree.node element cs).token? := ⟨rfl, rfl⟩
  simp only [binaryJoin?, hjoin, Tree.children, hlength]
  split <;> rfl

namespace Arena

open Simplify

variable {a : Arena} {t : IdTree}

/-- Every unary join becomes a binary one. -/
theorem Shape.unaryJoin_does (h : a.Shape t) : a.unaryJoin.Does a (Simplify.unaryJoin a.toTree) := by
  let joined? (s : Seat) : Option Element := (binaryJoin? (s.node.toTree a.element)).map Tree.element
  let patches := t.seats.filterMap fun s => (joined? s).map (s.id, ·)
  let child := (stringTree .singleQuoted "").element
  have hids : (patches.map Prod.fst).Sublist t.ids := map_id_seats t ▸ map_fst_gathered _ t.seats
  have hextended := @foldl_extendNode a patches child (h.nodup.sublist hids) fun p hp =>
    h.holds.lt_size (hids.subset (List.mem_map_of_mem hp))
  have hplan : a.unaryJoin = .extend patches child := by
    rw [Arena.unaryJoin, h.layout_eq]
    congr 1
    exact List.filterMap_congr fun s _ => by rw [Option.map_map]; rfl
  have hpatch : ∀ s ∈ t.nodes,
      lookup patches s.root = (binaryJoin? (s.toTree a.element)).map Tree.element := by
    intro s hs
    rw [← Seat.map_node_seats] at hs
    obtain ⟨r, hr, rfl⟩ := List.mem_map.mp hs
    exact h.lookup_gathered joined? hr
  have hnew (x y : Nat) (hy : a.newChild? patches x = some y) :
      (patches.foldl (Plan.extendNode child) a).element y = child := by
    obtain ⟨hle, hlt⟩ := newChild?_bounds hy
    exact (hextended.new y hle (hextended.size ▸ hlt)).2
  obtain ⟨htree, hany⟩ := toTree_grow (f := a.element) addsChild_binaryJoin hnew t fun s hs => by
    rw [hextended.element _ (h.holds s hs).1, isSome_newChild?, hpatch s hs, Option.isSome_map]
    exact ⟨rfl, rfl⟩
  have hshape := hextended.shape h
  rw [hplan]
  refine ⟨?_, ?_, _, hshape⟩
  · rw [h.toTree_eq]
    refine Eq.trans ?_ hany.symm
    refine (not_isEmpty_gathered joined? t.seats).trans ?_
    rw [← Seat.map_node_seats, List.any_map]
    exact congrArg (List.any _) (funext fun s => Option.isSome_map)
  · refine hshape.toTree_eq.trans (htree.trans ?_)
    rw [h.toTree_eq]
    rfl

end Arena
end Unscramble
