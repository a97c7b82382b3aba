import Unscramble.Proofs.Arena.Seats

/-! Drawing what is to be put in places of an arena, and putting it there. What is drawn consists of nodes that are
kept and of nodes that are new. A batch that puts it in places of the arena keeps the arena a tree, if no kept node
comes twice and each comes from below the node that it helps to replace. -/
namespace Unscramble

open IdTree

namespace Sketch

mutual

/-- What comes of a sketch, if positions have the given elements. -/
def tree (f : Nat → Element) : Sketch → Tree
  | .kept t => t.toTree f
  | .made element below => .node element (trees f below)

def trees (f : Nat → Element) : List Sketch → List Tree
  | [] => []
  | s :: ss => s.tree f :: trees f ss

end

mutual

/-- The nodes that a sketch keeps. -/
def keeps : Sketch → List IdTree
  | .kept t => [t]
  | .made _ below => keepsAll below

def keepsAll : List Sketch → List IdTree
  | [] => []
  | s :: ss => s.keeps ++ keepsAll ss

end

theorem trees_eq_map (f : Nat → Element) (ss : List Sketch) : trees f ss = ss.map (tree f) := by
  induction ss with
  | nil => rfl
  | cons s ss ih => rw [trees, ih, List.map_cons]

@[simp] theorem trees_kept (f : Nat → Element) (ts : List IdTree) :
    trees f (ts.map .kept) = ts.map (toTree f) := by
  rw [trees_eq_map, List.map_map]
  rfl

@[simp] theorem keepsAll_append (ss ss' : List Sketch) : keepsAll (ss ++ ss') = keepsAll ss ++ keepsAll ss' := by
  induction ss with
  | nil => rfl
  | cons s ss ih => rw [List.cons_append, keepsAll, ih, keepsAll, List.append_assoc]

@[simp] theorem keepsAll_kept (ts : List IdTree) : keepsAll (ts.map .kept) = ts := by
  induction ts with
  | nil => rfl
  | cons t ts ih =>
    rw [List.map_cons, keepsAll, ih]
    rfl

mutual

theorem tree_ofTree (f : Nat → Element) : (t : Tree) → (ofTree t).tree f = t
  | .node element children => by rw [ofTree, tree, trees_ofTrees f children]

@[simp] theorem trees_ofTrees (f : Nat → Element) : (ts : List Tree) → trees f (ofTrees ts) = ts
  | [] => rfl
  | t :: ts => by rw [ofTrees, trees, tree_ofTree f t, trees_ofTrees f ts]

end

mutual

theorem keeps_ofTree : (t : Tree) → (ofTree t).keeps = []
  | .node element children => by rw [ofTree, keeps, keepsAll_ofTrees children]

@[simp] theorem keepsAll_ofTrees : (ts : List Tree) → keepsAll (ofTrees ts) = []
  | [] => rfl
  | t :: ts => by rw [ofTrees, keepsAll, keeps_ofTree t, keepsAll_ofTrees ts, List.append_nil]

end

end Sketch

namespace Arena

open Sketch

/-! ### Drawing -/

/-- An arena has got the new nodes of some sketches. -/
structure Drawn (a : Arena) (ss : List Sketch) (b : Arena) (drawn : List IdTree) : Prop where
  grows : a.Grows b
  holds : ∀ s ∈ drawn, b.Holds s
  trees : toTreeAll b.element drawn = Sketch.trees a.element ss
  ids : ∃ new : List Nat, (idsAll drawn).Perm (idsAll (keepsAll ss) ++ new) ∧ new.Nodup ∧
    ∀ x ∈ new, a.nodes.size ≤ x ∧ x < b.nodes.size

section
variable {a b c : Arena} {ss ss' : List Sketch} {drawn drawn' : List IdTree}

mutual

theorem Grows.tree_eq (h : a.Grows b) : (s : Sketch) → (∀ t ∈ s.keeps, a.Holds t) →
    s.tree b.element = s.tree a.element
  | .kept t, hkept => by
    rw [tree, tree]
    exact toTree_congr fun id hid => h.element ((hkept t List.mem_cons_self).lt_size hid)
  | .made element below, hkept => by rw [tree, tree, h.trees_eq below hkept]

/-- What sketches come to stays the same when the arena grows. -/
theorem Grows.trees_eq (h : a.Grows b) : (ss : List Sketch) → (∀ t ∈ keepsAll ss, a.Holds t) →
    trees b.element ss = trees a.element ss
  | [], _ => rfl
  | s :: ss, hkept => by
    rw [keepsAll, List.forall_mem_append] at hkept
    rw [trees, trees, h.tree_eq s hkept.1, h.trees_eq ss hkept.2]

end

theorem Drawn.nil (a : Arena) : Drawn a [] a [] where
  grows := .refl a
  holds := by simp
  trees := rfl
  ids := ⟨[], .refl _, .nil, by simp⟩

theorem Drawn.append (h : Drawn a ss b drawn) (h' : Drawn b ss' c drawn')
    (hkept : ∀ t ∈ keepsAll ss', a.Holds t) : Drawn a (ss ++ ss') c (drawn ++ drawn') where
  grows := h.grows.trans h'.grows
  holds := List.forall_mem_append.mpr ⟨fun s hs => h'.grows.extends.holds (h.holds s hs), h'.holds⟩
  trees := by
    have hbefore : toTreeAll c.element drawn = Sketch.trees a.element ss :=
      (h'.grows.toTreeAll h.holds).trans h.trees
    have hbehind : toTreeAll c.element drawn' = Sketch.trees a.element ss' :=
      h'.trees.trans (h.grows.trees_eq ss' hkept)
    rw [toTreeAll_eq_map] at hbefore hbehind
    rw [toTreeAll_eq_map, List.map_append, hbefore, hbehind, trees_eq_map, trees_eq_map, trees_eq_map,
      List.map_append]
  ids := by
    obtain ⟨new, hids, hnodup, hnew⟩ := h.ids
    obtain ⟨new', hids', hnodup', hnew'⟩ := h'.ids
    refine ⟨new ++ new', ?_, List.nodup_append.mpr ⟨hnodup, hnodup', ?_⟩, ?_⟩
    · rw [idsAll_append, keepsAll_append, idsAll_append]
      refine (hids.append hids').trans ?_
      rw [List.append_assoc, List.append_assoc]
      refine .append_left _ ?_
      rw [← List.append_assoc, ← List.append_assoc]
      exact .append_right _ List.perm_append_comm
    · rintro x hx _ hx' rfl
      exact absurd (hnew x hx).2 (Nat.not_lt_of_le (hnew' x hx').1)
    · refine List.forall_mem_append.mpr ⟨fun x hx => ?_, fun x hx => ?_⟩
      · exact ⟨(hnew x hx).1, (hnew x hx).2.trans_le h'.grows.size⟩
      · exact ⟨h.grows.size.trans (hnew' x hx).1, (hnew' x hx).2⟩

/-- A node that is drawn above others. -/
theorem Drawn.made (h : Drawn a ss b drawn) (element : Element) :
    Drawn a [.made element ss] (b.add element (drawn.map IdTree.root)).1 [.node b.nodes.size drawn] where
  grows := h.grows.trans (grows_add ..)
  holds := List.forall_mem_singleton.mpr (holds_add h.holds element)
  trees := by
    have hbelow := (grows_add b element (drawn.map IdTree.root)).toTreeAll h.holds
    rw [toTreeAll, IdTree.toTree, element_add_self, hbelow, h.trees, toTreeAll, Sketch.trees, Sketch.tree,
      Sketch.trees]
  ids := by
    obtain ⟨new, hids, hnodup, hnew⟩ := h.ids
    refine ⟨b.nodes.size :: new, ?_, List.nodup_cons.mpr ⟨fun hmem => ?_, hnodup⟩, ?_⟩
    · rw [idsAll_singleton, ids_node, keepsAll, keeps, keepsAll, List.append_nil]
      exact (hids.cons _).trans List.perm_middle.symm
    · exact absurd (hnew _ hmem).2 (Nat.lt_irrefl _)
    · refine List.forall_mem_cons.mpr ⟨⟨h.grows.size, by simp⟩, fun x hx => ⟨(hnew x hx).1, ?_⟩⟩
      rw [size_add]
      exact (hnew x hx).2.trans (Nat.lt_succ_self _)

mutual

theorem exists_draw (a : Arena) : (s : Sketch) → (∀ t ∈ s.keeps, a.Holds t) →
    ∃ t, Drawn a [s] (a.draw s).1 [t] ∧ t.root = (a.draw s).2
  | .kept t, hkept => by
    refine ⟨t, ⟨.refl a, hkept, by rw [toTreeAll, toTreeAll]; rfl, [], ?_, .nil, by simp⟩, rfl⟩
    rw [List.append_nil]
    rfl
  | .made element below, hkept => by
    obtain ⟨drawn, hdrawn, hroots⟩ := exists_drawAll a below hkept
    have hmade := hdrawn.made element
    rw [hroots] at hmade
    exact ⟨_, hmade, rfl⟩

/-- What is to be drawn can be drawn. -/
theorem exists_drawAll (a : Arena) : (ss : List Sketch) → (∀ t ∈ keepsAll ss, a.Holds t) →
    ∃ drawn, Drawn a ss (a.drawAll ss).1 drawn ∧ drawn.map IdTree.root = (a.drawAll ss).2
  | [], _ => ⟨[], .nil a, rfl⟩
  | s :: ss, hkept => by
    rw [keepsAll, List.forall_mem_append] at hkept
    obtain ⟨t, ht, hroot⟩ := exists_draw a s hkept.1
    obtain ⟨drawn, hdrawn, hroots⟩ := exists_drawAll (a.draw s).1 ss fun t ht' =>
      ht.grows.extends.holds (hkept.2 t ht')
    refine ⟨t :: drawn, ht.append hdrawn hkept.2, ?_⟩
    rw [List.map_cons, hroot, hroots]
    rfl

end

end
end Arena
end Unscramble
