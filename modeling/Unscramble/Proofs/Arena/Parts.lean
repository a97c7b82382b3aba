import Unscramble.Proofs.Arena.Plans

/-! Parts of nodes, found among the positions and in the tree that these look like. A part of a node comes with
nodes of its own, which stand below the node. -/
namespace Unscramble

namespace IdTree

section
variable (f : Nat → Element)

theorem onlyChild?_toTree (t : IdTree) : (t.toTree f).onlyChild? = t.onlyChild?.map (toTree f) := by
  obtain ⟨id, below⟩ := t
  match below with
  | [] | [_] | _ :: _ :: _ => rfl

theorem find?_is (ts : List IdTree) (kind : Kind) :
    (ts.map (toTree f)).find? (·.is kind) = (ts.find? (·.is f kind)).map (toTree f) := by
  rw [List.find?_map]
  exact congrArg (Option.map (toTree f)) (congrArg (List.find? · ts) (funext fun t => is_toTree f t kind))

theorem childOf?_toTree (t : IdTree) (kind : Kind) :
    (t.toTree f).childOf? kind = (t.childOf? f kind).map (toTree f) := by
  rw [Tree.childOf?, children_toTree, find?_is, childOf?]

theorem statements_toTree (t : IdTree) : (t.toTree f).statements = (t.statements f).map (toTree f) := by
  rw [Tree.statements, Tree.listOf, childOf?_toTree, statements]
  cases t.childOf? f .statements with
  | none => rfl
  | some list => exact children_toTree f list

theorem unwrapStatement_toTree (t : IdTree) :
    (t.toTree f).unwrapStatement = (t.unwrapStatement f).toTree f := by
  induction t using unwrapStatement.induct f with
  | case1 id child hwrapper ih =>
    rw [unwrapStatement, if_pos hwrapper, ← ih]
    exact if_pos hwrapper
  | case2 id child hwrapper =>
    rw [unwrapStatement, if_neg hwrapper]
    exact if_neg hwrapper
  | case3 t hnode =>
    obtain ⟨id, below⟩ := t
    match below with
    | [child] => exact absurd rfl (hnode id child)
    | [] | _ :: _ :: _ => rfl

end

/-! ### Nodes of parts -/

section
variable {f : Nat → Element} {s t : IdTree} {ss ts : List IdTree}

theorem nodesAll_sublist (h : ss.Sublist ts) : (nodesAll ss).Sublist (nodesAll ts) := by
  induction h with
  | slnil => exact .refl _
  | @cons ss ts t _ ih => exact ih.trans (List.sublist_append_right _ _)
  | cons_cons t _ ih => exact (List.Sublist.refl _).append ih

theorem nodesAll_below_sublist (t : IdTree) : (nodesAll t.children).Sublist t.nodes := by
  rw [nodes_eq]
  exact List.sublist_cons_self _ _

theorem nodes_sublist_nodesAll (h : s ∈ ts) : s.nodes.Sublist (nodesAll ts) := by
  have hone := nodesAll_sublist (List.singleton_sublist.mpr h)
  rwa [nodesAll, nodesAll, List.append_nil] at hone

theorem childOf?_mem {kind : Kind} (h : t.childOf? f kind = some s) : s ∈ t.children := List.mem_of_find?_eq_some h

theorem onlyChild?_mem (h : t.onlyChild? = some s) : s ∈ t.children := by
  unfold onlyChild? at h
  split at h
  next only hchildren =>
    cases h
    rw [hchildren]
    exact List.mem_cons_self
  next => cases h

/-- The statements of a block stand below it. -/
theorem statements_below (f : Nat → Element) (t : IdTree) : (nodesAll (t.statements f)).Sublist t.nodes := by
  rw [statements]
  cases hlist : t.childOf? f .statements with
  | none => exact List.nil_sublist _
  | some list =>
    have hchild := nodes_sublist_nodesAll (childOf?_mem hlist)
    exact (nodesAll_below_sublist list).trans (hchild.trans (nodesAll_below_sublist t))

theorem owns_of_keeps {sketches : List Sketch} (hkeeps : Sketch.keepsAll sketches = ts)
    (h : (nodesAll ts).Sublist (nodesAll t.children)) : t.Owns sketches := by
  rw [Owns, hkeeps]
  exact h.subperm

end
end IdTree
end Unscramble
