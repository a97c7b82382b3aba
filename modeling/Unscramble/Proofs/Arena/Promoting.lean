import Unscramble.Proofs.Arena.Parts

/-! Rules that put a part of a node in its place: grouping nodes that are dropped, and arithmetic in which one
operand holds nothing. -/
namespace Unscramble

open Simplify IdTree

namespace IdTree

section
variable (f : Nat → Element)

theorem pipelineCore?_toTree : (t : IdTree) →
    Simplify.pipelineCore? (t.toTree f) = (t.pipelineCore? f).map (toTree f)
  | .node id [child] => by
    have hchild := pipelineCore?_toTree child
    have htree : Simplify.pipelineCore? ((node id [child]).toTree f) =
        if isPipelinePart (f id).kind then Simplify.pipelineCore? (child.toTree f)
        else some ((node id [child]).toTree f) := rfl
    rw [htree, pipelineCore?, hchild]
    split <;> rfl
  | .node id [] | .node id (_ :: _ :: _) => by
    simp only [pipelineCore?, apply_ite (Option.map (toTree f))]
    rfl

theorem pipelineCore?_mem {s : IdTree} : (t : IdTree) → t.pipelineCore? f = some s → s ∈ t.nodes
  | .node id [child], h => by
    rw [pipelineCore?] at h
    split at h
    next => exact mem_nodes_iff.mpr (.inr ⟨child, List.mem_cons_self, pipelineCore?_mem child h⟩)
    next =>
      cases h
      exact mem_nodes_self _
  | .node id [], h | .node id (_ :: _ :: _), h => by
    simp only [pipelineCore?] at h
    split at h
    next => cases h
    next =>
      cases h
      exact mem_nodes_self _

theorem inParen?_toTree (t : IdTree) :
    (if (t.toTree f).is .parenExpression then
      (((t.toTree f).onlyChild?.bind Simplify.pipelineCore?).filter fun inner => isSelfDelimited inner.kind).map ([·])
    else none) = (t.inParen? f).map fun inner => [inner.toTree f] := by
  rw [is_toTree, inParen?, onlyChild?_toTree]
  split
  next =>
    cases t.onlyChild? with
    | none => rfl
    | some child =>
      rw [Option.map_some, Option.bind_some, Option.bind_some, pipelineCore?_toTree]
      cases child.pipelineCore? f with
      | none => rfl
      | some inner =>
        rw [Option.map_some, Option.filter_some, Option.filter_some, kind_toTree]
        split <;> rfl
  next => rfl

theorem inParen?_below {s t : IdTree} (h : t.inParen? f = some s) : s ∈ nodesAll t.children := by
  rw [inParen?] at h
  split at h
  next =>
    obtain ⟨hcore, -⟩ := Option.filter_eq_some_iff.mp h
    obtain ⟨child, hchild, hs⟩ := Option.bind_eq_some_iff.mp hcore
    exact mem_nodesAll.mpr ⟨child, onlyChild?_mem hchild, pipelineCore?_mem f child hs⟩
  next => cases h

theorem inPipeline?_toTree (t : IdTree) :
    (if (t.toTree f).is .pipeline then
      ((t.toTree f).onlyChild?.bind fun inner =>
        if inner.is .pipelineElements then inner.onlyChild? else some inner).map ([·])
    else none) = (t.inPipeline? f).map fun inner => [inner.toTree f] := by
  rw [is_toTree, inPipeline?, onlyChild?_toTree]
  split
  next =>
    cases t.onlyChild? with
    | none => rfl
    | some child =>
      rw [Option.map_some, Option.bind_some, Option.bind_some, is_toTree, onlyChild?_toTree]
      split
      next => rw [Option.map_map]; rfl
      next => rfl
  next => rfl

theorem inPipeline?_below {s t : IdTree} (h : t.inPipeline? f = some s) : s ∈ nodesAll t.children := by
  rw [inPipeline?] at h
  split at h
  next =>
    obtain ⟨inner, hinner, h⟩ := Option.bind_eq_some_iff.mp h
    refine mem_nodesAll.mpr ⟨inner, onlyChild?_mem hinner, ?_⟩
    split at h
    next => exact mem_nodes_iff.mpr (.inr ⟨s, onlyChild?_mem h, mem_nodes_self s⟩)
    next =>
      cases h
      exact mem_nodes_self _
  next => cases h

theorem onlyItem?_toTree (s : Seat) :
    (if (s.place f).tree.is .arrayLiteral && isOutput (s.place f) then
      ((((s.place f).tree.childOf? .elements).bind Tree.onlyChild?).filter fun item =>
        !item.kind.needsGrouping).map ([·])
    else none) = (onlyItem? f s).map fun item => [item.toTree f] := by
  rw [Seat.tree_place, is_toTree, onlyItem?, childOf?_toTree]
  split
  next =>
    cases s.node.childOf? f .elements with
    | none => rfl
    | some list =>
      rw [Option.map_some, Option.bind_some, Option.bind_some, onlyChild?_toTree]
      cases list.onlyChild? with
      | none => rfl
      | some item =>
        rw [Option.map_some, Option.filter_some, Option.filter_some, kind_toTree]
        split <;> rfl
  next => rfl

theorem onlyItem?_below {s : Seat} {item : IdTree} (h : onlyItem? f s = some item) :
    item ∈ nodesAll s.node.children := by
  rw [onlyItem?] at h
  split at h
  next =>
    obtain ⟨hitem, -⟩ := Option.filter_eq_some_iff.mp h
    obtain ⟨list, hlist, hitem⟩ := Option.bind_eq_some_iff.mp hitem
    exact mem_nodesAll.mpr ⟨list, childOf?_mem hlist, mem_nodes_iff.mpr
      (.inr ⟨item, onlyChild?_mem hitem, mem_nodes_self item⟩)⟩
  next => cases h

/-! ### Arithmetic with nothing -/

/-- The operator of a binary expression, and its operands. -/
theorem withoutUnassigned?_eq (known : List String) (id : Nat) (left right : IdTree) (rest : List IdTree) :
    (node id (left :: right :: rest)).withoutUnassigned? f known =
      if (f id).kind == .binaryExpression then
        match (f id).operator?, isUnassigned known (left.toTree f), isUnassigned known (right.toTree f) with
        | some .plus, true, _ => some (.kept right)
        | some .plus, false, true => some (.kept left)
        | some .minus, _, true => some (.kept left)
        | some .minus, true, false =>
          ((Simplify.integer? (right.toTree f)).bind fun n => Text.word? (-n.toInt)).map fun n => .ofTree (intTree n)
        | some .multiply, true, false => (Simplify.integer? (right.toTree f)).map fun _ => .ofTree (intTree 0)
        | some .multiply, false, true => (Simplify.integer? (left.toTree f)).map fun _ => .ofTree (intTree 0)
        | _, _, _ => none
      else none := rfl

theorem withoutUnassigned?_toTree (known : List String) (t : IdTree) :
    Simplify.withoutUnassigned? known (t.toTree f) = (t.withoutUnassigned? f known).map (Sketch.tree f) := by
  obtain ⟨id, below⟩ := t
  match below with
  | [] | [_] =>
    rw [Simplify.withoutUnassigned?, withoutUnassigned?, is_toTree]
    split <;> rfl
  | left :: right :: rest =>
    have htree : Simplify.withoutUnassigned? known ((node id (left :: right :: rest)).toTree f) =
        if (f id).kind == .binaryExpression then
          match (f id).operator?, isUnassigned known (left.toTree f), isUnassigned known (right.toTree f) with
          | some .plus, true, _ => some (right.toTree f)
          | some .plus, false, true => some (left.toTree f)
          | some .minus, _, true => some (left.toTree f)
          | some .minus, true, false =>
            ((Simplify.integer? (right.toTree f)).bind fun n => Text.word? (-n.toInt)).map intTree
          | some .multiply, true, false => (Simplify.integer? (right.toTree f)).map fun _ => intTree 0
          | some .multiply, false, true => (Simplify.integer? (left.toTree f)).map fun _ => intTree 0
          | _, _, _ => none
        else none := rfl
    have hword (n? : Option Int64) : n?.map intTree =
        (n?.map fun n => Sketch.ofTree (intTree n)).map (Sketch.tree f) := by
      cases n? with
      | none => rfl
      | some n => exact congrArg some (Sketch.tree_ofTree f _).symm
    have hzero (n? : Option Int64) : (n?.map fun _ => intTree 0) =
        (n?.map fun _ => Sketch.ofTree (intTree 0)).map (Sketch.tree f) := by
      cases n? with
      | none => rfl
      | some n => exact congrArg some (Sketch.tree_ofTree f _).symm
    rw [htree, withoutUnassigned?_eq]
    split
    next =>
      split <;> first | rfl | exact hword _ | exact hzero _
    next => rfl

/-- What is put in the place of arithmetic is one of the operands or new. -/
theorem withoutUnassigned?_owns {known : List String} {t : IdTree} {sketch : Sketch}
    (h : t.withoutUnassigned? f known = some sketch) : t.Owns [sketch] := by
  obtain ⟨id, below⟩ := t
  match below with
  | [] | [_] =>
    rw [withoutUnassigned?] at h
    split at h <;> cases h
  | left :: right :: rest =>
    have hleft : (node id (left :: right :: rest)).Owns [.kept left] :=
      owns_one (mem_nodesAll.mpr ⟨left, by simp, mem_nodes_self left⟩)
    have hright : (node id (left :: right :: rest)).Owns [.kept right] :=
      owns_one (mem_nodesAll.mpr ⟨right, by simp, mem_nodes_self right⟩)
    have hnew (u : Tree) : (node id (left :: right :: rest)).Owns [.ofTree u] := owns_ofTrees _ [u]
    rw [withoutUnassigned?_eq] at h
    split at h
    next =>
      split at h
      · cases h; exact hright
      · cases h; exact hleft
      · cases h; exact hleft
      · obtain ⟨n, -, rfl⟩ := Option.map_eq_some_iff.mp h; exact hnew _
      · obtain ⟨n, -, rfl⟩ := Option.map_eq_some_iff.mp h; exact hnew _
      · obtain ⟨n, -, rfl⟩ := Option.map_eq_some_iff.mp h; exact hnew _
      · cases h
    next => cases h

end
end IdTree

namespace Arena

section
variable {a : Arena} {t : IdTree}

/-- The first node that has a part to be put in its place. -/
theorem Shape.promoting_does (h : a.Shape t) {part? : Seat → Option IdTree} {g : Place → Option (List Tree)}
    (hlooks : ∀ s, g (s.place a.element) = (part? s).map fun u => [u.toTree a.element])
    (hbelow : ∀ s, ∀ u ∈ part? s, u ∈ nodesAll s.node.children) :
    (a.replacingFirst fun s => (part? s).map ([.kept ·])).Does a (a.toTree.replaceFirst? g) := by
  refine h.replacingFirst_does (fun s _ => ?_) fun s _ ss hss => ?_
  · rw [hlooks, Option.map_map]
    rfl
  · obtain ⟨u, hu, rfl⟩ := Option.map_eq_some_iff.mp hss
    exact owns_one (hbelow s u hu)

theorem Shape.unwrapParen_does (h : a.Shape t) :
    (a.replacingFirst fun s => (s.node.inParen? a.element).map ([.kept ·])).Does a (unwrapParen a.toTree) :=
  h.promoting_does (fun s => inParen?_toTree a.element s.node) fun _ _ hu => inParen?_below a.element hu

theorem Shape.unwrapPipeline_does (h : a.Shape t) :
    (a.replacingFirst fun s => (s.node.inPipeline? a.element).map ([.kept ·])).Does a (unwrapPipeline a.toTree) :=
  h.promoting_does (fun s => inPipeline?_toTree a.element s.node) fun _ _ hu => inPipeline?_below a.element hu

theorem Shape.unwrapSingleArray_does (h : a.Shape t) :
    (a.replacingFirst fun s => (onlyItem? a.element s).map ([.kept ·])).Does a (unwrapSingleArray a.toTree) :=
  h.promoting_does (fun s => onlyItem?_toTree a.element s) fun _ _ hu => onlyItem?_below a.element hu

theorem Shape.removeUnassignedUse_does (h : a.Shape t) :
    a.removeUnassignedUse.Does a (Simplify.removeUnassignedUse a.toTree) := by
  rw [Arena.removeUnassignedUse, Simplify.removeUnassignedUse]
  dsimp only
  split
  next => exact h.does_nothing rfl
  next =>
    refine h.replacingFirst_does (fun s _ => ?_) fun s _ ss hss => ?_
    · rw [Seat.tree_place, withoutUnassigned?_toTree, Option.map_map, Option.map_map]
      rfl
    · obtain ⟨sketch, hsketch, rfl⟩ := Option.map_eq_some_iff.mp hss
      exact withoutUnassigned?_owns a.element hsketch

theorem Shape.removeUnusedVariable_does (h : a.Shape t) :
    a.removeUnusedVariable.Does a (Simplify.removeUnusedVariable a.toTree) := by
  rw [Arena.removeUnusedVariable, Simplify.removeUnusedVariable]
  dsimp only
  split
  next => exact h.does_nothing rfl
  next =>
    refine h.replacingFirst_does (fun s _ => ?_) fun s _ ss hss => ?_
    · split <;> rfl
    · have hnil : ss = [] := by
        split at hss <;> cases hss
        rfl
      exact hnil ▸ owns_nil s.node

end
end Arena
end Unscramble
