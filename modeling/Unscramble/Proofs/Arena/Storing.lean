import Unscramble.Proofs.Arena.Index

/-! Trees that are stored in an arena. Their nodes come one after the other, in pre-order, and form a tree there that
looks like the one that was stored. -/
namespace Unscramble

open IdTree

namespace Arena

mutual

/-- The positions of the nodes of a tree that is stored from a position on. -/
def storedFrom (id : Nat) : Tree → IdTree
  | .node _ children => .node id (storedAll (id + 1) children)

def storedAll (id : Nat) : List Tree → List IdTree
  | [] => []
  | t :: ts => storedFrom id t :: storedAll (id + t.size) ts

end

/-- Nodes that stand in an arena from a position on. -/
def Stores (a : Arena) (id : Nat) (ns : List ArenaNode) : Prop :=
  ∀ i n, ns[i]? = some n → a.node? (id + i) = some n

section
variable {a : Arena} {id : Nat} {n : ArenaNode} {ms ns : List ArenaNode}

theorem Stores.head (h : Stores a id (n :: ns)) : a.node? id = some n := h 0 n rfl

theorem Stores.tail (h : Stores a id (n :: ns)) : Stores a (id + 1) ns := fun i m hm => by
  rw [Nat.add_assoc, Nat.add_comm 1]
  exact h (i + 1) m hm

theorem Stores.left (h : Stores a id (ms ++ ns)) : Stores a id ms := fun i m hm => by
  obtain ⟨hi, -⟩ := List.getElem?_eq_some_iff.mp hm
  exact h i m (by rw [List.getElem?_append_left hi, hm])

theorem Stores.right (h : Stores a id (ms ++ ns)) : Stores a (id + ms.length) ns := fun i m hm => by
  rw [Nat.add_assoc]
  exact h _ m (by rw [List.getElem?_append_right (Nat.le_add_right _ _), Nat.add_sub_cancel_left, hm])

end

mutual

theorem length_flatten (id : Nat) : (t : Tree) → (flatten id t).length = t.size
  | .node _ children => by rw [flatten, List.length_cons, length_flattenAll (id + 1) children, Tree.size]

theorem length_flattenAll (id : Nat) : (ts : List Tree) → (flattenAll id ts).length = Tree.sizeAll ts
  | [] => rfl
  | t :: ts => by
    rw [flattenAll, List.length_append, length_flatten id t, length_flattenAll _ ts, Tree.sizeAll]

end

theorem root_storedFrom (id : Nat) (t : Tree) : (storedFrom id t).root = id := by
  cases t
  rfl

theorem roots_storedAll (id : Nat) (ts : List Tree) : (storedAll id ts).map IdTree.root = rootsFrom id ts := by
  induction ts generalizing id with
  | nil => rfl
  | cons t ts ih => rw [storedAll, List.map_cons, root_storedFrom, ih, rootsFrom]

mutual

/-- The positions are those from the first one on, one after the other. -/
theorem ids_storedFrom (id : Nat) : (t : Tree) → (storedFrom id t).ids = List.range' id t.size
  | .node _ children => by
    rw [storedFrom, ids_node, idsAll_storedAll (id + 1) children, Tree.size, List.range'_succ]

theorem idsAll_storedAll (id : Nat) : (ts : List Tree) →
    idsAll (storedAll id ts) = List.range' id (Tree.sizeAll ts)
  | [] => rfl
  | t :: ts => by
    rw [storedAll, idsAll_cons, ids_storedFrom id t, idsAll_storedAll _ ts, Tree.sizeAll, List.range'_append_1]

end

section
variable {a : Arena}

mutual

theorem holds_storedFrom {id : Nat} : (t : Tree) → Stores a id (flatten id t) →
    a.Holds (storedFrom id t) ∧ (storedFrom id t).toTree a.element = t
  | .node element children, h => by
    obtain ⟨hholds, hlooks⟩ := holds_storedAll children h.tail
    have hnode := h.head
    have helement : a.element id = element := by rw [Arena.element, hnode]; rfl
    have hchildren : a.children id = rootsFrom (id + 1) children := by rw [Arena.children, hnode]; rfl
    refine ⟨fun s hs => ?_, by rw [storedFrom, IdTree.toTree, helement, hlooks]⟩
    rw [storedFrom, IdTree.nodes, List.mem_cons] at hs
    rcases hs with rfl | hs
    · refine ⟨?_, by rw [root_node, children_node, hchildren, roots_storedAll]⟩
      exact (Array.getElem?_eq_some_iff.mp hnode).1
    · obtain ⟨u, hu, hs⟩ := mem_nodesAll.mp hs
      exact hholds u hu s hs

theorem holds_storedAll {id : Nat} : (ts : List Tree) → Stores a id (flattenAll id ts) →
    (∀ u ∈ storedAll id ts, a.Holds u) ∧ toTreeAll a.element (storedAll id ts) = ts
  | [], _ => ⟨by simp [storedAll], rfl⟩
  | t :: ts, h => by
    obtain ⟨ht, htlooks⟩ := holds_storedFrom t h.left
    have hright := h.right
    rw [length_flatten] at hright
    obtain ⟨hts, htslooks⟩ := holds_storedAll ts hright
    refine ⟨List.forall_mem_cons.mpr ⟨ht, hts⟩, ?_⟩
    rw [storedAll, toTreeAll, htlooks, htslooks]

end

end

/-- A stored tree. -/
theorem shape_ofTree (t : Tree) : (ofTree t).Shape (storedFrom 0 t) ∧ (ofTree t).toTree = t := by
  have hstores : Stores (ofTree t) 0 (flatten 0 t) := fun i n hn => by
    rw [Nat.zero_add, node?, ofTree, List.getElem?_toArray, hn]
  obtain ⟨hholds, hlooks⟩ := holds_storedFrom t hstores
  have hroot : (storedFrom 0 t).root = (ofTree t).root := root_storedFrom 0 t
  refine ⟨⟨hholds, hroot, ?_⟩, (hholds.toTree_eq hroot).trans hlooks⟩
  rw [ids_storedFrom]
  exact List.nodup_range'

end Arena
end Unscramble
