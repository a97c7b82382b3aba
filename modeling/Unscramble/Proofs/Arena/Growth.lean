import Mathlib.Logic.Relation
import Unscramble.Proofs.Arena.Index

/-! Arenas that grow. New nodes come behind those that are there, whose links do not lead to them, so they change
nothing that can be reached already. -/
namespace Unscramble

open IdTree

namespace IdTree

theorem toTree_congr {f g : Nat → Element} {t : IdTree} (h : ∀ id ∈ t.ids, f id = g id) :
    t.toTree f = t.toTree g := by
  induction t using children_induction with
  | h id below ih =>
    rw [ids_node, List.forall_mem_cons] at h
    have hbelow : ∀ s ∈ below, s.toTree f = s.toTree g := fun s hs =>
      ih s hs fun x hx => h.2 x (mem_idsAll.mpr ⟨s, hs, hx⟩)
    rw [toTree, toTree, toTreeAll_eq_map, toTreeAll_eq_map, h.1, List.map_congr_left hbelow]

end IdTree

namespace Arena

/-- An arena with all nodes of another one, each with the children that it has there. -/
structure Extends (a b : Arena) : Prop where
  root : b.root = a.root
  size : a.nodes.size ≤ b.nodes.size
  children : ∀ id < a.nodes.size, b.children id = a.children id

/-- An arena with new nodes behind those of another one, which are as they were. -/
structure Grows (a b : Arena) : Prop where
  root : b.root = a.root
  generation : b.generation = a.generation
  size : a.nodes.size ≤ b.nodes.size
  node? : ∀ id < a.nodes.size, b.node? id = a.node? id

/-- Links lead from one node to another, or the two are the same. -/
def Reaches (a : Arena) : Nat → Nat → Prop := Relation.ReflTransGen fun p x => x ∈ a.children p

/-- What can be reached from the root is in the arena. -/
def Closed (a : Arena) : Prop := ∀ x, a.Reaches a.root x → x < a.nodes.size

section
variable {a b c : Arena} {s t : IdTree} {x : Nat}

/-! ### The same children -/

theorem Extends.refl (a : Arena) : a.Extends a := ⟨rfl, Nat.le_refl _, fun _ _ => rfl⟩

theorem Extends.trans (hab : a.Extends b) (hbc : b.Extends c) : a.Extends c where
  root := hbc.root.trans hab.root
  size := hab.size.trans hbc.size
  children id hid := (hbc.children id (hid.trans_le hab.size)).trans (hab.children id hid)

theorem Extends.holds (h : a.Extends b) (hs : a.Holds s) : b.Holds s := by
  intro r hr
  obtain ⟨hsize, hchildren⟩ := hs r hr
  exact ⟨hsize.trans_le h.size, (h.children _ hsize).trans hchildren⟩

theorem Extends.shape (h : a.Extends b) (hshape : a.Shape t) : b.Shape t :=
  ⟨h.holds hshape.holds, hshape.root.trans h.root.symm, hshape.nodup⟩

theorem Extends.build_eq (h : a.Extends b) (hshape : a.Shape t) (hgeneration : b.generation = a.generation) :
    ParentIndex.build b = ParentIndex.build a := by
  have hlinks : (t.ids.flatMap fun id => (b.children id).map (·, id)) =
      t.ids.flatMap fun id => (a.children id).map (·, id) :=
    List.flatMap_congr fun id hid => by rw [h.children id (hshape.holds.lt_size hid)]
  rw [ParentIndex.build, ParentIndex.build, (h.shape hshape).reachable, hshape.reachable, hlinks, hgeneration]

/-- Links that stay in the arena lead to the same nodes when it grows. -/
theorem Extends.reaches_iff (h : a.Extends b) (hinside : ∀ y, a.Reaches x y → y < a.nodes.size) (y : Nat) :
    b.Reaches x y ↔ a.Reaches x y := by
  constructor
  · intro hy
    induction hy with
    | refl => exact .refl
    | @tail p y _ hlink ih =>
      rw [h.children p (hinside p ih)] at hlink
      exact ih.tail hlink
  · intro hy
    induction hy with
    | refl => exact .refl
    | @tail p y hp hlink ih =>
      rw [← h.children p (hinside p hp)] at hlink
      exact ih.tail hlink

/-- In an arena whose nodes form a tree no link in reach leads out. -/
theorem Shape.closed (h : a.Shape t) : a.Closed := by
  intro x hx
  refine h.holds.lt_size ?_
  induction hx with
  | refl => exact h.root ▸ root_mem_ids t
  | tail _ hlink ih => exact h.mem_of_child ih hlink

/-! ### The same nodes -/

theorem Grows.refl (a : Arena) : a.Grows a := ⟨rfl, rfl, Nat.le_refl _, fun _ _ => rfl⟩

theorem Grows.trans (hab : a.Grows b) (hbc : b.Grows c) : a.Grows c where
  root := hbc.root.trans hab.root
  generation := hbc.generation.trans hab.generation
  size := hab.size.trans hbc.size
  node? id hid := (hbc.node? id (hid.trans_le hab.size)).trans (hab.node? id hid)

theorem Grows.extends (h : a.Grows b) : a.Extends b where
  root := h.root
  size := h.size
  children id hid := by rw [Arena.children, h.node? id hid, Arena.children]

theorem Grows.element (h : a.Grows b) {id : Nat} (hid : id < a.nodes.size) : b.element id = a.element id := by
  rw [Arena.element, h.node? id hid, Arena.element]

theorem Grows.toTreeAll (h : a.Grows b) {ts : List IdTree} (hts : ∀ t ∈ ts, a.Holds t) :
    IdTree.toTreeAll b.element ts = IdTree.toTreeAll a.element ts := by
  rw [toTreeAll_eq_map, toTreeAll_eq_map]
  exact List.map_congr_left fun t ht => toTree_congr fun _ hid => h.element ((hts t ht).lt_size hid)

/-- What can be reached from the root stays the same if it was all in the arena. -/
theorem Grows.reaches_iff (h : a.Grows b) (hclosed : a.Closed) (x : Nat) :
    b.Reaches b.root x ↔ a.Reaches a.root x := by
  rw [h.root]
  exact h.extends.reaches_iff hclosed x

/-- What stands below a node whose links stay in the arena looks the same down to every depth. -/
theorem Grows.treeFrom_eq (h : a.Grows b) (depth : Nat) (hinside : ∀ y, a.Reaches x y → y < a.nodes.size) :
    b.treeFrom depth x = a.treeFrom depth x := by
  induction depth generalizing x with
  | zero => rw [treeFrom, treeFrom, h.element (hinside x .refl)]
  | succ depth ih =>
    have hx : x < a.nodes.size := hinside x .refl
    rw [treeFrom, treeFrom, h.element hx, h.extends.children x hx]
    refine congrArg (Tree.node (a.element x)) (List.map_congr_left fun c hc => ih fun y hy => ?_)
    exact hinside y (.head hc hy)

theorem Grows.toTree_eq (h : a.Grows b) (hshape : a.Shape t) : b.toTree = a.toTree := by
  have hgrown := h.extends.shape hshape
  rw [hgrown.holds.toTree_eq hgrown.root, hshape.holds.toTree_eq hshape.root]
  exact toTree_congr fun id hid => h.element (hshape.holds.lt_size hid)

/-! ### New nodes -/

@[simp] theorem size_add (a : Arena) (element : Element) (children : List Nat) :
    (a.add element children).1.nodes.size = a.nodes.size + 1 := by
  simp [add]

@[simp] theorem children_add_self (a : Arena) (element : Element) (children : List Nat) :
    (a.add element children).1.children a.nodes.size = children := by
  simp [add, Arena.children, Arena.node?]

@[simp] theorem element_add_self (a : Arena) (element : Element) (children : List Nat) :
    (a.add element children).1.element a.nodes.size = element := by
  simp [add, Arena.element, Arena.node?]

theorem grows_add (a : Arena) (element : Element) (children : List Nat) : a.Grows (a.add element children).1 where
  root := rfl
  generation := rfl
  size := by simp
  node? id hid := by simp [add, Arena.node?, Array.getElem?_push_lt hid, hid]

/-- A new node stands above the trees that are put below it. -/
theorem holds_add {ts : List IdTree} (hts : ∀ t ∈ ts, a.Holds t) (element : Element) :
    (a.add element (ts.map IdTree.root)).1.Holds (.node a.nodes.size ts) := by
  intro r hr
  rw [IdTree.nodes, List.mem_cons] at hr
  rcases hr with rfl | hr
  · simp
  · obtain ⟨s, hs, hr⟩ := mem_nodesAll.mp hr
    exact (grows_add a element _).extends.holds (hts s hs) r hr

mutual

theorem grows_copy (a : Arena) : (t : Tree) → a.Grows (a.copy t).1
  | .node element children => (grows_copyAll a children).trans (grows_add _ element _)

theorem grows_copyAll (a : Arena) : (ts : List Tree) → a.Grows (a.copyAll ts).1
  | [] => .refl a
  | t :: ts => (grows_copy a t).trans (grows_copyAll _ ts)

end

end
end Arena
end Unscramble
