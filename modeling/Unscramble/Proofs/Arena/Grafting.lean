import Unscramble.Proofs.Arena.Growth
import Unscramble.Proofs.Arena.Traversal

/-! Grafts are copies. A tree is copied from below, so the nodes that come from it stand in the arena one after the
other and the links between them lead backwards. Nothing that was there before leads to them. -/
namespace Unscramble

open IdTree

namespace Arena

/-- The nodes that an arena has gained are those of copies of some trees, and each of them is in one place. -/
structure Copies (a : Arena) (ts : List Tree) (b : Arena) (copies : List IdTree) : Prop where
  grows : a.Grows b
  holds : ∀ s ∈ copies, b.Holds s
  trees : toTreeAll b.element copies = ts
  nodup : (idsAll copies).Nodup
  new : ∀ x, x ∈ idsAll copies ↔ a.nodes.size ≤ x ∧ x < b.nodes.size

/-- A graft of what stands below the root of a tree in another arena: its nodes are new, look like those that they
were copied from and are out of reach. Nothing else has changed, and if what was in reach of the root was all in
the arena, it still is what is in reach. -/
structure Grafted (a source : Arena) (s : IdTree) (b : Arena) (copy : IdTree) : Prop where
  holds : b.Holds copy
  descendants : b.descendants copy.root = copy.ids
  toTree : copy.toTree b.element = s.toTree source.element
  looksLike : b.looksLike copy.root source s.root = true
  nodup : copy.ids.Nodup
  new : ∀ x, x ∈ copy.ids ↔ a.nodes.size ≤ x ∧ x < b.nodes.size
  grows : a.Grows b
  apart : a.Closed → ∀ x ∈ copy.ids, ¬b.Reaches b.root x
  reaches : a.Closed → ∀ x, b.Reaches b.root x ↔ a.Reaches a.root x
  treeFrom : a.Closed → ∀ depth, b.treeFrom depth b.root = a.treeFrom depth a.root
  shape : ∀ t, a.Shape t → b.Shape t ∧ b.toTree = a.toTree ∧ b.reachable = a.reachable

section
variable {a b c source : Arena} {s copy : IdTree} {copies copies' : List IdTree} {ss ts : List Tree}

/-! ### Copies -/

theorem Copies.nil (a : Arena) : Copies a [] a [] where
  grows := .refl a
  holds := by simp
  trees := rfl
  nodup := .nil
  new x := iff_of_false List.not_mem_nil fun h => absurd h.2 (Nat.not_lt_of_le h.1)

/-- Copies of some trees, and behind them copies of others. -/
theorem Copies.append (h : Copies a ss b copies) (h' : Copies b ts c copies') :
    Copies a (ss ++ ts) c (copies ++ copies') where
  grows := h.grows.trans h'.grows
  holds := List.forall_mem_append.mpr ⟨fun s hs => h'.grows.extends.holds (h.holds s hs), h'.holds⟩
  trees := by
    have hbefore : toTreeAll c.element copies = ss := (h'.grows.toTreeAll h.holds).trans h.trees
    have hbehind := h'.trees
    rw [toTreeAll_eq_map] at hbefore hbehind
    rw [toTreeAll_eq_map, List.map_append, hbefore, hbehind]
  nodup := by
    rw [idsAll_append, List.nodup_append]
    refine ⟨h.nodup, h'.nodup, ?_⟩
    rintro x hx _ hx' rfl
    have hbefore := (h.new x).mp hx
    have hbehind := (h'.new x).mp hx'
    omega
  new x := by
    have hsize := h.grows.size
    have hsize' := h'.grows.size
    rw [idsAll_append, List.mem_append, h.new, h'.new]
    omega

/-- A node behind copies of the trees below it. -/
theorem Copies.node (h : Copies a ts b copies) (element : Element) :
    Copies a [.node element ts] (b.add element (copies.map IdTree.root)).1 [.node b.nodes.size copies] where
  grows := h.grows.trans (grows_add ..)
  holds := List.forall_mem_singleton.mpr (holds_add h.holds element)
  trees := by
    have hbelow := (grows_add b element (copies.map IdTree.root)).toTreeAll h.holds
    rw [toTreeAll, IdTree.toTree, element_add_self, hbelow, h.trees, toTreeAll]
  nodup := by
    rw [idsAll_singleton, ids_node, List.nodup_cons]
    refine ⟨fun hid => ?_, h.nodup⟩
    exact Nat.lt_irrefl _ ((h.new _).mp hid).2
  new x := by
    have hsize := h.grows.size
    rw [idsAll_singleton, ids_node, List.mem_cons, h.new, size_add]
    omega

mutual

theorem exists_copy (a : Arena) : (t : Tree) → ∃ s, Copies a [t] (a.copy t).1 [s] ∧ s.root = (a.copy t).2
  | .node element children => by
    obtain ⟨below, hbelow, hroots⟩ := exists_copyAll a children
    have hnode := hbelow.node element
    rw [hroots] at hnode
    exact ⟨_, hnode, rfl⟩

theorem exists_copyAll (a : Arena) : (ts : List Tree) →
    ∃ copies, Copies a ts (a.copyAll ts).1 copies ∧ copies.map IdTree.root = (a.copyAll ts).2
  | [] => ⟨[], .nil a, rfl⟩
  | t :: ts => by
    obtain ⟨s, hs, hroot⟩ := exists_copy a t
    obtain ⟨copies, hcopies, hroots⟩ := exists_copyAll (a.copy t).1 ts
    refine ⟨s :: copies, hs.append hcopies, ?_⟩
    rw [List.map_cons, hroot, hroots]
    rfl

end

/-! ### Grafts -/

/-- What has come behind the nodes of an arena is a graft if it is a copy. -/
theorem Copies.grafted (h : Copies a [source.treeAt s.root] b [copy]) (hsource : source.Holds s) :
    Grafted a source s b copy := by
  have hholds : b.Holds copy := h.holds copy List.mem_cons_self
  have htree : copy.toTree b.element = source.treeAt s.root := (List.cons.inj h.trees).1
  have hids : idsAll [copy] = copy.ids := idsAll_singleton copy
  have hnew := h.new
  rw [hids] at hnew
  constructor
  case holds => exact hholds
  case descendants => exact hholds.descendants_eq
  case toTree => rw [htree, hsource.treeAt_eq]
  case looksLike => rw [looksLike, hholds.treeAt_eq, htree, beq_self_eq_true]
  case nodup => exact hids ▸ h.nodup
  case new => exact hnew
  case grows => exact h.grows
  case apart =>
    intro hclosed x hx hreach
    have hold := hclosed x ((h.grows.reaches_iff hclosed x).mp hreach)
    exact Nat.not_le_of_lt hold ((hnew x).mp hx).1
  case reaches => exact h.grows.reaches_iff
  case treeFrom =>
    intro hclosed depth
    rw [h.grows.root]
    exact h.grows.treeFrom_eq depth hclosed
  case shape =>
    intro t ht
    have hshape := h.grows.extends.shape ht
    exact ⟨hshape, h.grows.toTree_eq ht, hshape.reachable.trans ht.reachable.symm⟩

/-- Grafting copies what stands below a node, whatever the shape of the arena that gets the copy. Each node in reach
stands at the top of a tree if the nodes of its arena form one. -/
theorem graft_copies (a source : Arena) :
    (∀ t, source.Shape t → ∀ id ∈ source.reachable, ∃ s, source.Holds s ∧ s.root = id ∧ s.ids.Nodup) ∧
      ∀ s, source.Holds s → ∃ copy, copy.root = (a.graft source s.root).2 ∧
        Grafted a source s (a.graft source s.root).1 copy := by
  refine ⟨fun t ht id hid => ht.exists_holds hid, fun s hs => ?_⟩
  obtain ⟨copy, hcopy, hroot⟩ := exists_copy a (source.treeAt s.root)
  exact ⟨copy, hroot, hcopy.grafted hs⟩

/-- Two texts are copied before the list that they stand in, which gets the last position. -/
theorem graft_copies_statements :
    let leaf (text : String) : ArenaNode := ⟨{ kind := .stringConstant, text }, []⟩
    let source : Arena := { nodes := #[⟨{ kind := .scriptBlock }, [3]⟩, leaf "a", leaf "b",
      ⟨{ kind := .statements }, [1, 2]⟩] }
    let s : IdTree := .node 3 [.node 1 [], .node 2 []]
    let a : Arena := { nodes := #[⟨{ kind := .scriptBlock }, [1]⟩, ⟨{ kind := .statements }, []⟩], generation := 1 }
    let b := (a.graft source 3).1
    source.Shape (.node 0 [s]) ∧ 3 ∈ source.reachable ∧ source.Holds s ∧ a.Closed ∧ (a.graft source 3).2 = 4 ∧
      Grafted a source s b (.node 4 [.node 2 [], .node 3 []]) ∧ ¬b.Reaches b.root 4 := by
  intro leaf source s a b
  have hsource : source.Shape (.node 0 [s]) := ⟨by unfold Holds; decide, rfl, by decide⟩
  have hs : source.Holds s := hsource.holds.child List.mem_cons_self
  have htarget : a.Shape (.node 0 [.node 1 []]) := ⟨by unfold Holds; decide, rfl, by decide⟩
  have hclosed := htarget.closed
  have hroot : (a.graft source 3).2 = 4 := by rfl
  have hholds : b.Holds (.node 4 [.node 2 [], .node 3 []]) := by unfold Holds; decide
  obtain ⟨copy, hcopy, hgrafted⟩ := (graft_copies a source).2 s hs
  obtain rfl := hgrafted.holds.eq_of_root hholds (hcopy.trans hroot)
  exact ⟨hsource, by decide, hs, hclosed, hroot, hgrafted, hgrafted.apart hclosed 4 (by decide)⟩

end
end Arena
end Unscramble
