import Unscramble.Proofs.Arena.Shape

/-! What an index of parents says about an arena whose nodes form a tree: a walk visits the nodes of the
tree in pre-order, and the links lead from every node up to the root. -/
namespace Unscramble

open IdTree

theorem IdTree.toTreeAll_eq_map (element : Nat → Element) (ts : List IdTree) :
    toTreeAll element ts = ts.map (toTree element) := by
  induction ts with
  | nil => rfl
  | cons t ts ih => rw [toTreeAll, ih, List.map_cons]

namespace Arena

variable {a : Arena} {t : IdTree}

/-! ### Walks -/

theorem length_idsAll (ts : List IdTree) : (idsAll ts).length = (ts.map fun t => t.ids.length).sum := by
  induction ts with
  | nil => rfl
  | cons t ts ih => rw [idsAll_cons, List.length_append, ih, List.map_cons, List.sum_cons]

theorem weightFrom_zero (id : Nat) : a.weightFrom 0 id = 1 := rfl

theorem weightFrom_succ (depth id : Nat) :
    a.weightFrom (depth + 1) id = ((a.children id).map (a.weightFrom depth)).sum + 1 := rfl

/-- The number of steps of a walk is the number of nodes. -/
theorem weightFrom_eq (h : a.Holds t) {depth : Nat} (hdepth : t.ids.toFinset.card ≤ depth + 1) :
    a.weightFrom depth t.root = t.ids.length := by
  induction t using children_induction generalizing depth with
  | h id below ih =>
    rw [ids_node, List.length_cons]
    cases depth with
    | zero => rw [h.below_eq_nil hdepth, weightFrom_zero, idsAll_nil, List.length_nil]
    | succ depth =>
      have hroot : a.children id = below.map IdTree.root := (h _ (mem_nodes_self _)).2
      rw [weightFrom_succ, root_node, hroot, length_idsAll, List.map_map]
      refine congrArg (fun ns : List Nat => ns.sum + 1) (List.map_congr_left fun t ht => ?_)
      have hcard := h.card_child ht
      exact ih t ht (h.child ht) (by omega)

theorem treeFrom_eq (h : a.Holds t) {depth : Nat} (hdepth : t.ids.toFinset.card ≤ depth + 1) :
    a.treeFrom depth t.root = t.toTree a.element := by
  induction t using children_induction generalizing depth with
  | h id below ih =>
    rw [IdTree.toTree, toTreeAll_eq_map, root_node]
    cases depth with
    | zero => rw [treeFrom, h.below_eq_nil hdepth, List.map_nil]
    | succ depth =>
      have hroot : a.children id = below.map IdTree.root := (h _ (mem_nodes_self _)).2
      rw [treeFrom, hroot, List.map_map]
      refine congrArg (Tree.node (a.element id)) (List.map_congr_left fun t ht => ?_)
      have hcard := h.card_child ht
      exact ih t ht (h.child ht) (by omega)

theorem Holds.treeAt_eq (h : a.Holds t) : a.treeAt t.root = t.toTree a.element :=
  treeFrom_eq h (h.card_le.trans (Nat.le_succ _))

/-- The tree that the arena stands for. -/
theorem Holds.toTree_eq (h : a.Holds t) (hroot : t.root = a.root) : a.toTree = t.toTree a.element := by
  rw [Arena.toTree, ← hroot]
  exact h.treeAt_eq

theorem take_idsAll {ts : List IdTree}
    (h : ∀ t ∈ ts, ∀ n rest, Cursor.take a (t.ids.length + n) (t.root :: rest) = t.ids ++ Cursor.take a n rest)
    (n : Nat) (rest : Cursor) : Cursor.take a ((idsAll ts).length + n) (ts.map IdTree.root ++ rest) =
      idsAll ts ++ Cursor.take a n rest := by
  induction ts with
  | nil => simp
  | cons t ts ih =>
    obtain ⟨ht, hts⟩ := List.forall_mem_cons.mp h
    rw [idsAll_cons, List.length_append, Nat.add_assoc, List.map_cons, List.cons_append, ht, ih hts,
      List.append_assoc]

/-- A walk visits a tree in pre-order before it goes on. -/
theorem take_ids (h : a.Holds t) : ∀ n rest,
    Cursor.take a (t.ids.length + n) (t.root :: rest) = t.ids ++ Cursor.take a n rest := by
  induction t using children_induction with
  | h id below ih =>
    intro n rest
    have hroot : a.children id = below.map IdTree.root := (h _ (mem_nodes_self _)).2
    have hbelow := take_idsAll (fun t ht => ih t ht (h.child ht)) n rest
    rw [ids_node, List.length_cons, Nat.add_right_comm, List.cons_append, ← hbelow, ← hroot]
    rfl

theorem Shape.reachable (h : a.Shape t) : a.reachable = t.ids := by
  have hweight : a.weight t.root = t.ids.length :=
    weightFrom_eq h.holds (h.holds.card_le.trans (Nat.le_succ _))
  have hwalk := take_ids h.holds 0 []
  rw [Arena.reachable, descendants, ← h.root, hweight]
  simpa [Cursor.take] using hwalk

end Arena

namespace ParentIndex

open Arena

variable {a : Arena} {t : IdTree} {p x : Nat}

/-! ### Parents -/

theorem mem_links (h : a.Shape t) : (x, p) ∈ (build a).links ↔ p ∈ t.ids ∧ x ∈ a.children p := by
  simp [build, h.reachable]

theorem parent?_eq_some (h : a.Shape t) :
    (build a).parent? x = some p ↔ p ∈ t.ids ∧ x ∈ a.children p := by
  constructor
  · intro hparent
    obtain ⟨⟨y, q⟩, hfind, rfl⟩ := Option.map_eq_some_iff.mp hparent
    have hy : y = x := by simpa using List.find?_some hfind
    exact (mem_links h).mp (hy ▸ List.mem_of_find?_eq_some hfind)
  · rintro ⟨hp, hx⟩
    have hsome : ((build a).links.find? (·.1 == x)).isSome = true :=
      List.find?_isSome.mpr ⟨(x, p), (mem_links h).mpr ⟨hp, hx⟩, by simp⟩
    obtain ⟨⟨y, q⟩, hfind⟩ := Option.isSome_iff_exists.mp hsome
    have hy : y = x := by simpa using List.find?_some hfind
    obtain ⟨hq, hxq⟩ := (mem_links h).mp (hy ▸ List.mem_of_find?_eq_some hfind)
    rw [parent?, hfind, Option.map_some, h.parent_unique hq hp hxq hx]

theorem parent?_root (h : a.Shape t) : (build a).parent? t.root = none := by
  refine Option.eq_none_iff_forall_ne_some.mpr fun p hp => ?_
  obtain ⟨hp, hroot⟩ := (parent?_eq_some h).mp hp
  exact h.root_not_child hp hroot

theorem parent?_eq_none (h : a.Shape t) (hx : x ∉ t.ids) : (build a).parent? x = none := by
  refine Option.eq_none_iff_forall_ne_some.mpr fun p hp => ?_
  obtain ⟨hp, hchild⟩ := (parent?_eq_some h).mp hp
  exact hx (h.mem_of_child hp hchild)

theorem exists_parent? (h : a.Shape t) (hx : x ∈ t.ids) (hroot : x ≠ t.root) :
    ∃ p, (build a).parent? x = some p := by
  obtain ⟨p, hp, hchild⟩ := h.exists_parent hx hroot
  exact ⟨p, (parent?_eq_some h).mpr ⟨hp, hchild⟩⟩

/-! ### Ancestors -/

theorem ancestorsFrom_eq (h : a.Shape t) {n : Nat} (hn : (t.up x).length ≤ n + 1) :
    (build a).ancestorsFrom n x = (t.up x).tail := by
  induction n generalizing x with
  | zero =>
    rw [ancestorsFrom]
    exact (List.length_eq_zero_iff.mp (by rw [List.length_tail]; omega)).symm
  | succ n ih =>
    rw [ancestorsFrom]
    cases hparent : (build a).parent? x with
    | none =>
      by_cases hx : x ∈ t.ids
      · obtain rfl : x = t.root := by
          by_contra hroot
          obtain ⟨p, hp⟩ := exists_parent? h hx hroot
          rw [hparent] at hp
          cases hp
        rw [up_root, List.tail_cons]
      · rw [up_eq_nil hx, List.tail_nil]
    | some p =>
      obtain ⟨hp, hchild⟩ := (parent?_eq_some h).mp hparent
      have hup := h.up_child hp hchild
      obtain ⟨path, hpath⟩ := up_eq_cons h.nodup hp
      rw [hup, List.length_cons] at hn
      have habove : (build a).ancestorsFrom n p = path := by
        rw [ih (Nat.le_of_succ_le_succ hn), hpath, List.tail_cons]
      rw [hup, List.tail_cons, hpath, ← habove]

theorem length_links (h : a.Shape t) : (build a).links.length + 1 = t.ids.length := by
  have hperm := h.holds.perm_ids.length_eq
  rw [hperm, List.length_cons, build, h.reachable, List.length_reverse, List.length_flatMap,
    List.length_flatMap]
  simp

theorem ancestors_eq (h : a.Shape t) (x : Nat) : (build a).ancestors x = (t.up x).tail := by
  refine ancestorsFrom_eq h ?_
  rw [length_links h]
  exact length_up_le x t

theorem isWithin_iff (h : a.Shape t) (hx : x ∈ t.ids) (y : Nat) :
    (y == x || (build a).isWithin x y) = true ↔ y ∈ t.up x := by
  obtain ⟨path, hpath⟩ := up_eq_cons h.nodup hx
  rw [isWithin, ancestors_eq h, hpath, List.tail_cons, List.mem_cons]
  simp

end ParentIndex
end Unscramble
