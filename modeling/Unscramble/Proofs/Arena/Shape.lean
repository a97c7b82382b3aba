import Mathlib.Algebra.Ring.Nat
import Mathlib.Data.Finset.Card
import Mathlib.Data.List.Nodup
import Mathlib.Data.List.Pairwise
import Mathlib.Data.List.Perm.Subperm
import Mathlib.Tactic.ByContra
import Unscramble.Arena.Edit
import Unscramble.Arena.IdTree

/-! Arenas that hold a tree of positions. In an arena whose nodes form a tree every node but
the root stands in the list of exactly one other. -/
namespace Unscramble

namespace IdTree

@[simp] theorem root_node (id : Nat) (below : List IdTree) : (node id below).root = id := rfl

@[simp] theorem children_node (id : Nat) (below : List IdTree) : (node id below).children = below := rfl

def ids (t : IdTree) : List Nat := t.nodes.map root

def idsAll (ts : List IdTree) : List Nat := (nodesAll ts).map root

mutual

/-- A node and its ancestors, nearest first. There are none if the node is not in the tree. -/
def up (id : Nat) : IdTree → List Nat
  | .node top below =>
    if top = id then [id]
    else
      match upAll id below with
      | [] => []
      | path => path ++ [top]

def upAll (id : Nat) : List IdTree → List Nat
  | [] => []
  | t :: ts =>
    match t.up id with
    | [] => upAll id ts
    | path => path

end

@[simp] theorem ids_node (id : Nat) (below : List IdTree) : (node id below).ids = id :: idsAll below := by
  rw [ids, nodes, List.map_cons, root_node, idsAll]

@[simp] theorem idsAll_nil : idsAll [] = [] := rfl

@[simp] theorem idsAll_cons (t : IdTree) (ts : List IdTree) : idsAll (t :: ts) = t.ids ++ idsAll ts := by
  rw [idsAll, nodesAll, List.map_append, ids, idsAll]

theorem idsAll_singleton (t : IdTree) : idsAll [t] = t.ids := by rw [idsAll_cons, idsAll_nil, List.append_nil]

@[simp] theorem idsAll_append (ss ts : List IdTree) : idsAll (ss ++ ts) = idsAll ss ++ idsAll ts := by
  induction ss with
  | nil => rfl
  | cons s ss ih => rw [List.cons_append, idsAll_cons, idsAll_cons, ih, List.append_assoc]

theorem nodes_eq (t : IdTree) : t.nodes = t :: nodesAll t.children := by cases t; rfl

theorem mem_nodes_self (t : IdTree) : t ∈ t.nodes := by simp [nodes_eq]

theorem root_mem_ids (t : IdTree) : t.root ∈ t.ids := List.mem_map_of_mem (mem_nodes_self t)

theorem mem_nodesAll {s : IdTree} {ts : List IdTree} : s ∈ nodesAll ts ↔ ∃ t ∈ ts, s ∈ t.nodes := by
  induction ts with
  | nil => simp [nodesAll]
  | cons t ts ih => simp [nodesAll, ih]

theorem mem_idsAll {id : Nat} {ts : List IdTree} : id ∈ idsAll ts ↔ ∃ t ∈ ts, id ∈ t.ids := by
  induction ts with
  | nil => simp
  | cons t ts ih => simp [ih]

theorem mem_nodes_iff {s t : IdTree} : s ∈ t.nodes ↔ s = t ∨ ∃ c ∈ t.children, s ∈ c.nodes := by
  rw [nodes_eq, List.mem_cons, mem_nodesAll]

mutual

/-- Induction on a tree with all trees below it at once. -/
theorem children_induction {P : IdTree → Prop} (h : ∀ id below, (∀ t ∈ below, P t) → P (.node id below)) :
    ∀ t, P t
  | .node id below => h id below (children_inductionAll h below)

theorem children_inductionAll {P : IdTree → Prop}
    (h : ∀ id below, (∀ t ∈ below, P t) → P (.node id below)) : ∀ ts : List IdTree, ∀ t ∈ ts, P t
  | [] => by simp
  | t :: ts => List.forall_mem_cons.mpr ⟨children_induction h t, children_inductionAll h ts⟩

end

theorem mem_nodes_trans {r s t : IdTree} (hs : s ∈ t.nodes) (hr : r ∈ s.nodes) : r ∈ t.nodes := by
  induction t using children_induction with
  | h id below ih =>
    rcases mem_nodes_iff.mp hs with rfl | ⟨c, hc, hs⟩
    · exact hr
    · exact mem_nodes_iff.mpr (.inr ⟨c, hc, ih c hc hs⟩)

theorem ids_sublist_idsAll {t : IdTree} {ts : List IdTree} (ht : t ∈ ts) : t.ids.Sublist (idsAll ts) := by
  induction ts with
  | nil => simp at ht
  | cons s ts ih =>
    rw [idsAll_cons]
    rcases List.mem_cons.mp ht with rfl | ht
    · exact List.sublist_append_left _ _
    · exact (ih ht).trans (List.sublist_append_right _ _)

theorem ids_sublist_of_node {s t : IdTree} (hs : s ∈ t.nodes) : s.ids.Sublist t.ids := by
  induction t using children_induction with
  | h id below ih =>
    rcases mem_nodes_iff.mp hs with rfl | ⟨t, ht, hs⟩
    · exact .refl _
    · rw [ids_node]
      exact (ih t ht hs).trans ((ids_sublist_idsAll ht).cons _)

theorem mem_ids_of_node {s t : IdTree} {id : Nat} (hs : s ∈ t.nodes) (hid : id ∈ s.ids) : id ∈ t.ids :=
  (ids_sublist_of_node hs).subset hid

theorem child_mem_nodes {s c t : IdTree} (hs : s ∈ t.nodes) (hc : c ∈ s.children) : c ∈ t.nodes :=
  mem_nodes_trans hs (mem_nodes_iff.mpr (.inr ⟨c, hc, mem_nodes_self c⟩))

/-! ### The way up -/

theorem upAll_eq_nil_of {id : Nat} {ts : List IdTree} (h : ∀ t ∈ ts, t.up id = []) : upAll id ts = [] := by
  induction ts with
  | nil => rfl
  | cons t ts ih =>
    obtain ⟨ht, hts⟩ := List.forall_mem_cons.mp h
    rw [upAll, ht]
    exact ih hts

theorem up_eq_nil {id : Nat} {t : IdTree} (h : id ∉ t.ids) : t.up id = [] := by
  induction t using children_induction with
  | h top below ih =>
    rw [ids_node, List.mem_cons, not_or] at h
    have hall : upAll id below = [] := upAll_eq_nil_of fun t ht =>
      ih t ht fun hid => h.2 (mem_idsAll.mpr ⟨t, ht, hid⟩)
    rw [up, if_neg (Ne.symm h.1), hall]

theorem up_root (t : IdTree) : t.up t.root = [t.root] := by
  obtain ⟨id, below⟩ := t
  simp [up]

/-- The way up from a node of one of several trees that have no nodes in common. -/
theorem upAll_of_mem {id : Nat} {t : IdTree} {ts : List IdTree} (hnodup : (idsAll ts).Nodup) (ht : t ∈ ts)
    (hid : id ∈ t.ids) : upAll id ts = t.up id ∨ t.up id = [] := by
  induction ts with
  | nil => simp at ht
  | cons s ts ih =>
    rw [idsAll_cons, List.nodup_append] at hnodup
    rw [upAll]
    rcases List.mem_cons.mp ht with rfl | ht
    · cases h : t.up id with
      | nil => exact .inr rfl
      | cons => exact .inl rfl
    · have hs : s.up id = [] := up_eq_nil fun hs =>
        hnodup.2.2 id hs id (mem_idsAll.mpr ⟨t, ht, hid⟩) rfl
      rw [hs]
      exact ih hnodup.2.1 ht

theorem up_node {id top : Nat} {below : List IdTree} {t : IdTree} (hnodup : (node top below).ids.Nodup)
    (ht : t ∈ below) (hid : id ∈ t.ids) (hup : t.up id ≠ []) :
    (node top below).up id = t.up id ++ [top] := by
  rw [ids_node, List.nodup_cons] at hnodup
  have hne : top ≠ id := by
    rintro rfl
    exact hnodup.1 (mem_idsAll.mpr ⟨t, ht, hid⟩)
  have hall := (upAll_of_mem hnodup.2 ht hid).resolve_right hup
  rw [up, if_neg hne, hall]
  cases h : t.up id with
  | nil => exact absurd h hup
  | cons => rfl

theorem nodup_of_node {s t : IdTree} (hnodup : t.ids.Nodup) (hs : s ∈ t.nodes) : s.ids.Nodup :=
  hnodup.sublist (ids_sublist_of_node hs)

theorem nodup_child {id : Nat} {below : List IdTree} {t : IdTree} (hnodup : (node id below).ids.Nodup)
    (ht : t ∈ below) : t.ids.Nodup :=
  nodup_of_node hnodup (child_mem_nodes (mem_nodes_self _) ht)

theorem up_eq_cons {id : Nat} {t : IdTree} (hnodup : t.ids.Nodup) (hid : id ∈ t.ids) :
    ∃ path, t.up id = id :: path := by
  induction t using children_induction with
  | h top below ih =>
    by_cases htop : top = id
    · subst htop
      exact ⟨[], up_root (node top below)⟩
    · rw [ids_node, List.mem_cons] at hid
      obtain ⟨t, ht, hid⟩ := mem_idsAll.mp (hid.resolve_left (Ne.symm htop))
      obtain ⟨path, hpath⟩ := ih t ht (nodup_child hnodup ht) hid
      exact ⟨path ++ [top], by rw [up_node hnodup ht hid (by simp [hpath]), hpath, List.cons_append]⟩

/-- The way up from a child leads through its parent. -/
theorem up_child {s c t : IdTree} (hnodup : t.ids.Nodup) (hs : s ∈ t.nodes) (hc : c ∈ s.children) :
    t.up c.root = c.root :: t.up s.root := by
  induction t using children_induction with
  | h top below ih =>
    rcases mem_nodes_iff.mp hs with rfl | ⟨t, ht, hs⟩
    · rw [up_node hnodup hc (root_mem_ids c) (by simp [up_root]), up_root, up_root]
      rfl
    · have hmem : s.root ∈ t.ids := List.mem_map_of_mem hs
      have hmem' : c.root ∈ t.ids := List.mem_map_of_mem (child_mem_nodes hs hc)
      have hstep := ih t ht (nodup_child hnodup ht) hs
      obtain ⟨path, hpath⟩ := up_eq_cons (nodup_child hnodup ht) hmem
      rw [up_node hnodup ht hmem' (by simp [hstep]), up_node hnodup ht hmem (by simp [hpath]), hstep,
        List.cons_append]

mutual

theorem length_up_le (id : Nat) : (t : IdTree) → (t.up id).length ≤ t.ids.length
  | .node top below => by
    have hall := length_upAll_le id below
    rw [up, ids_node]
    split
    · simp
    · split <;> simp_all

theorem length_upAll_le (id : Nat) : (ts : List IdTree) → (upAll id ts).length ≤ (idsAll ts).length
  | [] => Nat.le_refl _
  | t :: ts => by
    have ht := length_up_le id t
    have hts := length_upAll_le id ts
    rw [upAll, idsAll_cons, List.length_append]
    split <;> omega

end

end IdTree

/-- Lists are the same if a function that tells their items apart does not tell the lists apart. -/
theorem eq_of_map_eq {α β : Type} {f : α → β} {xs ys : List α} (h : xs.map f = ys.map f)
    (hinj : ∀ x ∈ xs, ∀ y ∈ ys, f x = f y → x = y) : xs = ys := by
  refine List.ext_getElem (by simpa using congrArg List.length h) fun i hx hy => ?_
  refine hinj _ (List.getElem_mem hx) _ (List.getElem_mem hy) ?_
  have hi := congrArg (·[i]?) h
  simpa [hx, hy] using hi

/-- What several lists are made of comes from one of them only, if nothing comes twice. -/
theorem eq_of_mem_flatMap {α β : Type} {l : List α} {f : α → List β} (hnodup : (l.flatMap f).Nodup)
    {x y : α} (hx : x ∈ l) (hy : y ∈ l) {b : β} (hbx : b ∈ f x) (hby : b ∈ f y) : x = y := by
  have : Std.Symm (Function.onFun List.Disjoint f) := ⟨fun _ _ h _ hx hy => h hy hx⟩
  by_contra hne
  exact (List.nodup_flatMap.mp hnodup).2.forall hx hy hne hbx hby

/-! ### Arenas that hold a tree -/

namespace Arena

open IdTree

/-- The nodes of a tree are in the arena, each with the children that it has in the tree. -/
def Holds (a : Arena) (t : IdTree) : Prop :=
  ∀ s ∈ t.nodes, s.root < a.nodes.size ∧ a.children s.root = s.children.map IdTree.root

/-- An arena whose nodes form a tree below the root. -/
structure Shape (a : Arena) (t : IdTree) : Prop where
  holds : a.Holds t
  root : t.root = a.root
  nodup : t.ids.Nodup

theorem Holds.node {a : Arena} {s t : IdTree} (h : a.Holds t) (hs : s ∈ t.nodes) : a.Holds s :=
  fun r hr => h r (mem_nodes_trans hs hr)

theorem Holds.child {a : Arena} {id : Nat} {below : List IdTree} {t : IdTree}
    (h : a.Holds (.node id below)) (ht : t ∈ below) : a.Holds t :=
  h.node (child_mem_nodes (mem_nodes_self _) ht)

theorem Holds.lt_size {a : Arena} {t : IdTree} (h : a.Holds t) {id : Nat} (hid : id ∈ t.ids) :
    id < a.nodes.size := by
  obtain ⟨s, hs, rfl⟩ := List.mem_map.mp hid
  exact (h s hs).1

/-! ### The number of nodes -/

/-- What stands below a node is in the arena. -/
theorem Holds.eq_of_root {a : Arena} {s t : IdTree} (hs : a.Holds s) (ht : a.Holds t)
    (hroot : s.root = t.root) : s = t := by
  induction s using children_induction generalizing t with
  | h id below ih =>
    obtain ⟨_, others⟩ := t
    obtain rfl := hroot
    have hbelow : below.map IdTree.root = others.map IdTree.root :=
      (hs _ (mem_nodes_self _)).2.symm.trans (ht _ (mem_nodes_self _)).2
    exact congrArg (IdTree.node id) (eq_of_map_eq hbelow fun r hr r' hr' => ih r hr (hs.child hr) (ht.child hr'))

/-- No node stands below itself. -/
theorem Holds.not_mem_below {a : Arena} {id : Nat} {below : List IdTree} (h : a.Holds (.node id below)) :
    id ∉ idsAll below := by
  intro hid
  obtain ⟨t, ht, hid⟩ := mem_idsAll.mp hid
  obtain ⟨s, hs, hroot⟩ := List.mem_map.mp hid
  obtain rfl : s = .node id below := ((h.child ht).node hs).eq_of_root h hroot
  have hlength := ((ids_sublist_of_node hs).trans (ids_sublist_idsAll ht)).length_le
  rw [ids_node, List.length_cons] at hlength
  omega

/-- A child has fewer nodes below it than its parent, though some may be there more than once. -/
theorem Holds.card_child {a : Arena} {id : Nat} {below : List IdTree} {t : IdTree}
    (h : a.Holds (.node id below)) (ht : t ∈ below) :
    t.ids.toFinset.card < (IdTree.node id below).ids.toFinset.card := by
  have hsub := (ids_sublist_of_node (child_mem_nodes (mem_nodes_self (.node id below)) ht)).subset
  have hid : id ∉ t.ids := fun hid => h.not_mem_below (mem_idsAll.mpr ⟨t, ht, hid⟩)
  refine Finset.card_lt_card (Finset.ssubset_iff.mpr ⟨id, by simpa using hid, ?_⟩)
  exact Finset.insert_subset (by simp) fun x hx => List.mem_toFinset.mpr (hsub (List.mem_toFinset.mp hx))

/-- A node with nothing else to count has no children. -/
theorem Holds.below_eq_nil {a : Arena} {id : Nat} {below : List IdTree} (h : a.Holds (.node id below))
    (hcard : (IdTree.node id below).ids.toFinset.card ≤ 1) : below = [] := by
  refine List.eq_nil_iff_forall_not_mem.mpr fun t ht => ?_
  have hchild := h.card_child ht
  have hroot := Finset.card_pos.mpr ⟨t.root, List.mem_toFinset.mpr (root_mem_ids t)⟩
  omega

theorem Holds.card_le {a : Arena} {t : IdTree} (h : a.Holds t) : t.ids.toFinset.card ≤ a.nodes.size := by
  have hsub : t.ids.toFinset ⊆ Finset.range a.nodes.size := fun id hid =>
    Finset.mem_range.mpr (h.lt_size (List.mem_toFinset.mp hid))
  exact (Finset.card_le_card hsub).trans_eq (Finset.card_range _)

/-! ### Parents -/

theorem perm_idsAll {a : Arena} {ts : List IdTree}
    (h : ∀ t ∈ ts, t.ids.Perm (t.root :: t.ids.flatMap a.children)) :
    (idsAll ts).Perm (ts.map IdTree.root ++ (idsAll ts).flatMap a.children) := by
  induction ts with
  | nil => exact .refl _
  | cons t ts ih =>
    obtain ⟨ht, hts⟩ := List.forall_mem_cons.mp h
    rw [idsAll_cons, List.flatMap_append, List.map_cons, List.cons_append]
    have hboth := ht.append (ih hts)
    rw [List.cons_append, ← List.append_assoc] at hboth
    rw [← List.append_assoc]
    exact hboth.trans (.cons _ (List.perm_append_comm.append_right _))

/-- The nodes of a tree are its root and the children of its nodes. -/
theorem Holds.perm_ids {a : Arena} {t : IdTree} (h : a.Holds t) :
    t.ids.Perm (t.root :: t.ids.flatMap a.children) := by
  induction t using children_induction with
  | h id below ih =>
    have hroot : a.children id = below.map IdTree.root := (h _ (mem_nodes_self _)).2
    rw [ids_node, List.flatMap_cons, hroot]
    exact .cons _ (perm_idsAll fun t ht => ih t ht (h.child ht))

namespace Shape

variable {a : Arena} {t : IdTree} {p q x : Nat}

theorem exists_node (hp : p ∈ t.ids) : ∃ s ∈ t.nodes, s.root = p := List.mem_map.mp hp

theorem nodup_children (h : a.Shape t) : (t.root :: t.ids.flatMap a.children).Nodup :=
  h.holds.perm_ids.nodup_iff.mp h.nodup

theorem mem_of_child (h : a.Shape t) (hp : p ∈ t.ids) (hx : x ∈ a.children p) : x ∈ t.ids :=
  h.holds.perm_ids.mem_iff.mpr (List.mem_cons_of_mem _ (List.mem_flatMap.mpr ⟨p, hp, hx⟩))

theorem root_not_child (h : a.Shape t) (hp : p ∈ t.ids) : t.root ∉ a.children p := fun hx =>
  (List.nodup_cons.mp h.nodup_children).1 (List.mem_flatMap.mpr ⟨p, hp, hx⟩)

theorem children_nodup (h : a.Shape t) (hp : p ∈ t.ids) : (a.children p).Nodup :=
  (List.nodup_flatMap.mp (List.nodup_cons.mp h.nodup_children).2).1 p hp

/-- No node has two parents. -/
theorem parent_unique (h : a.Shape t) (hp : p ∈ t.ids) (hq : q ∈ t.ids) (hxp : x ∈ a.children p)
    (hxq : x ∈ a.children q) : p = q :=
  eq_of_mem_flatMap (List.nodup_cons.mp h.nodup_children).2 hp hq hxp hxq

theorem exists_parent (h : a.Shape t) (hx : x ∈ t.ids) (hroot : x ≠ t.root) :
    ∃ p ∈ t.ids, x ∈ a.children p := by
  have hmem := h.holds.perm_ids.mem_iff.mp hx
  exact List.mem_flatMap.mp ((List.mem_cons.mp hmem).resolve_left hroot)

/-- The way up from a child leads through its parent. -/
theorem up_child (h : a.Shape t) (hp : p ∈ t.ids) (hx : x ∈ a.children p) : t.up x = x :: t.up p := by
  obtain ⟨s, hs, rfl⟩ := exists_node hp
  rw [(h.holds s hs).2] at hx
  obtain ⟨c, hc, rfl⟩ := List.mem_map.mp hx
  exact IdTree.up_child h.nodup hs hc

end Shape
end Arena
end Unscramble
