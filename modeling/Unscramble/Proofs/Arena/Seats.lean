import Unscramble.Arena.Selection
import Unscramble.Proofs.Arena.Grafting
import Unscramble.Proofs.Rewriting.Basic
import Unscramble.Proofs.Rewriting.Nodes

/-! Seats of a tree of positions, and the places that they are in the syntax tree. To put trees in the places of
some positions is to put them there in the syntax tree. -/
namespace Unscramble

namespace IdTree

variable {f g : Nat → Element} {s t : IdTree} {ts : List IdTree}

/-! ### What a tree of positions looks like -/

@[simp] theorem element_toTree (f : Nat → Element) (t : IdTree) : (t.toTree f).element = f t.root := by
  cases t
  rfl

@[simp] theorem children_toTree (f : Nat → Element) (t : IdTree) :
    (t.toTree f).children = t.children.map (toTree f) := by
  cases t
  exact toTreeAll_eq_map f _

@[simp] theorem kind_toTree (f : Nat → Element) (t : IdTree) : (t.toTree f).kind = t.kind f := by
  rw [Tree.kind, element_toTree, IdTree.kind]

@[simp] theorem is_toTree (f : Nat → Element) (t : IdTree) (k : Kind) : (t.toTree f).is k = t.is f k := by
  rw [Tree.is, kind_toTree, IdTree.is]

theorem nodesAll_append (ss ts : List IdTree) : nodesAll (ss ++ ts) = nodesAll ss ++ nodesAll ts := by
  induction ss with
  | nil => rfl
  | cons s ss ih => rw [List.cons_append, nodesAll, ih, nodesAll, List.append_assoc]

end IdTree

/-! ### Seats -/

namespace Seat

open IdTree

/-- The seats of a tree: its root, and the children of what stands in a seat. -/
inductive On (t : IdTree) : Seat → Prop
  | root : On t ⟨[], t⟩
  | child {trail u i c} : On t ⟨trail, u⟩ → u.children[i]? = some c → On t ⟨(u, i) :: trail, c⟩

variable {t : IdTree} {s : Seat}

mutual

theorem on_of_mem_seatsFrom {trail : List (IdTree × Nat)} :
    (u : IdTree) → On t ⟨trail, u⟩ → s ∈ u.seatsFrom trail → On t s
  | .node id below, hu, hs => by
    rw [seatsFrom, List.mem_cons] at hs
    rcases hs with rfl | hs
    · exact hu
    · exact on_of_mem_seatsBelow 0 below hu (fun j => by simp) hs

theorem on_of_mem_seatsBelow {trail : List (IdTree × Nat)} {above : IdTree} (i : Nat) :
    (ts : List IdTree) → On t ⟨trail, above⟩ → (∀ j, above.children[i + j]? = ts[j]?) →
    s ∈ seatsBelow trail above i ts → On t s
  | [], _, _, hs => by simp [seatsBelow] at hs
  | u :: us, habove, hts, hs => by
    rw [seatsBelow, List.mem_append] at hs
    rcases hs with hs | hs
    · exact on_of_mem_seatsFrom u (.child habove (by simpa using hts 0)) hs
    · refine on_of_mem_seatsBelow (i + 1) us habove (fun j => ?_) hs
      have h := hts (j + 1)
      rwa [List.getElem?_cons_succ, show i + (j + 1) = i + 1 + j by omega] at h

end

theorem on_of_mem (h : s ∈ t.seats) : On t s := on_of_mem_seatsFrom t .root h

theorem On.mem_nodes (h : On t s) : s.node ∈ t.nodes := by
  induction h with
  | root => exact mem_nodes_self t
  | child _ hc ih => exact child_mem_nodes ih (List.mem_of_getElem? hc)

theorem On.up {r : Seat} (h : On t s) (hr : s.up? = some r) : On t r := by
  cases h with
  | root => simp [up?] at hr
  | child h _ =>
    simp only [up?, Option.some.injEq] at hr
    exact hr ▸ h

variable (f : Nat → Element)

mutual

theorem map_place_seatsFrom (trail : List (IdTree × Nat)) : (u : IdTree) →
    (u.seatsFrom trail).map (place f) =
      (u.toTree f).placesFrom (trail.map fun (above, i) => (above.toTree f, i))
  | .node id below => by
    rw [seatsFrom, List.map_cons, map_place_seatsBelow trail (.node id below) 0 below]
    rfl

theorem map_place_seatsBelow (trail : List (IdTree × Nat)) (above : IdTree) (i : Nat) : (ts : List IdTree) →
    (seatsBelow trail above i ts).map (place f) =
      Tree.placesBelow (trail.map fun (above, i) => (above.toTree f, i)) (above.toTree f) i (toTreeAll f ts)
  | [] => rfl
  | u :: us => by
    rw [seatsBelow, List.map_append, map_place_seatsFrom ((above, i) :: trail) u,
      map_place_seatsBelow trail above (i + 1) us]
    rfl

end

/-- The seats of a tree are the places of what it looks like. -/
theorem map_place_seats (t : IdTree) : t.seats.map (place f) = (t.toTree f).places :=
  map_place_seatsFrom f [] t

@[simp] theorem tree_place (s : Seat) : (s.place f).tree = s.node.toTree f := rfl

end Seat

namespace IdTree

/-! ### Trees in the places of positions -/

mutual

/-- What a tree of positions looks like with other trees in the places of some of them. The root stays. -/
def fill (f : Nat → Element) (new : Nat → Option (List Tree)) : IdTree → Tree
  | .node id below => .node (f id) (fillAll f new below)

def fillAll (f : Nat → Element) (new : Nat → Option (List Tree)) : List IdTree → List Tree
  | [] => []
  | t :: ts => (new t.root).getD [t.fill f new] ++ fillAll f new ts

end

section
variable {f g : Nat → Element} {t : IdTree} {new : Nat → Option (List Tree)}

theorem fill_eq (t : IdTree) : t.fill f new = .node (f t.root) (fillAll f new t.children) := by
  cases t
  rfl

theorem fillAll_append (ss ts : List IdTree) : fillAll f new (ss ++ ts) = fillAll f new ss ++ fillAll f new ts := by
  induction ss with
  | nil => rfl
  | cons s ss ih => rw [List.cons_append, fillAll, ih, fillAll, List.append_assoc]

mutual

/-- Substituted trees look like trees that are filled in. -/
theorem toTree_substitute (σ : Nat → Option (List IdTree)) : (t : IdTree) → (∀ id ∈ t.ids, g id = f id) →
    (t.substitute σ).toTree g = t.fill f fun id => (σ id).map (toTreeAll g)
  | .node id below, h => by
    rw [ids_node, List.forall_mem_cons] at h
    rw [substitute, toTree, fill, h.1, toTreeAll_substituteAll σ below h.2]

theorem toTreeAll_substituteAll (σ : Nat → Option (List IdTree)) : (ts : List IdTree) →
    (∀ id ∈ idsAll ts, g id = f id) →
    toTreeAll g (substituteAll σ ts) = fillAll f (fun id => (σ id).map (toTreeAll g)) ts
  | [], _ => rfl
  | t :: ts, h => by
    rw [idsAll_cons, List.forall_mem_append] at h
    rw [substituteAll, fillAll, toTreeAll_eq_map, List.map_append, ← toTreeAll_eq_map, ← toTreeAll_eq_map,
      toTreeAll_substituteAll σ ts h.2]
    congr 1
    cases σ t.root with
    | none => rw [Option.getD_none, Option.map_none, Option.getD_none, toTreeAll, toTreeAll,
        toTree_substitute σ t h.1]
    | some us => rfl

end

mutual

theorem fill_congr {new' : Nat → Option (List Tree)} : (t : IdTree) →
    (∀ id ∈ idsAll t.children, new id = new' id) → t.fill f new = t.fill f new'
  | .node id below, h => by rw [fill, fill, fillAll_congr below h]

theorem fillAll_congr {new' : Nat → Option (List Tree)} : (ts : List IdTree) →
    (∀ id ∈ idsAll ts, new id = new' id) → fillAll f new ts = fillAll f new' ts
  | [], _ => rfl
  | t :: ts, h => by
    rw [idsAll_cons, List.forall_mem_append] at h
    have hbelow : ∀ id ∈ idsAll t.children, new id = new' id := fun id hid => h.1 id <| by
      cases t
      rw [ids_node]
      exact List.mem_cons_of_mem _ hid
    rw [fillAll, fillAll, h.1 _ (root_mem_ids t), fill_congr t hbelow, fillAll_congr ts h.2]

end

mutual

theorem fill_none (f : Nat → Element) : (t : IdTree) → t.fill f (fun _ => none) = t.toTree f
  | .node id below => by rw [fill, toTree, fillAll_none f below]

theorem fillAll_none (f : Nat → Element) : (ts : List IdTree) → fillAll f (fun _ => none) ts = toTreeAll f ts
  | [] => rfl
  | t :: ts => by
    rw [fillAll, toTreeAll, fill_none f t, fillAll_none f ts]
    rfl

end

/-- Where nothing is to be filled in, a tree looks as it is. -/
theorem fill_of_none (h : ∀ id ∈ idsAll t.children, new id = none) : t.fill f new = t.toTree f :=
  (fill_congr t h).trans (fill_none f t)

theorem fillAll_of_none {ts : List IdTree} (h : ∀ id ∈ idsAll ts, new id = none) :
    fillAll f new ts = ts.map (toTree f) :=
  (fillAll_congr ts h).trans ((fillAll_none f ts).trans (toTreeAll_eq_map f ts))

theorem nodup_below (h : t.ids.Nodup) : (idsAll t.children).Nodup := by
  cases t
  rw [ids_node, List.nodup_cons] at h
  exact h.2

theorem root_not_mem_below (h : t.ids.Nodup) : t.root ∉ idsAll t.children := by
  cases t
  rw [ids_node, List.nodup_cons] at h
  exact h.1

theorem mem_ids_of_below {id : Nat} (h : id ∈ idsAll t.children) : id ∈ t.ids := by
  cases t
  rw [ids_node]
  exact List.mem_cons_of_mem _ h

/-- Where only one of several trees is filled in, the others look as they are. -/
theorem fillAll_around {before after : List IdTree} (hids : (idsAll (before ++ t :: after)).Nodup)
    (hnew : ∀ id, new id ≠ none → id ∈ t.ids) :
    fillAll f new (before ++ t :: after) =
      before.map (toTree f) ++ ((new t.root).getD [t.fill f new] ++ after.map (toTree f)) := by
  rw [idsAll_append, idsAll_cons, List.nodup_append, List.nodup_append] at hids
  have hbefore : ∀ id ∈ idsAll before, new id = none := fun id hid => by
    by_contra hne
    exact hids.2.2 id hid id (List.mem_append_left _ (hnew id hne)) rfl
  have hafter : ∀ id ∈ idsAll after, new id = none := fun id hid => by
    by_contra hne
    exact hids.2.1.2.2 id (hnew id hne) id hid rfl
  rw [fillAll_append, fillAll, fillAll_of_none hbefore, fillAll_of_none hafter]

end
end IdTree

namespace Seat

open IdTree

section
variable {f : Nat → Element} {t : IdTree} {s : Seat} {new : Nat → Option (List Tree)}

/-- What is filled in below a node is filled in there. -/
theorem On.fill_plug (hnodup : t.ids.Nodup) (h : On t s)
    (hnew : ∀ id, new id ≠ none → id ∈ idsAll s.node.children) :
    t.fill f new = Place.plug (s.place f).trail (s.node.fill f new) := by
  induction h with
  | root => rfl
  | @child trail u i c hu hc ih =>
    have hmem : c ∈ u.children := List.mem_of_getElem? hc
    have hids := nodup_below (nodup_of_node hnodup hu.mem_nodes)
    have hroot : new c.root = none := by
      by_contra hne
      exact root_not_mem_below (nodup_of_node hnodup (child_mem_nodes hu.mem_nodes hmem)) (hnew _ hne)
    have hinside : ∀ id, new id ≠ none → id ∈ idsAll u.children := fun id hne =>
      mem_idsAll.mpr ⟨c, hmem, mem_ids_of_below (hnew id hne)⟩
    obtain ⟨before, after, hsplit, rfl⟩ := exists_eq_append hc
    have hset : (u.children.map (toTree f)).set before.length (c.fill f new) =
        before.map (toTree f) ++ c.fill f new :: after.map (toTree f) := by
      have hlength : (before.map (toTree f)).length = before.length := List.length_map _
      rw [hsplit, List.map_append, List.map_cons, ← hlength]
      simp
    rw [hsplit] at hids
    rw [ih hinside, fill_eq u, hsplit, fillAll_around hids fun id hne => mem_ids_of_below (hnew id hne), hroot,
      Option.getD_none, List.singleton_append, ← hset]
    simp [place, Place.plug, Tree.withChildren]

/-- To fill in trees in one place is to replace what stands there. -/
theorem On.replace?_fill (hnodup : t.ids.Nodup) (h : On t s) (hroot : s.trail ≠ [])
    (hnew : ∀ id, new id ≠ none → id = s.id) {us : List Tree} (hus : new s.id = some us) :
    (s.place f).replace? us = some (t.fill f new) := by
  cases h with
  | root => exact absurd rfl hroot
  | @child trail u i c hu hc =>
    have hmem : c ∈ u.children := List.mem_of_getElem? hc
    have hids := nodup_below (nodup_of_node hnodup hu.mem_nodes)
    have honly : ∀ id, new id ≠ none → id = c.root := hnew
    have hhere : new c.root = some us := hus
    have hplug := hu.fill_plug (f := f) hnodup fun id hne =>
      mem_idsAll.mpr ⟨c, hmem, honly id hne ▸ root_mem_ids c⟩
    obtain ⟨before, after, hsplit, rfl⟩ := exists_eq_append hc
    have hlength : (before.map (toTree f)).length = before.length := List.length_map _
    rw [hsplit] at hids
    rw [hplug, fill_eq u, hsplit, fillAll_around hids fun id hne => honly id hne ▸ root_mem_ids c, hhere,
      Option.getD_some]
    simp only [place, List.map_cons, Place.replace?, children_toTree, hsplit, List.map_append]
    generalize before.map (toTree f) = looks at hlength ⊢
    rw [← hlength]
    simp [Tree.withChildren]

end
end Seat
end Unscramble
