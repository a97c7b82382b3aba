import Unscramble.Proofs.Arena.Generation
import Unscramble.Proofs.Arena.Outermost

/-! Plans that change nodes one by one: new spellings, and nodes that get one more child. -/
namespace Unscramble

open IdTree

namespace Arena

section
variable {a : Arena} {t : IdTree}

theorem element_modifyElement (a : Arena) {id : Nat} (hid : id < a.nodes.size) (g : Element → Element) (x : Nat) :
    (a.modifyElement id g).element x = if x = id then g (a.element x) else a.element x := by
  unfold element
  rw [modifyElement, node?_modifyNode]
  split
  next hx =>
    have hsome : a.node? x = some a.nodes[id] := by rw [hx, node?, Array.getElem?_eq_getElem hid]
    simp [hsome]
  next => rfl

/-- Patches give their elements to the nodes that they are for, and change nothing else. -/
theorem foldl_patches (patches : List (Nat × Element)) (hnodup : (patches.map Prod.fst).Nodup)
    (hlt : ∀ p ∈ patches, p.1 < a.nodes.size) :
    let b := patches.foldl (fun a (id, element) => a.modifyElement id fun _ => element) a
    a.Extends b ∧ ∀ x, b.element x = (lookup patches x).getD (a.element x) := by
  induction patches generalizing a with
  | nil => exact ⟨.refl a, fun _ => rfl⟩
  | cons p patches ih =>
    rw [List.map_cons, List.nodup_cons] at hnodup
    obtain ⟨hp, hlt⟩ := List.forall_mem_cons.mp hlt
    have hstep := extends_modifyElement a p.1 fun _ => p.2
    obtain ⟨hextends, helement⟩ := @ih (a.modifyElement p.1 fun _ => p.2) hnodup.2 fun q hq =>
      (hlt q hq).trans_le hstep.size
    refine ⟨hstep.trans hextends, fun x => (helement x).trans ?_⟩
    rw [element_modifyElement a hp]
    split
    next hx =>
      subst hx
      rw [lookup_eq_none hnodup.1, lookup_cons, if_pos rfl]
      rfl
    next hx => rw [lookup_cons, if_neg (Ne.symm hx)]

end
end Arena

/-! ### New spellings -/

namespace IdTree

/-- The new spelling of the node in a seat. -/
def spelling? (f : Nat → Element) (g : Tree.Respelling) (s : Seat) : Option Element :=
  g (s.place f).trail.head? (s.place f).tree

section
variable {f f' : Nat → Element} {g : Tree.Respelling}

theorem respelled_or_below (e : Element) (here : Option Element) (below : Option (List Tree)) (us : List Tree) :
    let both := if here.isSome || below.isSome then some (Tree.node (here.getD e) (below.getD us)) else none
    Tree.node (here.getD e) (below.getD us) = both.getD (.node e us) ∧
      both.isSome = (here.isSome || below.isSome) := by
  cases here <;> cases below <;> simp

theorem respelled_or_rest (here : Option Tree) (rest : Option (List Tree)) (u : Tree) (us : List Tree) :
    let both := if here.isSome || rest.isSome then some (here.getD u :: rest.getD us) else none
    here.getD u :: rest.getD us = both.getD (u :: us) ∧ both.isSome = (here.isSome || rest.isSome) := by
  cases here <;> cases rest <;> simp

mutual

/-- A tree whose nodes have got their new spellings looks respelled. -/
theorem toTree_respelled (trail : List (IdTree × Nat)) : (u : IdTree) →
    (∀ s ∈ u.seatsFrom trail, f' s.id = (spelling? f g s).getD (f s.id)) →
    u.toTree f' = ((u.toTree f).respellFrom? g (Seat.place f ⟨trail, u⟩).trail.head?).getD (u.toTree f) ∧
      ((u.toTree f).respellFrom? g (Seat.place f ⟨trail, u⟩).trail.head?).isSome =
        (u.seatsFrom trail).any fun s => (spelling? f g s).isSome
  | .node id below, h => by
    rw [seatsFrom, List.forall_mem_cons] at h
    obtain ⟨hbelow, hany⟩ := toTreeAll_respelled trail (.node id below) 0 below h.2
    have hhere : f' id = (spelling? f g ⟨trail, .node id below⟩).getD (f id) := h.1
    rw [toTree, hhere, hbelow, seatsFrom, List.any_cons, ← hany]
    exact respelled_or_below (f id) (spelling? f g ⟨trail, .node id below⟩) _ _

theorem toTreeAll_respelled (trail : List (IdTree × Nat)) (above : IdTree) (i : Nat) : (us : List IdTree) →
    (∀ s ∈ seatsBelow trail above i us, f' s.id = (spelling? f g s).getD (f s.id)) →
    toTreeAll f' us = (Tree.respellAll? g (above.toTree f) i (toTreeAll f us)).getD (toTreeAll f us) ∧
      (Tree.respellAll? g (above.toTree f) i (toTreeAll f us)).isSome =
        (seatsBelow trail above i us).any fun s => (spelling? f g s).isSome
  | [], _ => ⟨rfl, rfl⟩
  | u :: us, h => by
    rw [seatsBelow, List.forall_mem_append] at h
    obtain ⟨hu, huany⟩ := toTree_respelled ((above, i) :: trail) u h.1
    obtain ⟨hus, husany⟩ := toTreeAll_respelled trail above (i + 1) us h.2
    rw [toTreeAll, hu, hus, seatsBelow, List.any_append, ← huany, ← husany]
    exact respelled_or_rest _ _ _ _

end

end
end IdTree

namespace Arena

variable {a : Arena} {t : IdTree}

theorem map_id_seats (t : IdTree) : t.seats.map Seat.id = t.ids := by
  rw [ids, ← Seat.map_node_seats, List.map_map]
  rfl

/-- What is gathered seat by seat is for nodes that differ. -/
theorem map_fst_gathered {β : Type} (m : Seat → Option β) (seats : List Seat) :
    ((seats.filterMap fun s => (m s).map (s.id, ·)).map Prod.fst).Sublist (seats.map Seat.id) := by
  induction seats with
  | nil => exact .slnil
  | cons s seats ih =>
    rw [List.filterMap_cons, List.map_cons]
    cases m s with
    | none => exact ih.cons _
    | some new => exact ih.cons_cons _

theorem not_isEmpty_gathered {β : Type} (m : Seat → Option β) (seats : List Seat) :
    (!(seats.filterMap fun s => (m s).map (s.id, ·)).isEmpty) = seats.any fun s => (m s).isSome := by
  induction seats with
  | nil => rfl
  | cons s seats ih =>
    rw [List.filterMap_cons, List.any_cons, ← ih]
    cases m s <;> simp

/-- What is gathered for the node of a seat. -/
theorem Shape.lookup_gathered (h : a.Shape t) {β : Type} (m : Seat → Option β) {s : Seat} (hs : s ∈ t.seats) :
    lookup (t.seats.filterMap fun s => (m s).map (s.id, ·)) s.id = m s := by
  have hids : (t.seats.map Seat.id).Nodup := map_id_seats t ▸ h.nodup
  have hnodup := hids.sublist (map_fst_gathered m t.seats)
  cases hm : m s with
  | some new => exact lookup_eq_some hnodup (List.mem_filterMap.mpr ⟨s, hs, by rw [hm]; rfl⟩)
  | none =>
    by_contra hne
    obtain ⟨new, hnew⟩ := Option.ne_none_iff_exists'.mp hne
    obtain ⟨r, hr, hmatch⟩ := List.mem_filterMap.mp (mem_of_lookup hnew)
    obtain ⟨new', hnew', heq⟩ := Option.map_eq_some_iff.mp hmatch
    obtain rfl : r = s := List.inj_on_of_nodup_map hids hr hs (congrArg Prod.fst heq)
    rw [hm] at hnew'
    cases hnew'

/-- Every node that has a new spelling gets it. -/
theorem Shape.respelling_does (h : a.Shape t) (g : Tree.Respelling) :
    (respelling g a).Does a (a.toTree.respell? g) := by
  let patches := t.seats.filterMap fun s => (spelling? a.element g s).map (s.id, ·)
  have hids : (patches.map Prod.fst).Sublist t.ids := map_id_seats t ▸ map_fst_gathered _ t.seats
  obtain ⟨hextends, helement⟩ := foldl_patches (a := a) patches (h.nodup.sublist hids) fun p hp =>
    h.holds.lt_size (hids.subset (List.mem_map_of_mem hp))
  have hshape := hextends.shape h
  obtain ⟨htree, hany⟩ := @toTree_respelled a.element
    (patches.foldl (fun a (id, element) => a.modifyElement id fun _ => element) a).element g [] t
    fun s hs => (helement s.id).trans (by rw [h.lookup_gathered _ hs])
  have hplan : respelling g a = .respell patches := by
    rw [respelling, h.layout_eq]
    rfl
  rw [hplan]
  refine ⟨?_, ?_, t, hshape⟩
  · rw [h.toTree_eq]
    refine Eq.trans ?_ hany.symm
    exact not_isEmpty_gathered _ _
  · refine hshape.toTree_eq.trans (htree.trans ?_)
    rw [h.toTree_eq]
    rfl

/-- Long names that are replaced in an arena. The same replacements are chosen as for the tree. -/
theorem Shape.renameLongNames_does (h : a.Shape t) (threshold : Nat) (memory : Simplify.Memory) :
    (a.renameLongNames threshold memory).1.Does a (Simplify.renameLongNames threshold memory a.toTree).1 ∧
      (a.renameLongNames threshold memory).2 = (Simplify.renameLongNames threshold memory a.toTree).2 :=
  ⟨h.respelling_does fun _ s =>
    Simplify.renamedElement? threshold (Simplify.renameLongNames threshold memory a.toTree).2 s.element, rfl⟩

end Arena
end Unscramble
