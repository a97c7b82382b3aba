import Unscramble.Arena.Rule
import Unscramble.Proofs.Arena.Replacing

/-! Plans and the trees that they lead to. A rule says what becomes of a tree, a plan what is done to the nodes of
an arena. The plan does what the rule says if the arena stands for the new tree afterwards, and if it is told to have
changed exactly when there is a new tree. -/
namespace Unscramble

open IdTree Arena

/-- A plan for an arena that does what a rule says, and leaves the nodes in the form of a tree. -/
structure Plan.Does (plan : Plan) (a : Arena) (new : Option Tree) : Prop where
  changed : (plan.carryOut a).2 = new.isSome
  toTree : (plan.carryOut a).1.toTree = new.getD a.toTree
  shape : ∃ t, (plan.carryOut a).1.Shape t

namespace Arena

open Sketch

section
variable {a : Arena} {t : IdTree} {depth : Nat}

theorem Holds.layoutFrom_eq (h : a.Holds t) (hdepth : t.ids.toFinset.card ≤ depth + 1) :
    a.layoutFrom depth t.root = t := by
  induction t using children_induction generalizing depth with
  | h id below ih =>
    cases depth with
    | zero => rw [layoutFrom, h.below_eq_nil hdepth, root_node]
    | succ depth =>
      have hroot : a.children id = below.map IdTree.root := (h _ (mem_nodes_self _)).2
      rw [layoutFrom, root_node, hroot, List.map_map]
      refine congrArg (IdTree.node id) ((List.map_congr_left fun s hs => ?_).trans (List.map_id _))
      have hcard := h.card_child hs
      exact ih s hs (h.child hs) (by omega)

/-- The positions that are read off an arena whose nodes form a tree. -/
theorem Shape.layout_eq (h : a.Shape t) : a.layout = t := by
  rw [layout, ← h.root]
  exact h.holds.layoutFrom_eq (h.holds.card_le.trans (Nat.le_succ _))

theorem Shape.toTree_eq (h : a.Shape t) : a.toTree = t.toTree a.element := h.holds.toTree_eq h.root

end
end Arena

/-! ### Seats below the root -/

namespace Seat

variable {t : IdTree} {s : Seat}

theorem On.mem_below (h : On t s) (hroot : s.trail ≠ []) : s.node ∈ nodesAll t.children := by
  induction h with
  | root => exact absurd rfl hroot
  | @child trail u i c hu hc ih =>
    have hmem : c ∈ u.children := List.mem_of_getElem? hc
    cases trail with
    | nil =>
      cases hu
      exact mem_nodesAll.mpr ⟨c, hmem, mem_nodes_self c⟩
    | cons step trail =>
      obtain ⟨v, hv, hnode⟩ := mem_nodesAll.mp (ih (List.cons_ne_nil _ _))
      exact mem_nodesAll.mpr ⟨v, hv, child_mem_nodes hnode hmem⟩

theorem On.id_ne_root (hnodup : t.ids.Nodup) (h : On t s) (hroot : s.trail ≠ []) : s.id ≠ t.root := fun heq =>
  root_not_mem_below hnodup (heq ▸ List.mem_map_of_mem (h.mem_below hroot))

end Seat

namespace IdTree

/-- What is kept of what stands below a node: parts of it that have no node in common. -/
def Owns (t : IdTree) (ss : List Sketch) : Prop := (nodesAll (Sketch.keepsAll ss)).Subperm (nodesAll t.children)

section
variable {s t : IdTree} {ss : List Sketch}

theorem nodes_sublist (hs : s ∈ t.nodes) : s.nodes.Sublist t.nodes := by
  induction t using children_induction with
  | h id below ih =>
    rcases mem_nodes_iff.mp hs with rfl | ⟨c, hc, hs⟩
    · exact .refl _
    · rw [IdTree.nodes]
      refine ((ih c hc hs).trans ?_).cons _
      obtain ⟨before, after, rfl⟩ := List.append_of_mem hc
      rw [nodesAll_append, nodesAll]
      exact (List.sublist_append_left _ _).trans (List.sublist_append_right _ _)

theorem Owns.below (h : t.Owns ss) {u : IdTree} (hu : u ∈ Sketch.keepsAll ss) : u ∈ nodesAll t.children :=
  h.subset (mem_nodesAll.mpr ⟨u, hu, mem_nodes_self u⟩)

theorem Owns.nodup (h : t.Owns ss) (hnodup : t.ids.Nodup) : (idsAll (Sketch.keepsAll ss)).Nodup := by
  obtain ⟨l, hperm, hsub⟩ := h
  exact (hperm.map root).nodup_iff.mp ((nodup_below hnodup).sublist (hsub.map root))

theorem owns_nil (t : IdTree) : t.Owns [] := List.nil_subperm

theorem owns_ofTrees (t : IdTree) (ts : List Tree) : t.Owns (Sketch.ofTrees ts) := by
  rw [Owns, Sketch.keepsAll_ofTrees]
  exact List.nil_subperm

/-- Statements that stand below a node one after the other. -/
theorem owns_kept {ts : List IdTree} (h : (nodesAll ts).Sublist (nodesAll t.children)) : t.Owns (ts.map .kept) := by
  rw [Owns, Sketch.keepsAll_kept]
  exact h.subperm

theorem owns_one (h : s ∈ nodesAll t.children) : t.Owns [.kept s] := by
  obtain ⟨c, hc, hs⟩ := mem_nodesAll.mp h
  obtain ⟨before, after, hsplit⟩ := List.append_of_mem hc
  refine @owns_kept t [s] ?_
  rw [hsplit, nodesAll_append, nodesAll, nodesAll, nodesAll, List.append_nil]
  exact (nodes_sublist hs).trans ((List.sublist_append_left _ _).trans (List.sublist_append_right _ _))

end
end IdTree

/-- A search for what another one finds, in another form. -/
theorem findSome?_eq_map {α β γ : Type} {l : List α} {f : α → Option β} {g : α → Option γ} {k : β → γ}
    (h : ∀ x ∈ l, g x = (f x).map k) : l.findSome? g = (l.findSome? f).map k := by
  induction l with
  | nil => rfl
  | cons x l ih =>
    obtain ⟨hx, hl⟩ := List.forall_mem_cons.mp h
    rw [List.findSome?_cons, List.findSome?_cons, hx, ih hl]
    cases f x <;> rfl

namespace Arena

open Sketch

section
variable {a : Arena} {t : IdTree}

theorem Shape.sound_one (h : a.Shape t) {s : Seat} (hs : s.On t) {ss : List Sketch} (howns : s.node.Owns ss) :
    Sound t [(s.id, ss)] where
  below := List.forall_mem_singleton.mpr ⟨s.node, hs.mem_nodes, rfl, fun _ => howns.below⟩
  nodup := by
    rw [List.flatMap_singleton]
    exact howns.nodup (nodup_of_node h.nodup hs.mem_nodes)

theorem sound_nil (t : IdTree) : Sound t [] := ⟨by simp, .nil⟩

/-- Nothing is done where there is nothing to replace. -/
theorem Shape.does_nothing (h : a.Shape t) {changes : Nat → Bool} (hchanges : changes 0 = false) :
    (Plan.replace [] changes).Does a none := by
  obtain ⟨hchanged, htree, hshape⟩ := replace_carryOut h (sound_nil t) changes
  refine ⟨hchanged.trans hchanges, htree.trans ?_, hshape⟩
  rw [Option.getD_none, h.toTree_eq]
  exact fill_none a.element t

/-- What becomes of the tree where one node is replaced. -/
theorem Shape.does_one (h : a.Shape t) {s : Seat} (hs : s.On t) {ss : List Sketch} (howns : s.node.Owns ss) :
    (Plan.replace [(s.id, ss)] (· == 1)).Does a ((s.place a.element).replace? (trees a.element ss)) := by
  obtain ⟨hchanged, htree, hshape⟩ := replace_carryOut h (h.sound_one hs howns) (· == 1)
  by_cases hroot : s.trail = []
  · have hnone : (s.place a.element).replace? (trees a.element ss) = none := by
      rw [Place.replace?, Seat.place, hroot]
      rfl
    have hid : s.id = t.root := by
      cases hs with
      | root => rfl
      | child => cases hroot
    have htaken : t.taken [(s.id, ss)] = [] := by simp [taken, takenFrom, hid]
    rw [htaken] at hchanged htree
    rw [hnone]
    refine ⟨hchanged, htree.trans ?_, hshape⟩
    rw [Option.getD_none, h.toTree_eq]
    exact fill_none a.element t
  · have htaken : t.taken [(s.id, ss)] = [(s.id, ss)] := by
      simp [taken, takenFrom, hs.id_ne_root h.nodup hroot]
    rw [htaken] at hchanged htree
    have hlookup (id : Nat) : (lookup [(s.id, ss)] id).map (trees a.element) =
        if id = s.id then some (trees a.element ss) else none := by
      split
      next hid => simp [lookup, hid]
      next hid => simp [lookup, Ne.symm hid]
    have hreplace : (s.place a.element).replace? (trees a.element ss) =
        some (t.fill a.element fun id => (lookup [(s.id, ss)] id).map (trees a.element)) := by
      refine hs.replace?_fill h.nodup hroot (fun id hne => ?_) ((hlookup s.id).trans (if_pos rfl))
      rw [hlookup] at hne
      by_contra hid
      exact hne (if_neg hid)
    rw [hreplace]
    exact ⟨hchanged, htree, hshape⟩

/-- The first seat where there is something to replace is the first place where there is. -/
theorem Shape.replacingFirst_does (h : a.Shape t) {f : Seat → Option (List Sketch)}
    {g : Place → Option (List Tree)} (hlooks : ∀ s, s.On t → (f s).map (trees a.element) = g (s.place a.element))
    (howns : ∀ s, s.On t → ∀ ss ∈ f s, s.node.Owns ss) :
    (a.replacingFirst f).Does a (a.toTree.replaceFirst? g) := by
  let found := t.seats.findSome? fun s => (f s).map (s, ·)
  have hplan : (t.seats.findSome? fun s => (f s).map (s.id, ·)) = found.map fun (s, ss) => (s.id, ss) :=
    findSome?_eq_map fun s _ => by rw [Option.map_map]; rfl
  have hplaces : ((t.toTree a.element).places.findSome? fun p => (g p).map (p, ·)) =
      found.map fun (s, ss) => (s.place a.element, trees a.element ss) := by
    rw [← Seat.map_place_seats, List.findSome?_map]
    refine findSome?_eq_map fun s hs => ?_
    rw [Function.comp_apply, ← hlooks s (Seat.on_of_mem hs), Option.map_map, Option.map_map]
    rfl
  rw [replacingFirst, h.layout_eq, hplan, Tree.replaceFirst?, h.toTree_eq, hplaces]
  cases hfound : found with
  | none => exact h.does_nothing rfl
  | some pair =>
    obtain ⟨s, hs, hpair⟩ := List.exists_of_findSome?_eq_some hfound
    obtain ⟨ss, hss, rfl⟩ := Option.map_eq_some_iff.mp hpair
    exact h.does_one (Seat.on_of_mem hs) (howns s (Seat.on_of_mem hs) ss hss)

end
end Arena
end Unscramble
