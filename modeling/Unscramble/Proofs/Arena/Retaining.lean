import Unscramble.Proofs.Arena.Plans

/-! Plans that leave a node with some of its children. The others are dropped with all that stands below them. -/
namespace Unscramble

open IdTree

namespace IdTree

/-- Puts nothing in the places of some nodes. -/
def dropping (drop : Nat → Bool) (id : Nat) : Option (List IdTree) := if drop id then some [] else none

section
variable {drop : Nat → Bool} {f : Nat → Element} {b : Arena} {t : IdTree}

theorem roots_dropped (drop : Nat → Bool) (ts : List IdTree) :
    (substituteAll (dropping drop) ts).map root = (ts.map root).filter (!drop ·) := by
  induction ts with
  | nil => rfl
  | cons t ts ih =>
    rw [substituteAll, List.map_append, ih, List.map_cons, List.filter_cons, dropping]
    cases drop t.root <;> simp [root_substitute]

mutual

theorem ids_dropped (drop : Nat → Bool) : (t : IdTree) → (t.substitute (dropping drop)).ids.Sublist t.ids
  | .node id below => by
    rw [substitute, ids_node, ids_node]
    exact (idsAll_dropped drop below).cons_cons _

theorem idsAll_dropped (drop : Nat → Bool) : (ts : List IdTree) →
    (idsAll (substituteAll (dropping drop) ts)).Sublist (idsAll ts)
  | [] => .slnil
  | t :: ts => by
    rw [substituteAll, idsAll_append, idsAll_cons, dropping]
    refine List.Sublist.append ?_ (idsAll_dropped drop ts)
    cases drop t.root with
    | true => exact List.nil_sublist _
    | false =>
      rw [if_neg Bool.false_ne_true, Option.getD_none, idsAll_singleton]
      exact ids_dropped drop t

end

/-- An arena whose nodes have lost some children holds the tree without these. -/
theorem holds_dropped (h : ∀ s ∈ t.nodes,
    s.root < b.nodes.size ∧ b.children s.root = (s.children.map root).filter (!drop ·)) :
    b.Holds (t.substitute (dropping drop)) := by
  induction t using children_induction with
  | h id below ih =>
    have hid := h _ (mem_nodes_self _)
    intro r hr
    rcases mem_nodes_iff.mp hr with rfl | ⟨c, hc, hr⟩
    · rw [substitute, children_node, roots_dropped]
      exact hid
    · rw [substitute, children_node] at hc
      obtain ⟨v, hv, hc⟩ := mem_substituteAll.mp hc
      cases hdrop : drop v.root with
      | true => simp [dropping, hdrop] at hc
      | false =>
        obtain rfl : c = v.substitute (dropping drop) := by simpa [dropping, hdrop] using hc
        exact ih v hv (fun s hs => h s (mem_nodes_trans (child_mem_nodes (mem_nodes_self _) hv) hs)) r hr

/-- Where none of the nodes below children is dropped, the children that stay look as they are. -/
theorem fillAll_dropped {ts : List IdTree} (h : ∀ t ∈ ts, ∀ id ∈ idsAll t.children, drop id = false) :
    fillAll f (fun id => (dropping drop id).map (toTreeAll f)) ts =
      (ts.filter fun t => !drop t.root).map (toTree f) := by
  induction ts with
  | nil => rfl
  | cons t ts ih =>
    obtain ⟨ht, hts⟩ := List.forall_mem_cons.mp h
    rw [fillAll, ih hts, List.filter_cons, dropping]
    cases drop t.root with
    | true => rfl
    | false =>
      have hlook : t.fill f (fun id => (dropping drop id).map (toTreeAll f)) = t.toTree f :=
        fill_of_none fun id hid => by rw [dropping, ht id hid]; rfl
      simp [hlook]

/-- A sublist of a list without repetitions is what is left when the other items are dropped. -/
theorem filter_kept {ts kept : List IdTree} (hkept : kept.Sublist ts) (hnodup : (ts.map root).Nodup) :
    (ts.filter fun t => !(!(kept.map root).contains t.root)) = kept := by
  induction hkept with
  | slnil => rfl
  | @cons kept ts t hsub ih =>
    rw [List.map_cons, List.nodup_cons] at hnodup
    have hnot : (kept.map root).contains t.root = false := by
      simpa using fun s hs => ne_of_mem_of_not_mem (List.mem_map_of_mem (hsub.subset hs)) hnodup.1
    rw [List.filter_cons, hnot]
    exact ih hnodup.2
  | @cons_cons kept ts t hsub ih =>
    rw [List.map_cons, List.nodup_cons] at hnodup
    have hhere : ((t :: kept).map root).contains t.root = true := by simp
    rw [List.filter_cons, hhere]
    refine congrArg (t :: ·) (Eq.trans (List.filter_congr fun s hs => ?_) (ih hnodup.2))
    have hne : s.root ≠ t.root := ne_of_mem_of_not_mem (List.mem_map_of_mem hs) hnodup.1
    simp [hne]

end
end IdTree

namespace Arena

section
variable {a : Arena} {t : IdTree} {s : Seat} {kept : List IdTree}

/-- Whether a node is a child that is not kept. -/
def isDropped (s : IdTree) (kept : List IdTree) (id : Nat) : Bool :=
  (s.children.map IdTree.root).contains id && !(kept.map IdTree.root).contains id

theorem Shape.isDropped_below (h : a.Shape t) (hs : s.On t) {c : IdTree} (hc : c ∈ s.node.children) {id : Nat}
    (hid : id ∈ idsAll c.children) : isDropped s.node kept id = false := by
  have hnode := child_mem_nodes hs.mem_nodes hc
  have hne : id ≠ c.root := fun heq => root_not_mem_below (nodup_of_node h.nodup hnode) (heq ▸ hid)
  have hparent := (h.holds.node hnode).perm_ids.subset (mem_ids_of_below hid)
  obtain ⟨p, hp, hchild⟩ := List.mem_flatMap.mp ((List.mem_cons.mp hparent).resolve_left hne)
  have hnot : id ∉ s.node.children.map IdTree.root := by
    intro hmem
    rw [← (h.holds _ hs.mem_nodes).2] at hmem
    have heq := h.parent_unique (mem_ids_of_node hnode hp) (List.mem_map_of_mem hs.mem_nodes) hchild hmem
    exact root_not_mem_below (nodup_of_node h.nodup hs.mem_nodes) (mem_idsAll.mpr ⟨c, hc, heq ▸ hp⟩)
  rw [isDropped, Bool.and_eq_false_iff]
  exact .inl (by simpa using hnot)

theorem Shape.filter_children (h : a.Shape t) (hs : s.On t) (hkept : kept.Sublist s.node.children) :
    (s.node.children.filter fun c => !isDropped s.node kept c.root) = kept := by
  have hnodup := h.children_nodup (List.mem_map_of_mem hs.mem_nodes)
  rw [(h.holds _ hs.mem_nodes).2] at hnodup
  refine Eq.trans (List.filter_congr fun c hc => ?_) (filter_kept hkept hnodup)
  have hmem : (s.node.children.map IdTree.root).contains c.root = true := by
    simpa using ⟨c, hc, rfl⟩
  rw [isDropped, hmem, Bool.true_and]

/-- Which children the nodes of the tree have when one of them has lost some. -/
theorem Shape.children_retained (h : a.Shape t) (hs : s.On t) (hkept : kept.Sublist s.node.children) :
    ∀ r ∈ t.nodes, r.root < (a.setChildren s.id (kept.map IdTree.root)).nodes.size ∧
      (a.setChildren s.id (kept.map IdTree.root)).children r.root =
        (r.children.map IdTree.root).filter (!isDropped s.node kept ·) := by
  intro r hr
  have hsize := h.holds r hr
  refine ⟨hsize.1.trans_le (size_modifyChildren a _ _).ge, ?_⟩
  have hid : s.id < a.nodes.size := (h.holds _ hs.mem_nodes).1
  rw [setChildren, children_modifyChildren a hid]
  split
  next heq =>
    obtain rfl := (h.holds.node hr).eq_of_root (h.holds.node hs.mem_nodes) heq
    rw [List.filter_map]
    exact congrArg (List.map IdTree.root) (h.filter_children hs hkept).symm
  next hne =>
    rw [hsize.2]
    refine (List.filter_eq_self.mpr fun id hid => ?_).symm
    have hnot : id ∉ s.node.children.map IdTree.root := by
      intro hmem
      rw [← (h.holds _ hs.mem_nodes).2] at hmem
      rw [← hsize.2] at hid
      exact hne (h.parent_unique (List.mem_map_of_mem hr) (List.mem_map_of_mem hs.mem_nodes) hid hmem)
    rw [isDropped, show (s.node.children.map IdTree.root).contains id = false by simpa using hnot]
    rfl

/-- A node that is left with some of its children. -/
theorem Shape.retain_does (h : a.Shape t) (hs : s.On t) (hkept : kept.Sublist s.node.children) :
    (Plan.retain s.id kept).Does a (some ((s.place a.element).update
      ((s.node.toTree a.element).withChildren (kept.map (IdTree.toTree a.element))))) := by
  have hholds := holds_dropped (h.children_retained hs hkept)
  have hshape : (a.setChildren s.id (kept.map IdTree.root)).Shape (t.substitute (dropping (isDropped s.node kept))) :=
    ⟨hholds, (root_substitute _ t).trans h.root, h.nodup.sublist (ids_dropped _ t)⟩
  refine ⟨rfl, hshape.toTree_eq.trans ?_, _, hshape⟩
  have helement : (a.setChildren s.id (kept.map IdTree.root)).element = a.element :=
    funext fun x => element_modifyChildren a s.id x _
  rw [helement, toTree_substitute _ t fun _ _ => rfl, hs.fill_plug h.nodup, fill_eq,
    fillAll_dropped fun c hc id hid => h.isDropped_below hs hc hid, h.filter_children hs hkept]
  · rw [Option.getD_some, Place.update, Tree.withChildren, element_toTree]
  · intro id hne
    have hdropped : isDropped s.node kept id = true := by
      by_contra hkeep
      exact hne (by rw [dropping, if_neg hkeep]; rfl)
    rw [isDropped, Bool.and_eq_true, List.contains_iff_mem] at hdropped
    obtain ⟨c, hc, rfl⟩ := List.mem_map.mp hdropped.1
    exact mem_idsAll.mpr ⟨c, hc, root_mem_ids c⟩

end
end Arena
end Unscramble
