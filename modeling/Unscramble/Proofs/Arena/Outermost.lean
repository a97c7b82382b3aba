import Unscramble.Proofs.Arena.Plans

/-! Replacing every node that has a replacement. The nodes are met in pre-order, so a node above others is edited
before them, and theirs are the edits that are skipped. -/
namespace Unscramble

open IdTree

namespace IdTree

section
variable {β : Type} (m : IdTree → Option β)

/-- The replacements of the nodes of some trees, in pre-order. -/
def matchesIn (ts : List IdTree) : List (Nat × β) := (nodesAll ts).filterMap fun t => (m t).map (t.root, ·)

mutual

/-- The replacements of the outermost nodes below the root that have one. -/
def outermost : IdTree → List (Nat × β)
  | .node _ below => outermostAll below

def outermostAll : List IdTree → List (Nat × β)
  | [] => []
  | t :: ts =>
    (match m t with
      | some new => [(t.root, new)]
      | none => outermost t) ++ outermostAll ts

end

variable {m} {a : Arena} {t : IdTree}

theorem matchesIn_cons (u : IdTree) (us : List IdTree) :
    matchesIn m (u :: us) = ((m u).map (u.root, ·)).toList ++ matchesIn m u.children ++ matchesIn m us := by
  rw [matchesIn, nodesAll, nodes_eq, List.filterMap_append, List.filterMap_cons]
  cases m u <;> rfl

/-- No two nodes overlap that stand in trees without a node in common. -/
theorem not_overlap (hshape : a.Shape t) {u v : IdTree} (hu : u ∈ t.nodes) (hv : v ∈ t.nodes)
    (hapart : ∀ x ∈ u.ids, x ∉ v.ids) {x y : Nat} (hx : x ∈ u.ids) (hy : y ∈ v.ids) : ¬t.Overlap x y := by
  rintro (hup | hup)
  · exact hapart y (hshape.mem_of_up hu hx hup) hy
  · exact hapart x hx (hshape.mem_of_up hv hy hup)

/-- No node of one tree overlaps with a node of a tree that stands beside it. -/
theorem not_overlap_beside (hshape : a.Shape t) {u : IdTree} {us : List IdTree} (hu : u ∈ t.nodes)
    (hus : ∀ v ∈ us, v ∈ t.nodes) (hapart : ∀ x ∈ u.ids, ∀ y ∈ idsAll us, x ≠ y) {x y : Nat} (hx : x ∈ idsAll us)
    (hy : y ∈ u.ids) : ¬t.Overlap x y := by
  obtain ⟨v, hv, hx⟩ := mem_idsAll.mp hx
  refine not_overlap hshape (hus v hv) hu (fun z hz hzu => ?_) hx hy
  exact hapart z hzu z (mem_idsAll.mpr ⟨v, hv, hz⟩) rfl

theorem root_not_below (hshape : a.Shape t) {u : IdTree} (hu : u ∈ t.nodes) : t.root ∉ idsAll u.children := by
  intro hroot
  have hup := (hshape.mem_up_iff hu).mpr (mem_ids_of_below hroot)
  rw [up_root, List.mem_singleton] at hup
  obtain rfl := (hshape.holds.node hu).eq_of_root hshape.holds hup
  exact root_not_mem_below hshape.nodup hroot

/-- Where all nodes overlap with one that has been replaced, no replacement is carried out. -/
theorem takenFrom_skips {before : List Nat} {rs rest : List (Nat × β)}
    (h : ∀ r ∈ rs, ∃ other ∈ before, t.Overlap r.1 other) :
    t.takenFrom before (rs ++ rest) = t.takenFrom before rest := by
  induction rs with
  | nil => rfl
  | cons r rs ih =>
    obtain ⟨hr, hrs⟩ := List.forall_mem_cons.mp h
    rw [List.cons_append, takenFrom, if_pos (.inr hr)]
    exact ih hrs

theorem fst_mem_of_matchesIn {us : List IdTree} {r : Nat × β} (h : r ∈ matchesIn m us) : r.1 ∈ idsAll us := by
  obtain ⟨u, hu, hr⟩ := List.mem_filterMap.mp h
  obtain ⟨new, -, rfl⟩ := Option.map_eq_some_iff.mp hr
  exact List.mem_map_of_mem hu

mutual

theorem outermost_subset : (u : IdTree) → ∀ r ∈ outermost m u, r ∈ matchesIn m u.children
  | .node _ below => outermostAll_subset below

theorem outermostAll_subset : (us : List IdTree) → ∀ r ∈ outermostAll m us, r ∈ matchesIn m us
  | [] => by simp [outermostAll]
  | u :: us => by
    intro r hr
    rw [outermostAll, List.mem_append] at hr
    rw [matchesIn_cons, List.mem_append, List.mem_append]
    rcases hr with hr | hr
    · cases hm : m u with
      | none =>
        rw [hm] at hr
        exact .inl (.inr (outermost_subset u r hr))
      | some new =>
        rw [hm] at hr
        exact .inl (.inl (by simpa using hr))
    · exact .inr (outermostAll_subset us r hr)

end

mutual

theorem takenFrom_matches (hshape : a.Shape t) (before : List Nat) (rest : List (Nat × β)) : (u : IdTree) →
    u ∈ t.nodes → (∀ x ∈ idsAll u.children, ∀ y ∈ before, ¬t.Overlap x y) →
    t.takenFrom before (matchesIn m u.children ++ rest) =
      outermost m u ++ t.takenFrom (((outermost m u).map Prod.fst).reverse ++ before) rest
  | .node _ below, hu, hfree =>
    takenFrom_matchesAll hshape before rest below (fun _ hv => child_mem_nodes hu hv)
      (nodup_below (nodup_of_node hshape.nodup hu)) (root_not_below hshape hu) hfree

/-- Of the replacements in trees that stand side by side the outermost are carried out. -/
theorem takenFrom_matchesAll (hshape : a.Shape t) (before : List Nat) (rest : List (Nat × β)) :
    (us : List IdTree) → (∀ u ∈ us, u ∈ t.nodes) → (idsAll us).Nodup → t.root ∉ idsAll us →
    (∀ x ∈ idsAll us, ∀ y ∈ before, ¬t.Overlap x y) →
    t.takenFrom before (matchesIn m us ++ rest) =
      outermostAll m us ++ t.takenFrom (((outermostAll m us).map Prod.fst).reverse ++ before) rest
  | [], _, _, _, _ => by simp [matchesIn, outermostAll, nodesAll]
  | u :: us, hus, hnodup, hroot, hfree => by
    obtain ⟨hu, hus⟩ := List.forall_mem_cons.mp hus
    rw [idsAll_cons, List.nodup_append] at hnodup
    rw [idsAll_cons, List.mem_append, not_or] at hroot
    rw [idsAll_cons, List.forall_mem_append] at hfree
    have hapart {x y : Nat} (hx : x ∈ idsAll us) (hy : y ∈ u.ids) : ¬t.Overlap x y :=
      not_overlap_beside hshape hu hus hnodup.2.2 hx hy
    rw [matchesIn_cons, List.append_assoc, outermostAll]
    cases hm : m u with
    | some new =>
      have hfree' : ¬(u.root = t.root ∨ ∃ other ∈ before, t.Overlap u.root other) := by
        rintro (heq | ⟨other, hother, hover⟩)
        · exact hroot.1 (heq ▸ root_mem_ids u)
        · exact hfree.1 u.root (root_mem_ids u) other hother hover
      have hskip : ∀ r ∈ matchesIn m u.children, ∃ other ∈ u.root :: before, t.Overlap r.1 other := fun r hr =>
        ⟨u.root, List.mem_cons_self, .inr <|
          (hshape.mem_up_iff hu).mpr (mem_ids_of_below (fst_mem_of_matchesIn hr))⟩
      simp only [Option.map_some, Option.toList_some, List.cons_append, List.nil_append]
      rw [takenFrom, if_neg hfree', takenFrom_skips hskip,
        takenFrom_matchesAll hshape (u.root :: before) rest us hus hnodup.2.1 hroot.2]
      · simp
      · refine fun x hx => List.forall_mem_cons.mpr ⟨hapart hx (root_mem_ids u), hfree.2 x hx⟩
    | none =>
      simp only [Option.map_none, Option.toList_none, List.nil_append]
      rw [List.append_assoc,
        takenFrom_matches hshape before (matchesIn m us ++ rest) u hu fun x hx => hfree.1 x (mem_ids_of_below hx),
        takenFrom_matchesAll hshape _ rest us hus hnodup.2.1 hroot.2]
      · simp
      · intro x hx y hy
        rw [List.mem_append, List.mem_reverse] at hy
        rcases hy with hy | hy
        · obtain ⟨r, hr, rfl⟩ := List.mem_map.mp hy
          exact hapart hx (mem_ids_of_below (fst_mem_of_matchesIn (outermost_subset u r hr)))
        · exact hfree.2 x hx y hy

end

theorem taken_matches (hshape : a.Shape t) : t.taken (matchesIn m [t]) = outermost m t := by
  have hbelow := takenFrom_matches (m := m) hshape [] [] t (mem_nodes_self t) (by simp)
  rw [List.append_nil, takenFrom, List.append_nil] at hbelow
  have hnil : matchesIn m [] = [] := rfl
  rw [taken, matchesIn_cons, hnil, List.append_nil]
  cases m t with
  | none => exact hbelow
  | some new =>
    simp only [Option.map_some, Option.toList_some, List.cons_append, List.nil_append]
    rw [takenFrom, if_pos (.inl rfl)]
    exact hbelow

end

/-! ### What the tree looks like -/

section
variable {f : Nat → Element} {g : Tree → Option (List Tree)} {new : Nat → Option (List Tree)}

theorem replaced_or_rest (here : Option Tree) (rest : Option (List Tree)) (u : Tree) (us : List Tree) :
    let both := if (here.map ([·])).isSome || rest.isSome then
      some ((here.map ([·])).getD [u] ++ rest.getD us) else none
    [here.getD u] ++ rest.getD us = both.getD (u :: us) ∧ both.isSome = (here.isSome || rest.isSome) := by
  cases here <;> cases rest <;> simp

mutual

/-- Where the outermost replacements are filled in, every outermost node that has a replacement is replaced. -/
theorem fill_outermost : (u : IdTree) →
    (∀ r ∈ outermost (fun s => g (s.toTree f)) u, new r.1 = some r.2) →
    (∀ s ∈ nodesAll u.children, g (s.toTree f) = none → new s.root = none) →
    u.fill f new = ((u.toTree f).replaceOutermost? g).getD (u.toTree f) ∧
      (((u.toTree f).replaceOutermost? g).isSome = true ↔ outermost (fun s => g (s.toTree f)) u ≠ [])
  | .node id below, hsome, hnone => by
    obtain ⟨hfill, hempty⟩ := fillAll_outermost below hsome hnone
    rw [fill, hfill, toTree, Tree.replaceOutermost?, Option.isSome_map, hempty, outermost]
    refine ⟨?_, .rfl⟩
    cases Tree.replaceOutermostAll? g (toTreeAll f below) <;> rfl

theorem fillAll_outermost : (us : List IdTree) →
    (∀ r ∈ outermostAll (fun s => g (s.toTree f)) us, new r.1 = some r.2) →
    (∀ s ∈ nodesAll us, g (s.toTree f) = none → new s.root = none) →
    fillAll f new us = (Tree.replaceOutermostAll? g (toTreeAll f us)).getD (toTreeAll f us) ∧
      ((Tree.replaceOutermostAll? g (toTreeAll f us)).isSome = true ↔
        outermostAll (fun s => g (s.toTree f)) us ≠ [])
  | [], _, _ => ⟨rfl, by simp [Tree.replaceOutermostAll?, outermostAll, toTreeAll]⟩
  | u :: us, hsome, hnone => by
    rw [outermostAll, List.forall_mem_append] at hsome
    rw [nodesAll, List.forall_mem_append] at hnone
    obtain ⟨hfill, hempty⟩ := fillAll_outermost us hsome.2 hnone.2
    rw [fillAll, hfill, toTreeAll, Tree.replaceOutermostAll?, outermostAll]
    cases hg : g (u.toTree f) with
    | some ts =>
      simp only [hg, List.forall_mem_singleton] at hsome
      rw [hsome.1]
      simp
    | none =>
      have hroot : new u.root = none := hnone.1 u (mem_nodes_self u) hg
      simp only [hg] at hsome
      have hu := fill_outermost u hsome.1 fun s hs => hnone.1 s <| by
        rw [nodes_eq]
        exact List.mem_cons_of_mem _ hs
      rw [hroot, Option.getD_none, hu.1]
      have hor : ((none : Option (List Tree)) <|> ((u.toTree f).replaceOutermost? g).map ([·])) =
          ((u.toTree f).replaceOutermost? g).map ([·]) := rfl
      have hboth := replaced_or_rest ((u.toTree f).replaceOutermost? g)
        (Tree.replaceOutermostAll? g (toTreeAll f us)) (u.toTree f) (toTreeAll f us)
      rw [hor, ne_eq, List.append_eq_nil_iff, Decidable.not_and_iff_or_not, ← ne_eq, ← ne_eq, ← hu.2, ← hempty,
        ← Bool.or_eq_true, ← hboth.2]
      exact ⟨hboth.1, .rfl⟩

end

end
end IdTree

/-! ### The plan -/

mutual

theorem Seat.map_node_seatsFrom (trail : List (IdTree × Nat)) : (u : IdTree) →
    (u.seatsFrom trail).map Seat.node = u.nodes
  | .node id below => by
    rw [seatsFrom, List.map_cons, Seat.map_node_seatsBelow trail (.node id below) 0 below, nodes_eq]
    rfl

theorem Seat.map_node_seatsBelow (trail : List (IdTree × Nat)) (above : IdTree) (i : Nat) : (us : List IdTree) →
    (seatsBelow trail above i us).map Seat.node = nodesAll us
  | [] => rfl
  | u :: us => by
    rw [seatsBelow, List.map_append, Seat.map_node_seatsFrom ((above, i) :: trail) u,
      Seat.map_node_seatsBelow trail above (i + 1) us, nodesAll]

end

theorem Seat.map_node_seats (t : IdTree) : t.seats.map Seat.node = t.nodes := Seat.map_node_seatsFrom [] t

namespace IdTree

variable {β : Type} {m : IdTree → Option β}

theorem map_fst_matchesIn (m : IdTree → Option β) (us : List IdTree) :
    ((matchesIn m us).map Prod.fst).Sublist (idsAll us) := by
  rw [matchesIn, idsAll]
  induction nodesAll us with
  | nil => exact .slnil
  | cons u us ih =>
    rw [List.filterMap_cons, List.map_cons]
    cases m u with
    | none => exact ih.cons _
    | some new => exact ih.cons_cons _

theorem outermost_nodup {a : Arena} {t : IdTree} (hshape : a.Shape t) : ((outermost m t).map Prod.fst).Nodup := by
  rw [← taken_matches hshape]
  have hids := map_fst_matchesIn m [t]
  rw [idsAll_singleton] at hids
  exact hshape.nodup.sublist (((takenFrom_sublist [] _).map _).trans hids)

theorem lookup_outermost_eq_none {a : Arena} {t s : IdTree} (hshape : a.Shape t) (hs : s ∈ nodesAll t.children)
    (hm : m s = none) : lookup (outermost m t) s.root = none := by
  have hinside {v : IdTree} (hv : v ∈ nodesAll t.children) : v ∈ t.nodes := by
    rw [nodes_eq]
    exact List.mem_cons_of_mem _ hv
  by_contra hne
  obtain ⟨new, hnew⟩ := Option.ne_none_iff_exists'.mp hne
  obtain ⟨u, hu, hmatch⟩ := List.mem_filterMap.mp (outermost_subset t _ (mem_of_lookup hnew))
  obtain ⟨new', hnew', heq⟩ := Option.map_eq_some_iff.mp hmatch
  obtain rfl := (hshape.holds.node (hinside hu)).eq_of_root (hshape.holds.node (hinside hs)) (congrArg Prod.fst heq)
  rw [hm] at hnew'
  cases hnew'

end IdTree

namespace Arena

variable {a : Arena} {t : IdTree}

/-- New trees can be put in the places of all nodes that have a replacement. -/
theorem sound_matches (m : IdTree → Option (List Tree)) (t : IdTree) :
    Sound t ((matchesIn m [t]).map fun r => (r.1, Sketch.ofTrees r.2)) := by
  refine Sound.of_new (fun r hr => ?_) fun r hr => ?_
  · obtain ⟨q, hq, rfl⟩ := List.mem_map.mp hr
    have hid := fst_mem_of_matchesIn hq
    rwa [idsAll_singleton] at hid
  · obtain ⟨q, -, rfl⟩ := List.mem_map.mp hr
    exact Sketch.keepsAll_ofTrees q.2

/-- All nodes that have a replacement are replaced, but for those below others. -/
theorem Shape.replacingEach_does (h : a.Shape t) (g : Tree → Option (List Tree)) :
    (replacingEach g a).Does a (a.toTree.replaceOutermost? g) := by
  let m (u : IdTree) : Option (List Tree) := g (u.toTree a.element)
  have hplan : (t.seats.filterMap fun s => (g (s.node.toTree a.element)).map fun new => (s.id, Sketch.ofTrees new)) =
      (matchesIn m [t]).map fun r => (r.1, Sketch.ofTrees r.2) := by
    rw [matchesIn, nodesAll, nodesAll, List.append_nil, ← Seat.map_node_seats, List.filterMap_map, List.map_filterMap]
    refine List.filterMap_congr fun s _ => ?_
    rw [Function.comp_apply, Option.map_map]
    rfl
  have htaken : t.taken ((matchesIn m [t]).map fun r => (r.1, Sketch.ofTrees r.2)) =
      (outermost m t).map fun r => (r.1, Sketch.ofTrees r.2) := by
    rw [← taken_matches h]
    exact takenFrom_map (fun r => Sketch.ofTrees r.2) [] _
  obtain ⟨hchanged, htree, hshape⟩ := replace_carryOut h (sound_matches m t) (0 < ·)
  rw [htaken] at hchanged htree
  have hlookup (id : Nat) : (lookup ((outermost m t).map fun r => (r.1, Sketch.ofTrees r.2)) id).map
      (Sketch.trees a.element) = lookup (outermost m t) id := by
    rw [lookup_map, Option.map_map]
    cases lookup (outermost m t) id <;> simp
  obtain ⟨hfill, hsome⟩ := @fill_outermost a.element g (lookup (outermost m t)) t
    (fun r hr => lookup_eq_some (outermost_nodup h) hr) fun s hs hnone => lookup_outermost_eq_none h hs hnone
  simp only [hlookup] at htree
  rw [replacingEach, h.layout_eq, hplan]
  refine ⟨hchanged.trans ?_, ?_, hshape⟩
  · rw [h.toTree_eq, Bool.eq_iff_iff, hsome, decide_eq_true_iff, List.length_map, List.length_pos_iff]
  · rw [htree, h.toTree_eq]
    exact hfill

end Arena
end Unscramble
