import Unscramble.Proofs.Arena.Batch

/-! A batch of edits is a substitution: it leads to the tree in which every node that an accepted edit acts
on is replaced by the trees of that edit. The order of the accepted edits makes no difference. -/
namespace Unscramble

open IdTree Arena Editing

namespace IdTree

mutual

/-- The tree with other trees in the places of some of its nodes. The root stays. -/
def substitute (new : Nat → Option (List IdTree)) : IdTree → IdTree
  | .node id below => .node id (substituteAll new below)

def substituteAll (new : Nat → Option (List IdTree)) : List IdTree → List IdTree
  | [] => []
  | t :: ts => (new t.root).getD [t.substitute new] ++ substituteAll new ts

end

/-- The trees that edits put in the places of nodes. Where the roots of these trees stand in an arena, they
stand with all that is below them. -/
def grafts (forest : Nat → IdTree) (chosen : List (Nat × Edit)) (id : Nat) : Option (List IdTree) :=
  (chosen.find? (·.1 == id)).map (·.2.replacement.map forest)

/-- A tree that may be put in the place of a node: it is out of reach, or its nodes are strictly below the
node. -/
structure Graft (t : IdTree) (a : Arena) (id x : Nat) (new : IdTree) : Prop where
  root : new.root = x
  holds : a.Holds new
  apart : ∀ y ∈ new.ids, y ∉ t.ids ∨ id ∈ t.up y ∧ y ≠ id

theorem root_substitute (new : Nat → Option (List IdTree)) (t : IdTree) : (t.substitute new).root = t.root := by
  cases t
  rfl

theorem mem_substituteAll {new : Nat → Option (List IdTree)} {s : IdTree} {ts : List IdTree} :
    s ∈ substituteAll new ts ↔ ∃ t ∈ ts, s ∈ (new t.root).getD [t.substitute new] := by
  induction ts with
  | nil => simp [substituteAll]
  | cons t ts ih => simp [substituteAll, ih]

section
variable {t : IdTree} {a : Arena} {chosen : List (Nat × Edit)} {forest : Nat → IdTree}

theorem root_grafts (hforest : ∀ c ∈ chosen, ∀ x ∈ c.2.replacement, Graft t a c.1 x (forest x)) (s : IdTree) :
    ((grafts forest chosen s.root).getD [s.substitute (grafts forest chosen)]).map root =
      spliced chosen s.root := by
  unfold grafts spliced
  cases hfind : chosen.find? (·.1 == s.root) with
  | none => simp [root_substitute]
  | some c =>
    have hc := hforest c (List.mem_of_find?_eq_some hfind)
    simp only [Option.map_some, Option.getD_some, List.map_map]
    exact (List.map_congr_left fun x hx => (hc x hx).root).trans (List.map_id _)

theorem roots_substituteAll (hforest : ∀ c ∈ chosen, ∀ x ∈ c.2.replacement, Graft t a c.1 x (forest x))
    (ts : List IdTree) : (substituteAll (grafts forest chosen) ts).map root =
      (ts.map root).flatMap (spliced chosen) := by
  induction ts with
  | nil => rfl
  | cons s ts ih =>
    rw [substituteAll, List.map_append, root_grafts hforest, ih, List.map_cons, List.flatMap_cons]

end
end IdTree

section
variable {a : Arena} {t : IdTree} {chosen : List (Nat × Edit)} {state : Editing} {forest : Nat → IdTree}

theorem IdTree.Graft.fits {id : Nat} {new : List Nat} (h : ∀ x ∈ new, Graft t a id x (forest x)) :
    Fits t id new := by
  intro x hx
  have hroot := root_mem_ids (forest x)
  rw [(h x hx).root] at hroot
  exact (h x hx).apart x hroot

/-- No edit changes the children of a node below the one that an accepted edit acts on. -/
theorem Editing.Carried.children_below (hshape : a.Shape t) (h : Carried a t chosen state)
    (hchosen : Separate t a chosen) {c : Nat × Edit} (hc : c ∈ chosen) {p : Nat} (hp : p ∈ t.ids)
    (hup : c.1 ∈ t.up p) : state.arena.children p = a.children p := by
  have hself : ∀ x ∈ a.children p, spliced chosen x = [x] := by
    intro x hx
    refine spliced_of_not_mem fun hkey => ?_
    obtain ⟨d, hd, rfl⟩ := List.mem_map.mp hkey
    have hstep := hshape.up_child hp hx
    have hover : t.Overlap c.1 d.1 := .inl (by rw [hstep]; exact List.mem_cons_of_mem _ hup)
    by_cases hsame : c = d
    · subst hsame
      have hnodup := up_nodup hshape.nodup c.1
      rw [hstep, List.nodup_cons] at hnodup
      exact hnodup.1 hup
    · have : Std.Symm fun c d : Nat × Edit => ¬t.Overlap c.1 d.1 := ⟨fun _ _ h hover => h hover.symm⟩
      exact hchosen.apart.forall hc hd hsame hover
  rw [h.inside p hp, List.flatMap_congr hself, List.flatMap_singleton']

theorem Editing.Carried.holds_graft (hshape : a.Shape t) (h : Carried a t chosen state)
    (hchosen : Separate t a chosen) {c : Nat × Edit} (hc : c ∈ chosen) {x : Nat} {new : IdTree}
    (hnew : Graft t a c.1 x new) : state.arena.Holds new := by
  intro s hs
  obtain ⟨hsize, hchildren⟩ := hnew.holds s hs
  refine ⟨h.size ▸ hsize, ?_⟩
  rw [← hchildren]
  by_cases hin : s.root ∈ t.ids
  · obtain ⟨hup, -⟩ := (hnew.apart _ (List.mem_map_of_mem hs)).resolve_left fun hout => hout hin
    exact h.children_below hshape hchosen hc hin hup
  · exact h.outside _ hin

/-- The arena holds the tree with the trees of the accepted edits in it. -/
theorem Editing.Carried.holds (hshape : a.Shape t) (h : Carried a t chosen state)
    (hchosen : Separate t a chosen)
    (hforest : ∀ c ∈ chosen, ∀ x ∈ c.2.replacement, Graft t a c.1 x (forest x)) :
    ∀ s ∈ t.nodes, state.arena.Holds (s.substitute (grafts forest chosen)) := by
  intro s hs
  induction s using children_induction with
  | h id below ih =>
    obtain ⟨hsize, hchildren⟩ := hshape.holds _ hs
    have hid : id ∈ t.ids := List.mem_map.mpr ⟨_, hs, rfl⟩
    intro r hr
    rw [substitute, IdTree.nodes, List.mem_cons] at hr
    rcases hr with rfl | hr
    · refine ⟨h.size ▸ hsize, ?_⟩
      have hchildren : a.children id = below.map IdTree.root := hchildren
      rw [root_node, children_node, roots_substituteAll hforest, ← hchildren]
      exact h.inside id hid
    · obtain ⟨u, hu, hr⟩ := mem_nodesAll.mp hr
      obtain ⟨v, hv, hu⟩ := mem_substituteAll.mp hu
      cases hfind : chosen.find? (·.1 == v.root) with
      | none =>
        have hu : u = v.substitute (grafts forest chosen) := by simpa [grafts, hfind] using hu
        subst hu
        exact ih v hv (child_mem_nodes hs hv) r hr
      | some c =>
        have hc := List.mem_of_find?_eq_some hfind
        obtain ⟨x, hx, rfl⟩ : ∃ x ∈ c.2.replacement, forest x = u := by simpa [grafts, hfind] using hu
        exact h.holds_graft hshape hchosen hc (hforest c hc x hx) r hr

/-! ### The order of the accepted edits -/

theorem Arena.node?_eq (a : Arena) (id : Nat) : a.node? id =
    if id < a.nodes.size then some ⟨a.element id, a.children id⟩ else none := by
  unfold Arena.element Arena.children
  split
  next hid => simp [node?, Array.getElem?_eq_getElem hid]
  next hid => exact Array.getElem?_eq_none (Nat.le_of_not_lt hid)

theorem Arena.ext_node? {a b : Arena} (hnodes : ∀ id, a.node? id = b.node? id) (hroot : a.root = b.root)
    (hgeneration : a.generation = b.generation) : a = b := by
  obtain ⟨nodes, root, generation⟩ := a
  obtain ⟨nodes', root', generation'⟩ := b
  obtain rfl : nodes = nodes' := Array.ext_getElem? hnodes
  cases hroot
  cases hgeneration
  rfl

theorem IdTree.Separate.nodup_keys (hshape : a.Shape t) (h : Separate t a chosen) :
    (chosen.map Prod.fst).Nodup := by
  refine List.pairwise_map.mpr (h.apart.imp_of_mem fun {c d} hc _ hfree heq => ?_)
  exact hfree (heq ▸ .self hshape.nodup (located_mem hshape.nodup (h.located c hc)))

theorem spliced_perm {chosen' : List (Nat × Edit)} (hperm : chosen'.Perm chosen)
    (hnodup : (chosen.map Prod.fst).Nodup) : spliced chosen' = spliced chosen := by
  funext id
  have hkeys := hperm.map Prod.fst
  by_cases hid : id ∈ chosen.map Prod.fst
  · obtain ⟨⟨_, edit⟩, hc, rfl⟩ := List.mem_map.mp hid
    rw [spliced_of_mem hnodup hc, spliced_of_mem (hkeys.nodup_iff.mpr hnodup) (hperm.mem_iff.mpr hc)]
  · rw [spliced_of_not_mem hid, spliced_of_not_mem fun h => hid (hkeys.mem_iff.mp h)]

/-- The arena after a batch depends on nothing but which edits were accepted. -/
theorem Editing.Carried.arena_eq {chosen' : List (Nat × Edit)} {state' : Editing} (h : Carried a t chosen state)
    (h' : Carried a t chosen' state') (hperm : chosen'.Perm chosen) (hnodup : (chosen.map Prod.fst).Nodup) :
    state'.arena = state.arena := by
  refine Arena.ext_node? (fun id => ?_) (h'.root.trans h.root.symm) ?_
  · rw [node?_eq, node?_eq, h'.size, h.size, h'.element, h.element]
    by_cases hid : id ∈ t.ids
    · rw [h'.inside id hid, h.inside id hid, spliced_perm hperm hnodup]
    · rw [h'.outside id hid, h.outside id hid]
  · rw [h'.generation, h.generation, hperm.length_eq]

end

/-! ### Trees again -/

section
variable {a : Arena} {t : IdTree} {chosen : List (Nat × Edit)} {forest : Nat → IdTree}

/-- What is below a node of a subtree is in the subtree. -/
theorem Arena.Shape.mem_of_up (hshape : a.Shape t) {s : IdTree} (hs : s ∈ t.nodes) {x y : Nat} (hx : x ∈ s.ids)
    (hup : x ∈ t.up y) : y ∈ s.ids := by
  induction hn : (t.up y).length generalizing y with
  | zero => simp [List.length_eq_zero_iff.mp hn] at hup
  | succ n ih =>
    have hy := mem_ids_of_up hup
    by_cases hroot : y = t.root
    · subst hroot
      rw [up_root, List.mem_singleton] at hup
      exact hup ▸ hx
    · obtain ⟨p, hp, hchild⟩ := hshape.exists_parent hy hroot
      have hstep := hshape.up_child hp hchild
      rw [hstep, List.length_cons] at hn
      rw [hstep, List.mem_cons] at hup
      rcases hup with rfl | hup
      · exact hx
      · obtain ⟨r, hr, rfl⟩ := List.mem_map.mp (ih hup (Nat.succ.inj hn))
        rw [(hshape.holds r (mem_nodes_trans hs hr)).2] at hchild
        obtain ⟨c, hc, rfl⟩ := List.mem_map.mp hchild
        exact List.mem_map_of_mem (child_mem_nodes hr hc)

/-- The nodes of the trees that an accepted edit puts in. -/
def graftedIds (forest : Nat → IdTree) (c : Nat × Edit) : List Nat := idsAll (c.2.replacement.map forest)

/-- Where a node of the tree after a batch comes from: it was there before, or it was out of reach and came
with an accepted edit. -/
def Origin (t : IdTree) (forest : Nat → IdTree) (chosen : List (Nat × Edit)) (s : IdTree) (y : Nat) : Prop :=
  y ∈ s.ids ∨ y ∉ t.ids ∧ ∃ c ∈ chosen, c.1 ∈ s.ids ∧ y ∈ graftedIds forest c

theorem Origin.parent {s r : IdTree} {y : Nat} (h : Origin t forest chosen r y) (hr : r ∈ s.nodes) :
    Origin t forest chosen s y :=
  h.imp (mem_ids_of_node hr) fun ⟨hout, c, hc, hin, hy⟩ => ⟨hout, c, hc, mem_ids_of_node hr hin, hy⟩

variable (hshape : a.Shape t)
  (hforest : ∀ c ∈ chosen, ∀ x ∈ c.2.replacement, Graft t a c.1 x (forest x))
include hshape hforest

theorem origin_grafted {s : IdTree} (hs : s ∈ t.nodes) {c : Nat × Edit} (hc : c ∈ chosen) (hid : c.1 ∈ s.ids)
    {y : Nat} (hy : y ∈ graftedIds forest c) : Origin t forest chosen s y := by
  obtain ⟨_, hnew, hmem⟩ := mem_idsAll.mp hy
  obtain ⟨x, hx, rfl⟩ := List.mem_map.mp hnew
  rcases (hforest c hc x hx).apart y hmem with hout | ⟨hup, -⟩
  · exact .inr ⟨hout, c, hc, hid, hy⟩
  · exact .inl (hshape.mem_of_up hs hid hup)

theorem origin_child {s : IdTree} (hs : s ∈ t.nodes)
    (ih : ∀ y ∈ (s.substitute (grafts forest chosen)).ids, Origin t forest chosen s y) :
    ∀ y ∈ idsAll ((grafts forest chosen s.root).getD [s.substitute (grafts forest chosen)]),
      Origin t forest chosen s y := by
  intro y hy
  cases hfind : chosen.find? (·.1 == s.root) with
  | none => exact ih y (by simpa [grafts, hfind] using hy)
  | some c =>
    have hid : c.1 = s.root := by simpa using List.find?_some hfind
    refine origin_grafted hshape hforest hs (List.mem_of_find?_eq_some hfind) (hid ▸ root_mem_ids s) ?_
    simpa [grafts, hfind, graftedIds] using hy

theorem origin_substitute : ∀ s ∈ t.nodes, ∀ y ∈ (s.substitute (grafts forest chosen)).ids,
    Origin t forest chosen s y := by
  intro s hs
  induction s using children_induction with
  | h id below ih =>
    intro y hy
    rw [substitute, ids_node, List.mem_cons] at hy
    rcases hy with rfl | hy
    · exact .inl (by simp)
    · obtain ⟨u, hu, hy⟩ := mem_idsAll.mp hy
      obtain ⟨v, hv, hu⟩ := mem_substituteAll.mp hu
      have hchild : v ∈ (node id below).nodes := child_mem_nodes (mem_nodes_self _) hv
      have hnodes := mem_nodes_trans hs hchild
      exact (origin_child hshape hforest hnodes (ih v hv hnodes) y (mem_idsAll.mpr ⟨u, hu, hy⟩)).parent hchild

theorem origin_children {ts : List IdTree} (hts : ∀ v ∈ ts, v ∈ t.nodes) :
    ∀ y ∈ idsAll (substituteAll (grafts forest chosen) ts), ∃ v ∈ ts, Origin t forest chosen v y := by
  intro y hy
  obtain ⟨u, hu, hy⟩ := mem_idsAll.mp hy
  obtain ⟨v, hv, hu⟩ := mem_substituteAll.mp hu
  exact ⟨v, hv, origin_child hshape hforest (hts v hv) (origin_substitute hshape hforest v (hts v hv)) y
    (mem_idsAll.mpr ⟨u, hu, hy⟩)⟩

variable (hnodup : (chosen.flatMap (graftedIds forest)).Nodup)
include hnodup

omit hshape hforest in
/-- No node comes from two trees that have no nodes in common. -/
theorem origin_disjoint {v w : IdTree} (hv : v ∈ t.nodes) (hw : w ∈ t.nodes)
    (hapart : ∀ x ∈ v.ids, x ∉ w.ids) {y : Nat} (hyv : Origin t forest chosen v y)
    (hyw : Origin t forest chosen w y) : False := by
  rcases hyv with hyv | ⟨hout, c, hc, hcv, hyc⟩
  · rcases hyw with hyw | ⟨hout, -⟩
    · exact hapart y hyv hyw
    · exact hout (mem_ids_of_node hv hyv)
  · rcases hyw with hyw | ⟨-, d, hd, hdw, hyd⟩
    · exact hout (mem_ids_of_node hw hyw)
    · obtain rfl := eq_of_mem_flatMap hnodup hc hd hyc hyd
      exact hapart _ hcv hdw

theorem nodup_substituteAll {ts : List IdTree} (hts : ∀ v ∈ ts, v ∈ t.nodes) (hids : (idsAll ts).Nodup)
    (ih : ∀ v ∈ ts, (v.substitute (grafts forest chosen)).ids.Nodup) :
    (idsAll (substituteAll (grafts forest chosen) ts)).Nodup := by
  induction ts with
  | nil => exact .nil
  | cons v ts ihts =>
    obtain ⟨hv, hts⟩ := List.forall_mem_cons.mp hts
    obtain ⟨ihv, ih⟩ := List.forall_mem_cons.mp ih
    rw [idsAll_cons, List.nodup_append] at hids
    rw [substituteAll, idsAll_append, List.nodup_append]
    refine ⟨?_, ihts hts hids.2.1 ih, ?_⟩
    · cases hfind : chosen.find? (·.1 == v.root) with
      | none => simpa [grafts, hfind] using ihv
      | some c =>
        have hown := (List.nodup_flatMap.mp hnodup).1 c (List.mem_of_find?_eq_some hfind)
        simpa [grafts, hfind, graftedIds] using hown
    · rintro y hy _ hrest rfl
      have hyv := origin_child hshape hforest hv (origin_substitute hshape hforest v hv) y hy
      obtain ⟨w, hw, hyw⟩ := origin_children hshape hforest hts y hrest
      refine origin_disjoint hnodup hv (hts w hw) (fun x hx hxw => ?_) hyv hyw
      exact hids.2.2 x hx x (mem_idsAll.mpr ⟨w, hw, hxw⟩) rfl

/-- No node is twice in the tree after a batch if none is twice in the trees that it puts in. -/
theorem nodup_substitute : ∀ s ∈ t.nodes, (s.substitute (grafts forest chosen)).ids.Nodup := by
  intro s hs
  induction s using children_induction with
  | h id below ih =>
    have hids : (node id below).ids.Nodup := nodup_of_node hshape.nodup hs
    have hchild : ∀ v ∈ below, v ∈ t.nodes := fun v hv => child_mem_nodes hs hv
    rw [ids_node, List.nodup_cons] at hids
    rw [substitute, ids_node, List.nodup_cons]
    refine ⟨fun hid => ?_, nodup_substituteAll hshape hforest hnodup hchild hids.2 fun v hv =>
      ih v hv (hchild v hv)⟩
    obtain ⟨v, hv, hv' | ⟨hout, -⟩⟩ := origin_children hshape hforest hchild id hid
    · exact hids.1 (mem_idsAll.mpr ⟨v, hv, hv'⟩)
    · exact hout (List.mem_map.mpr ⟨_, hs, rfl⟩)

end

/-! ### Batches -/

/-- The arena and the number that a batch leads to: the tree has the trees of the accepted edits in the places
of the nodes that these act on, and nothing else has changed. No node stands in two places if no two of the new
trees have a node in common. -/
structure Substituted (a : Arena) (t : IdTree) (forest : Nat → IdTree) (chosen : List (Nat × Edit))
    (result : Arena × Nat) : Prop where
  count : result.2 = chosen.length
  generation : result.1.generation = a.generation + chosen.length
  root : result.1.root = a.root
  root_tree : (t.substitute (grafts forest chosen)).root = a.root
  holds : result.1.Holds (t.substitute (grafts forest chosen))
  element : ∀ id, result.1.element id = a.element id
  outside : ∀ id ∉ t.ids, result.1.node? id = a.node? id
  toTree : result.1.toTree = (t.substitute (grafts forest chosen)).toTree a.element
  shape : (chosen.flatMap (graftedIds forest)).Nodup → result.1.Shape (t.substitute (grafts forest chosen))

section
variable {a : Arena} {t : IdTree} {edits : List Edit} {forest : Nat → IdTree}

theorem edit_carried (edits : List Edit) (hshape : a.Shape t)
    (hedits : ∀ edit ∈ edits, ∀ id, t.located a edit = some id → Fits t id edit.replacement) :
    ∃ state, Carried a t (t.accepted a edits) state ∧
      a.edit (ParentIndex.build a) edits = (state.arena, (t.accepted a edits).length) := by
  have hrun := foldl_carried hshape (carried_start a t) ⟨by simp, by simp, .nil⟩ (by simp) hedits
  rw [List.nil_append] at hrun
  refine ⟨_, hrun, ?_⟩
  have hlength : (edits.foldl (step (ParentIndex.build a)) { arena := a }).touched.length =
      (t.accepted a edits).length := by
    rw [hrun.touched, List.length_reverse, List.length_map, accepted]
  rw [← hlength]
  exact if_pos rfl

/-- Of the accepted edits of a batch all are accepted, in whatever order they come. -/
theorem accepted_perm {edits' : List Edit} (hperm : edits'.Perm ((t.accepted a edits).map Prod.snd)) :
    (t.accepted a edits').Perm (t.accepted a edits) := by
  have hseparate := accepted_separate t a edits
  let place (edit : Edit) : Nat × Edit := ((t.located a edit).getD 0, edit)
  have hplace : ((t.accepted a edits).map Prod.snd).map place = t.accepted a edits := by
    rw [List.map_map]
    exact (List.map_congr_left fun c hc => by simp [place, hseparate.located c hc]).trans (List.map_id _)
  have hchosen : (edits'.map place).Perm (t.accepted a edits) := hplace ▸ hperm.map place
  have hall := @acceptedFrom_separate t a [] _ (hseparate.perm hchosen) (by simp)
  have hedits : (edits'.map place).map Prod.snd = edits' := by
    rw [List.map_map]
    exact List.map_id _
  rw [hedits] at hall
  exact (List.Perm.of_eq hall).trans hchosen

/-- A batch of edits is a substitution of the nodes that the accepted edits act on, and the order of these edits
makes no difference. The nodes that an edit puts in are the roots of trees that are out of reach or strictly
below the node that the edit acts on. -/
theorem Arena.edit_substitutes (hshape : a.Shape t)
    (hforest : ∀ edit ∈ edits, ∀ id, t.located a edit = some id →
      ∀ x ∈ edit.replacement, Graft t a id x (forest x)) :
    Substituted a t forest (t.accepted a edits) (a.edit (ParentIndex.build a) edits) ∧
      ∀ edits' : List Edit, edits'.Perm ((t.accepted a edits).map Prod.snd) →
        a.edit (ParentIndex.build a) edits' = a.edit (ParentIndex.build a) edits := by
  have hseparate := accepted_separate t a edits
  have hchosen : ∀ c ∈ t.accepted a edits, ∀ x ∈ c.2.replacement, Graft t a c.1 x (forest x) :=
    fun c hc => hforest c.2 (acceptedFrom_cases hc).1 c.1 (hseparate.located c hc)
  obtain ⟨state, hstate, hedit⟩ := edit_carried edits hshape fun edit hmem id hlocated =>
    Graft.fits (hforest edit hmem id hlocated)
  have hroot : (t.substitute (grafts forest (t.accepted a edits))).root = a.root := by
    rw [root_substitute, hshape.root]
  have hroot' := hroot.trans hstate.root.symm
  have hholds := hstate.holds hshape hseparate hchosen t (mem_nodes_self t)
  rw [hedit]
  constructor
  · exact {
      count := rfl
      generation := hstate.generation
      root := hstate.root
      root_tree := hroot
      holds := hholds
      element := hstate.element
      outside := fun id hid => by
        rw [node?_eq, node?_eq, hstate.size, hstate.element, hstate.outside id hid]
      toTree := (hholds.toTree_eq hroot').trans (by rw [funext hstate.element])
      shape := fun hnodup =>
        ⟨hholds, hroot', nodup_substitute hshape hchosen hnodup t (mem_nodes_self t)⟩ }
  · intro edits' hperm
    have hperm' := accepted_perm hperm
    obtain ⟨state', hstate', hedit'⟩ := edit_carried edits' hshape fun edit hmem id hlocated => by
      obtain ⟨c, hc, rfl⟩ := List.mem_map.mp (hperm.mem_iff.mp hmem)
      exact Graft.fits (hforest c.2 (acceptedFrom_cases hc).1 id hlocated)
    rw [hedit', hstate.arena_eq hstate' hperm' (hseparate.nodup_keys hshape), hperm'.length_eq]

end

/-- A statement that is replaced by a new node and by one from inside it, an edit inside that statement that
comes too late, and a statement that is deleted. -/
theorem Arena.edit_substitutes_statements :
    let leaf (kind : Kind) : ArenaNode := ⟨{ kind }, []⟩
    let a : Arena := { nodes := #[⟨{ kind := .statements }, [1, 3]⟩, ⟨{ kind := .pipeline }, [2]⟩,
      leaf .stringConstant, leaf .stringConstant, leaf .stringConstant] }
    let t : IdTree := .node 0 [.node 1 [.node 2 []], .node 3 []]
    let edits : List Edit := [⟨2, [4, 2], some .pipeline⟩, ⟨2, [], none⟩, ⟨3, [], none⟩]
    let forest (id : Nat) : IdTree := .node id []
    let chosen : List (Nat × Edit) := [(1, ⟨2, [4, 2], some .pipeline⟩), (3, ⟨3, [], none⟩)]
    let result := a.edit (ParentIndex.build a) edits
    t.accepted a edits = chosen ∧ t.substitute (grafts forest chosen) = .node 0 [.node 4 [], .node 2 []] ∧
      a.Shape t ∧ Substituted a t forest chosen result ∧
      a.edit (ParentIndex.build a) [⟨3, [], none⟩, ⟨2, [4, 2], some .pipeline⟩] = result := by
  intro leaf a t edits forest chosen result
  have haccepted : t.accepted a edits = chosen := by rfl
  have hshape : a.Shape t := ⟨by unfold Holds; decide, rfl, by decide⟩
  have hforest : ∀ edit ∈ edits, ∀ id, t.located a edit = some id →
      ∀ x ∈ edit.replacement, Graft t a id x (forest x) := by
    have hgraft : ∀ x ∈ [4, 2], Graft t a 1 x (forest x) := by
      simp only [List.forall_mem_cons]
      exact ⟨⟨rfl, by unfold Holds; decide, by decide⟩,
        ⟨rfl, by unfold Holds; decide, by decide⟩, by simp⟩
    intro edit hedit id hlocated x hx
    simp only [edits, List.mem_cons, List.not_mem_nil, or_false] at hedit
    rcases hedit with rfl | rfl | rfl
    · obtain rfl : 1 = id := Option.some.inj hlocated
      exact hgraft x hx
    · cases hx
    · cases hx
  have hresult := edit_substitutes hshape hforest
  rw [haccepted] at hresult
  exact ⟨haccepted, rfl, hshape, hresult.1, hresult.2 _ (.swap ..)⟩

end Unscramble
