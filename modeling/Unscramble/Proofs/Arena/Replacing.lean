import Mathlib.Data.List.Flatten
import Unscramble.Proofs.Arena.Drawing

/-! Plans that replace nodes. Which replacements of a batch are carried out can be told from the nodes that they
are for. -/
namespace Unscramble

open IdTree

namespace IdTree

/-- The replacements that are carried out of some that come behind others. The root is not replaced, nor is a node
above or below another one that has been. -/
def takenFrom {β : Type} (t : IdTree) (before : List Nat) : List (Nat × β) → List (Nat × β)
  | [] => []
  | r :: rs =>
    if r.1 = t.root ∨ ∃ other ∈ before, t.Overlap r.1 other then takenFrom t before rs
    else r :: takenFrom t (r.1 :: before) rs

def taken {β : Type} (t : IdTree) (rs : List (Nat × β)) : List (Nat × β) := t.takenFrom [] rs

/-- What is to be put in the place of a node. -/
def lookup {β : Type} (rs : List (Nat × β)) (id : Nat) : Option β := (rs.find? (·.1 == id)).map (·.2)

section
variable {β γ : Type} {t : IdTree} {before : List Nat} {rs : List (Nat × β)} {a : Arena}

theorem takenFrom_map (g : Nat × β → γ) (before : List Nat) (rs : List (Nat × β)) :
    t.takenFrom before (rs.map fun r => (r.1, g r)) = (t.takenFrom before rs).map fun r => (r.1, g r) := by
  induction rs generalizing before with
  | nil => rfl
  | cons r rs ih =>
    rw [List.map_cons, takenFrom, takenFrom]
    split
    next => exact ih before
    next => rw [List.map_cons, ih]

theorem takenFrom_sublist (before : List Nat) (rs : List (Nat × β)) : (t.takenFrom before rs).Sublist rs := by
  induction rs generalizing before with
  | nil => exact .slnil
  | cons r rs ih =>
    rw [takenFrom]
    split
    next => exact (ih before).cons _
    next => exact (ih _).cons_cons _

theorem located_target (hnodup : t.ids.Nodup) {e : Edit} (htarget : e.target ∈ t.ids) (hstop : e.stopAt = none) :
    t.located a e = some e.target := by
  obtain ⟨path, hpath⟩ := up_eq_cons hnodup htarget
  rw [located, hstop, hpath, List.find?_cons]
  rfl

/-- The accepted edits of a batch are those of the replacements that are carried out. -/
theorem acceptedFrom_eq_takenFrom (hnodup : t.ids.Nodup) {edits : List Edit}
    (hedits : ∀ e ∈ edits, e.target ∈ t.ids ∧ e.stopAt = none) :
    t.acceptedFrom a before edits = t.takenFrom before (edits.map fun e => (e.target, e)) := by
  induction edits generalizing before with
  | nil => rfl
  | cons e edits ih =>
    obtain ⟨⟨htarget, hstop⟩, hedits⟩ := List.forall_mem_cons.mp hedits
    rw [acceptedFrom, located_target hnodup htarget hstop, List.map_cons, takenFrom]
    simp only [ih hedits]

theorem find?_root {ts : List IdTree} {s : IdTree} (hnodup : (idsAll ts).Nodup) (hs : s ∈ ts) :
    ts.find? (·.root == s.root) = some s := by
  induction ts with
  | nil => cases hs
  | cons u us ih =>
    rw [idsAll_cons, List.nodup_append] at hnodup
    rcases List.mem_cons.mp hs with rfl | hs
    · simp
    · have hne : u.root ≠ s.root :=
        hnodup.2.2 _ (root_mem_ids u) _ (mem_idsAll.mpr ⟨s, hs, root_mem_ids s⟩)
      rw [List.find?_cons, show (u.root == s.root) = false by simpa using hne]
      exact ih hnodup.2.1 hs

theorem lookup_eq_some {rs : List (Nat × β)} (hnodup : (rs.map Prod.fst).Nodup) {r : Nat × β} (h : r ∈ rs) :
    lookup rs r.1 = some r.2 := by
  induction rs with
  | nil => cases h
  | cons q rs ih =>
    rw [List.map_cons, List.nodup_cons] at hnodup
    rcases List.mem_cons.mp h with rfl | h
    · simp [lookup]
    · have hne : q.1 ≠ r.1 := fun heq => hnodup.1 (heq ▸ List.mem_map_of_mem h)
      rw [lookup, List.find?_cons, show (q.1 == r.1) = false by simpa using hne]
      exact ih hnodup.2 h

theorem mem_of_lookup {rs : List (Nat × β)} {id : Nat} {r : β} (h : lookup rs id = some r) : (id, r) ∈ rs := by
  obtain ⟨q, hq, rfl⟩ := Option.map_eq_some_iff.mp h
  have hid : q.1 = id := by simpa using List.find?_some hq
  exact hid ▸ List.mem_of_find?_eq_some hq

theorem lookup_eq_none {id : Nat} (h : id ∉ rs.map Prod.fst) : lookup rs id = none := by
  by_contra hne
  obtain ⟨r, hr⟩ := Option.ne_none_iff_exists'.mp hne
  exact h (List.mem_map.mpr ⟨_, mem_of_lookup hr, rfl⟩)

theorem lookup_cons (r : Nat × β) (rs : List (Nat × β)) (id : Nat) :
    lookup (r :: rs) id = if r.1 = id then some r.2 else lookup rs id := by
  rw [lookup, lookup, List.find?_cons]
  by_cases hid : r.1 = id
  · simp [hid]
  · rw [if_neg hid, show (r.1 == id) = false by simpa using hid]

theorem lookup_append (rs rs' : List (Nat × β)) (id : Nat) :
    lookup (rs ++ rs') id = (lookup rs id).or (lookup rs' id) := by
  rw [lookup, lookup, lookup, List.find?_append, Option.map_or]

/-- Where no replacement stands in the way of another one, all are carried out. -/
theorem takenFrom_eq_self (hroot : ∀ r ∈ rs, r.1 ≠ t.root) (hapart : rs.Pairwise fun r q => ¬t.Overlap q.1 r.1)
    (hfree : ∀ r ∈ rs, ∀ other ∈ before, ¬t.Overlap r.1 other) : t.takenFrom before rs = rs := by
  induction rs generalizing before with
  | nil => rfl
  | cons r rs ih =>
    obtain ⟨hr, hroot⟩ := List.forall_mem_cons.mp hroot
    obtain ⟨hother, hfree⟩ := List.forall_mem_cons.mp hfree
    obtain ⟨hbehind, hapart⟩ := List.pairwise_cons.mp hapart
    have hkeep : ¬(r.1 = t.root ∨ ∃ other ∈ before, t.Overlap r.1 other) := by
      rintro (heq | ⟨other, hmem, hoverlap⟩)
      · exact hr heq
      · exact hother other hmem hoverlap
    rw [takenFrom, if_neg hkeep, ih hroot hapart fun q hq =>
      List.forall_mem_cons.mpr ⟨hbehind q hq, hfree q hq⟩]

theorem lookup_map (g : β → γ) (rs : List (Nat × β)) (id : Nat) :
    lookup (rs.map fun r => (r.1, g r.2)) id = (lookup rs id).map g := by
  rw [lookup, lookup, List.find?_map, Option.map_map, Option.map_map]
  rfl

end
end IdTree

namespace Arena

open Sketch

/-- An arena has got what is to be put in the places of some nodes. -/
structure Drafted (a : Arena) (rs : List (Nat × List Sketch)) (b : Arena) (drafts : List (Nat × List IdTree)) :
    Prop where
  grows : a.Grows b
  holds : ∀ d ∈ drafts, ∀ s ∈ d.2, b.Holds s
  looks : drafts.map (fun d => (d.1, toTreeAll b.element d.2)) = rs.map fun r => (r.1, trees a.element r.2)
  keeps : ∀ d ∈ drafts, ∃ r ∈ rs, d.1 = r.1 ∧
    ∀ y ∈ idsAll d.2, y ∈ idsAll (keepsAll r.2) ∨ a.nodes.size ≤ y
  ids : ∃ new : List Nat, (drafts.flatMap fun d => idsAll d.2).Perm
    ((rs.flatMap fun r => idsAll (keepsAll r.2)) ++ new) ∧ new.Nodup ∧
      ∀ x ∈ new, a.nodes.size ≤ x ∧ x < b.nodes.size

/-- The edit that puts what was drawn in the place of a node. -/
def draftEdit (d : Nat × List IdTree) : Edit := { target := d.1, replacement := d.2.map IdTree.root }

section
variable {a b c : Arena} {t : IdTree} {rs : List (Nat × List Sketch)} {drafts : List (Nat × List IdTree)}

theorem Drawn.draft {ss : List Sketch} {drawn : List IdTree} (h : Drawn a ss b drawn)
    (h' : Drafted b rs c drafts) (hkept : ∀ r ∈ rs, ∀ s ∈ keepsAll r.2, a.Holds s) (target : Nat) :
    Drafted a ((target, ss) :: rs) c ((target, drawn) :: drafts) where
  grows := h.grows.trans h'.grows
  holds := List.forall_mem_cons.mpr ⟨fun s hs => h'.grows.extends.holds (h.holds s hs), h'.holds⟩
  looks := by
    rw [List.map_cons, List.map_cons, h'.looks, (h'.grows.toTreeAll h.holds).trans h.trees]
    congr 1
    exact List.map_congr_left fun r hr => by rw [h.grows.trees_eq r.2 (hkept r hr)]
  keeps := by
    refine List.forall_mem_cons.mpr ⟨⟨_, List.mem_cons_self, rfl, fun y hy => ?_⟩, fun d hd => ?_⟩
    · obtain ⟨new, hids, -, hnew⟩ := h.ids
      exact (List.mem_append.mp (hids.subset hy)).imp_right fun hy => (hnew y hy).1
    · obtain ⟨r, hr, hdr, hkeeps⟩ := h'.keeps d hd
      exact ⟨r, List.mem_cons_of_mem _ hr, hdr, fun y hy => (hkeeps y hy).imp_right h.grows.size.trans⟩
  ids := by
    obtain ⟨new, hids, hnodup, hnew⟩ := h.ids
    obtain ⟨new', hids', hnodup', hnew'⟩ := h'.ids
    refine ⟨new ++ new', ?_, List.nodup_append.mpr ⟨hnodup, hnodup', ?_⟩, ?_⟩
    · rw [List.flatMap_cons, List.flatMap_cons]
      refine (hids.append hids').trans ?_
      rw [List.append_assoc, List.append_assoc]
      refine .append_left _ ?_
      rw [← List.append_assoc, ← List.append_assoc]
      exact .append_right _ List.perm_append_comm
    · rintro x hx _ hx' rfl
      exact absurd (hnew x hx).2 (Nat.not_lt_of_le (hnew' x hx').1)
    · refine List.forall_mem_append.mpr ⟨fun x hx => ?_, fun x hx => ?_⟩
      · exact ⟨(hnew x hx).1, (hnew x hx).2.trans_le h'.grows.size⟩
      · exact ⟨h.grows.size.trans (hnew' x hx).1, (hnew' x hx).2⟩

theorem exists_drawEdits (a : Arena) (rs : List (Nat × List Sketch))
    (hkept : ∀ r ∈ rs, ∀ s ∈ keepsAll r.2, a.Holds s) :
    ∃ drafts, Drafted a rs (a.drawEdits rs).1 drafts ∧ (a.drawEdits rs).2 = drafts.map draftEdit := by
  induction rs generalizing a with
  | nil => exact ⟨[], ⟨.refl a, by simp, rfl, by simp, [], .refl _, .nil, by simp⟩, rfl⟩
  | cons r rs ih =>
    obtain ⟨target, ss⟩ := r
    obtain ⟨hss, hrs⟩ := List.forall_mem_cons.mp hkept
    obtain ⟨drawn, hdrawn, hroots⟩ := exists_drawAll a ss hss
    obtain ⟨drafts, hdrafts, hedits⟩ := ih (a.drawAll ss).1 fun r hr s hs =>
      hdrawn.grows.extends.holds (hrs r hr s hs)
    refine ⟨(target, drawn) :: drafts, hdrawn.draft hdrafts hrs target, ?_⟩
    rw [List.map_cons, draftEdit, hroots, ← hedits]
    rfl

/-- Replacements that leave a tree: what each keeps comes from below the node that it is for, and no node is kept
twice. -/
structure Sound (t : IdTree) (rs : List (Nat × List Sketch)) : Prop where
  below : ∀ r ∈ rs, ∃ s ∈ t.nodes, s.root = r.1 ∧ ∀ u ∈ keepsAll r.2, u ∈ nodesAll s.children
  nodup : (rs.flatMap fun r => idsAll (keepsAll r.2)).Nodup

theorem Sound.target_mem (h : Sound t rs) {r : Nat × List Sketch} (hr : r ∈ rs) : r.1 ∈ t.ids := by
  obtain ⟨s, hs, hroot, -⟩ := h.below r hr
  exact hroot ▸ List.mem_map_of_mem hs

/-- Nodes may be replaced by new ones in any way. -/
theorem Sound.of_new (hids : ∀ r ∈ rs, r.1 ∈ t.ids) (hnew : ∀ r ∈ rs, keepsAll r.2 = []) : Sound t rs where
  below r hr := by
    obtain ⟨s, hs, hroot⟩ := Shape.exists_node (hids r hr)
    exact ⟨s, hs, hroot, by simp [hnew r hr]⟩
  nodup := by
    have hnone : (rs.flatMap fun r => idsAll (keepsAll r.2)) = [] :=
      List.flatMap_eq_nil_iff.mpr fun r hr => by rw [hnew r hr, idsAll_nil]
    rw [hnone]
    exact .nil

theorem Sound.holds (h : Sound t rs) (ht : a.Holds t) :
    ∀ r ∈ rs, ∀ s ∈ keepsAll r.2, a.Holds s := by
  intro r hr u hu
  obtain ⟨s, hs, -, hbelow⟩ := h.below r hr
  obtain ⟨v, hv, hu⟩ := mem_nodesAll.mp (hbelow u hu)
  exact ht.node (mem_nodes_trans (child_mem_nodes hs hv) hu)

theorem Sound.fits (h : Sound t rs) (hshape : a.Shape t) {r : Nat × List Sketch} (hr : r ∈ rs) {y : Nat}
    (hy : y ∈ idsAll (keepsAll r.2)) : r.1 ∈ t.up y ∧ y ≠ r.1 := by
  obtain ⟨s, hs, hroot, hbelow⟩ := h.below r hr
  obtain ⟨u, hu, hy⟩ := mem_idsAll.mp hy
  obtain ⟨v, hv, hu⟩ := mem_nodesAll.mp (hbelow u hu)
  have hin : y ∈ idsAll s.children := mem_idsAll.mpr ⟨v, hv, mem_ids_of_node hu hy⟩
  rw [← hroot]
  refine ⟨(hshape.mem_up_iff hs).mpr (mem_ids_of_below hin), ?_⟩
  rintro rfl
  exact root_not_mem_below (nodup_of_node hshape.nodup hs) hin

theorem Drafted.nodup (h : Drafted a rs b drafts) (hshape : a.Shape t) (hsound : Sound t rs) :
    (drafts.flatMap fun d => idsAll d.2).Nodup := by
  obtain ⟨new, hids, hnodup, hnew⟩ := h.ids
  refine hids.nodup_iff.mpr (List.nodup_append.mpr ⟨hsound.nodup, hnodup, ?_⟩)
  rintro x hx _ hx' rfl
  obtain ⟨r, hr, hx⟩ := List.mem_flatMap.mp hx
  obtain ⟨u, hu, hx⟩ := mem_idsAll.mp hx
  exact Nat.not_lt_of_le (hnew x hx').1 ((hsound.holds hshape.holds r hr u hu).lt_size hx)

/-- The tree that stands above a position in what was drawn. -/
def drawnAt (drafts : List (Nat × List IdTree)) (x : Nat) : IdTree :=
  ((drafts.flatMap (·.2)).find? (·.root == x)).getD (.node x [])

theorem idsAll_flatMap (drafts : List (Nat × List IdTree)) :
    idsAll (drafts.flatMap (·.2)) = drafts.flatMap fun d => idsAll d.2 := by
  induction drafts with
  | nil => rfl
  | cons d drafts ih => rw [List.flatMap_cons, idsAll_append, ih, List.flatMap_cons]

theorem drawnAt_root (hnodup : (drafts.flatMap fun d => idsAll d.2).Nodup) {d : Nat × List IdTree}
    (hd : d ∈ drafts) {s : IdTree} (hs : s ∈ d.2) : drawnAt drafts s.root = s := by
  rw [drawnAt, find?_root (by rwa [idsAll_flatMap]) (List.mem_flatMap.mpr ⟨d, hd, hs⟩), Option.getD_some]

theorem map_drawnAt (hnodup : (drafts.flatMap fun d => idsAll d.2).Nodup) {d : Nat × List IdTree}
    (hd : d ∈ drafts) : (d.2.map IdTree.root).map (drawnAt drafts) = d.2 := by
  rw [List.map_map]
  exact (List.map_congr_left fun s hs => drawnAt_root hnodup hd hs).trans (List.map_id _)

theorem Drafted.taken_looks (h : Drafted a rs b drafts) :
    (t.taken drafts).map (fun d => (d.1, toTreeAll b.element d.2)) =
      (t.taken rs).map fun r => (r.1, trees a.element r.2) := by
  have hdrafts := takenFrom_map (t := t) (fun d : Nat × List IdTree => toTreeAll b.element d.2) [] drafts
  have hrs := takenFrom_map (t := t) (fun r : Nat × List Sketch => trees a.element r.2) [] rs
  rw [h.looks] at hdrafts
  exact hdrafts.symm.trans hrs

/-- The accepted edits are those of the replacements that are taken. -/
theorem accepted_drafts (hnodup : t.ids.Nodup) (htargets : ∀ d ∈ drafts, d.1 ∈ t.ids) :
    t.accepted b (drafts.map draftEdit) = (t.taken drafts).map fun d => (d.1, draftEdit d) := by
  have hedits : ∀ e ∈ drafts.map draftEdit, e.target ∈ t.ids ∧ e.stopAt = none := by
    intro e he
    obtain ⟨d, hd, rfl⟩ := List.mem_map.mp he
    exact ⟨htargets d hd, rfl⟩
  rw [accepted, acceptedFrom_eq_takenFrom hnodup hedits, List.map_map]
  exact takenFrom_map draftEdit [] drafts

/-- What the accepted edits put in is what was drawn. -/
theorem grafts_drafts (hnodup : (drafts.flatMap fun d => idsAll d.2).Nodup) (id : Nat) :
    grafts (drawnAt drafts) ((t.taken drafts).map fun d => (d.1, draftEdit d)) id = lookup (t.taken drafts) id := by
  rw [grafts, lookup, List.find?_map, Option.map_map]
  cases hfind : (t.taken drafts).find? ((fun c => c.1 == id) ∘ fun d => (d.1, draftEdit d)) with
  | none =>
    have hnone : (t.taken drafts).find? (·.1 == id) = none := hfind
    rw [hnone]
    rfl
  | some d =>
    have hsome : (t.taken drafts).find? (·.1 == id) = some d := hfind
    have hd : d ∈ drafts := (takenFrom_sublist [] drafts).subset (List.mem_of_find?_eq_some hsome)
    rw [hsome]
    exact congrArg some (map_drawnAt hnodup hd)

theorem nodup_grafted (hnodup : (drafts.flatMap fun d => idsAll d.2).Nodup) :
    (((t.taken drafts).map fun d => (d.1, draftEdit d)).flatMap (graftedIds (drawnAt drafts))).Nodup := by
  have hsub := takenFrom_sublist (t := t) [] drafts
  have hids : ((t.taken drafts).map fun d => (d.1, draftEdit d)).flatMap (graftedIds (drawnAt drafts)) =
      (t.taken drafts).flatMap fun d => idsAll d.2 := by
    rw [List.flatMap_map]
    exact List.flatMap_congr fun d hd => congrArg idsAll (map_drawnAt hnodup (hsub.subset hd))
  rw [hids]
  exact hnodup.sublist (hsub.flatMap fun d => idsAll d.2)

/-- What was drawn can be put where it is meant for. -/
theorem Drafted.graft (h : Drafted a rs b drafts) (hshape : a.Shape t) (hsound : Sound t rs)
    {d : Nat × List IdTree} (hd : d ∈ drafts) {s : IdTree} (hs : s ∈ d.2) :
    Graft t b d.1 s.root (drawnAt drafts s.root) := by
  rw [drawnAt_root (h.nodup hshape hsound) hd hs]
  refine ⟨rfl, h.holds d hd s hs, fun y hy => ?_⟩
  obtain ⟨r, hr, hdr, hkeeps⟩ := h.keeps d hd
  rcases hkeeps y (mem_idsAll.mpr ⟨s, hs, hy⟩) with hy | hy
  · exact .inr (hdr ▸ hsound.fits hshape hr hy)
  · exact .inl fun hmem => Nat.not_lt_of_le hy (hshape.holds.lt_size hmem)

/-- What a plan that replaces nodes comes to: as many replacements are carried out as are taken, and the tree has
what these put in. -/
theorem replace_carryOut (hshape : a.Shape t) (hsound : Sound t rs) (changes : Nat → Bool) :
    ((Plan.replace rs changes).carryOut a).2 = changes (t.taken rs).length ∧
      ((Plan.replace rs changes).carryOut a).1.toTree =
        t.fill a.element (fun id => (lookup (t.taken rs) id).map (trees a.element)) ∧
      ∃ t', ((Plan.replace rs changes).carryOut a).1.Shape t' := by
  obtain ⟨drafts, hdrafts, hedits⟩ := exists_drawEdits a rs (hsound.holds hshape.holds)
  have hshape' := hdrafts.grows.extends.shape hshape
  have hbuild := hdrafts.grows.extends.build_eq hshape hdrafts.grows.generation
  have hnodup := hdrafts.nodup hshape hsound
  have htargets : ∀ d ∈ drafts, d.1 ∈ t.ids := by
    intro d hd
    obtain ⟨r, hr, hdr, -⟩ := hdrafts.keeps d hd
    exact hdr ▸ hsound.target_mem hr
  have hforest : ∀ e ∈ drafts.map draftEdit, ∀ id, t.located (a.drawEdits rs).1 e = some id →
      ∀ x ∈ e.replacement, Graft t (a.drawEdits rs).1 id x (drawnAt drafts x) := by
    intro e he id hlocated x hx
    obtain ⟨d, hd, rfl⟩ := List.mem_map.mp he
    obtain ⟨s, hs, rfl⟩ := List.mem_map.mp hx
    obtain rfl : d.1 = id := Option.some.inj ((located_target hshape.nodup (htargets d hd) rfl).symm.trans hlocated)
    exact hdrafts.graft hshape hsound hd hs
  obtain ⟨hresult, -⟩ := edit_substitutes hshape' hforest
  rw [accepted_drafts hshape.nodup htargets, hbuild, ← hedits] at hresult
  have hlength := congrArg List.length (hdrafts.taken_looks (t := t))
  rw [List.length_map, List.length_map] at hlength
  refine ⟨?_, hresult.toTree.trans ?_, _, hresult.shape (nodup_grafted hnodup)⟩
  · exact congrArg changes (hresult.count.trans ((List.length_map _).trans hlength))
  · have helement : ∀ id ∈ t.ids, (a.drawEdits rs).1.element id = a.element id := fun id hid =>
      hdrafts.grows.element (hshape.holds.lt_size hid)
    rw [toTree_substitute _ t helement]
    congr 1
    funext id
    rw [grafts_drafts hnodup, ← lookup_map, hdrafts.taken_looks, lookup_map]

end
end Arena
end Unscramble
