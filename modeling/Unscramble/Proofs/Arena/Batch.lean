import Unscramble.Proofs.Arena.Accepted

/-! What a batch of edits does to the lists of children. The edits are carried out one after the other, each
in a list that earlier ones may have changed, and in the end every list has the nodes of the accepted edits
in the places of the nodes that these act on. -/
namespace Unscramble

open IdTree Arena

/-! ### Lists of children -/

namespace Editing

/-- What stands in the place of a node. -/
def spliced (chosen : List (Nat × Edit)) (id : Nat) : List Nat :=
  ((chosen.find? (·.1 == id)).map (·.2.replacement)).getD [id]

section
variable {chosen : List (Nat × Edit)} {id x : Nat} {edit : Edit}

theorem spliced_of_not_mem (h : id ∉ chosen.map Prod.fst) : spliced chosen id = [id] := by
  have hnone : chosen.find? (·.1 == id) = none := by
    refine List.find?_eq_none.mpr fun c hc heq => h ?_
    exact List.mem_map.mpr ⟨c, hc, by simpa using heq⟩
  rw [spliced, hnone, Option.map_none, Option.getD_none]

theorem mem_spliced (h : x ∈ spliced chosen id) :
    x = id ∨ ∃ c ∈ chosen, c.1 = id ∧ x ∈ c.2.replacement := by
  unfold spliced at h
  cases hfind : chosen.find? (·.1 == id) with
  | none => exact .inl (by simpa [hfind] using h)
  | some c =>
    have hid : c.1 = id := by simpa using List.find?_some hfind
    exact .inr ⟨c, List.mem_of_find?_eq_some hfind, hid, by simpa [hfind] using h⟩

theorem find?_of_mem (hnodup : (chosen.map Prod.fst).Nodup) (h : (id, edit) ∈ chosen) :
    chosen.find? (·.1 == id) = some (id, edit) := by
  induction chosen with
  | nil => cases h
  | cons c chosen ih =>
    rw [List.map_cons, List.nodup_cons] at hnodup
    rcases List.mem_cons.mp h with rfl | h
    · simp
    · have hne : c.1 ≠ id := by
        rintro rfl
        exact hnodup.1 (List.mem_map.mpr ⟨_, h, rfl⟩)
      rw [List.find?_cons, show (c.1 == id) = false by simpa using hne]
      exact ih hnodup.2 h

theorem spliced_of_mem (hnodup : (chosen.map Prod.fst).Nodup) (h : (id, edit) ∈ chosen) :
    spliced chosen id = edit.replacement := by
  rw [spliced, find?_of_mem hnodup h, Option.map_some, Option.getD_some]

theorem spliced_append (h : id ∉ chosen.map Prod.fst) (x : Nat) :
    spliced (chosen ++ [(id, edit)]) x = if x = id then edit.replacement else spliced chosen x := by
  unfold spliced
  rw [List.find?_append]
  split
  next hx =>
    subst hx
    have hnone : chosen.find? (·.1 == x) = none := List.find?_eq_none.mpr fun c hc heq =>
      h (List.mem_map.mpr ⟨c, hc, by simpa using heq⟩)
    simp [hnone]
  next hx =>
    cases chosen.find? (·.1 == x) <;> simp [Ne.symm hx]

theorem replaceItem_of_not_mem {item : Nat} {others xs : List Nat} (h : item ∉ xs) (ys : List Nat) :
    replaceItem item others (xs ++ item :: ys) = xs ++ (others ++ ys) := by
  induction xs with
  | nil => rw [List.nil_append, replaceItem, if_pos rfl, List.nil_append]
  | cons x xs ih =>
    rw [List.mem_cons, not_or] at h
    rw [List.cons_append, replaceItem, if_neg (Ne.symm h.1), ih h.2, List.cons_append]

/-- The place of an item can still be found after others were replaced by what is not that item. -/
theorem replaceItem_flatMap {item : Nat} {others xs : List Nat} {f : Nat → List Nat} (hnodup : xs.Nodup)
    (hmem : item ∈ xs) (hself : f item = [item]) (hothers : ∀ x ∈ xs, x ≠ item → item ∉ f x) :
    replaceItem item others (xs.flatMap f) = xs.flatMap fun x => if x = item then others else f x := by
  obtain ⟨before, after, rfl⟩ := List.append_of_mem hmem
  rw [List.nodup_append, List.nodup_cons] at hnodup
  have hbefore : item ∉ before := fun h => hnodup.2.2 item h item List.mem_cons_self rfl
  have hsame {ys : List Nat} (hys : item ∉ ys) :
      (ys.flatMap fun x => if x = item then others else f x) = ys.flatMap f :=
    List.flatMap_congr fun y hy => if_neg (ne_of_mem_of_not_mem hy hys)
  have hfree : item ∉ before.flatMap f := by
    rw [List.mem_flatMap]
    rintro ⟨x, hx, hitem⟩
    exact hothers x (List.mem_append_left _ hx) (ne_of_mem_of_not_mem hx hbefore) hitem
  rw [List.flatMap_append, List.flatMap_cons, hself, List.singleton_append, replaceItem_of_not_mem hfree,
    List.flatMap_append, List.flatMap_cons, hsame hbefore, hsame hnodup.2.1.1, if_pos rfl]

end
end Editing

/-! ### One edit -/

namespace Arena

theorem node?_modifyNode (a : Arena) (id x : Nat) (f : ArenaNode → ArenaNode) :
    (a.modifyNode id f).node? x = if x = id then (a.node? x).map f else a.node? x := by
  simp only [node?, modifyNode, Array.getElem?_modify, eq_comm]

theorem node?_modifyChildren (a : Arena) (id x : Nat) (f : List Nat → List Nat) :
    (a.modifyChildren id f).node? x =
      if x = id then (a.node? x).map fun n => { n with children := f n.children } else a.node? x :=
  node?_modifyNode a id x _

theorem children_modifyChildren (a : Arena) {id : Nat} (hid : id < a.nodes.size) (x : Nat)
    (f : List Nat → List Nat) :
    (a.modifyChildren id f).children x = if x = id then f (a.children x) else a.children x := by
  unfold children
  rw [node?_modifyChildren]
  split
  next hx =>
    have hsome : a.node? x = some a.nodes[id] := by rw [hx, node?, Array.getElem?_eq_getElem hid]
    simp [hsome]
  next => rfl

theorem element_modifyChildren (a : Arena) (id x : Nat) (f : List Nat → List Nat) :
    (a.modifyChildren id f).element x = a.element x := by
  unfold element
  rw [node?_modifyChildren]
  split
  next => cases a.node? x <;> rfl
  next => rfl

theorem size_modifyChildren (a : Arena) (id : Nat) (f : List Nat → List Nat) :
    (a.modifyChildren id f).nodes.size = a.nodes.size := by
  simp [modifyChildren, modifyNode]

end Arena

namespace Editing

/-- Nodes that can be put in the place of a node: out of reach, or strictly below it. -/
def Fits (t : IdTree) (id : Nat) (new : List Nat) : Prop := ∀ x ∈ new, x ∉ t.ids ∨ id ∈ t.up x ∧ x ≠ id

/-- How far a batch has come when some edits were accepted. -/
structure Carried (a : Arena) (t : IdTree) (chosen : List (Nat × Edit)) (state : Editing) : Prop where
  touched : state.touched = (chosen.map Prod.fst).reverse
  root : state.arena.root = a.root
  generation : state.arena.generation = a.generation + chosen.length
  size : state.arena.nodes.size = a.nodes.size
  element : ∀ id, state.arena.element id = a.element id
  outside : ∀ p ∉ t.ids, state.arena.children p = a.children p
  inside : ∀ p ∈ t.ids, state.arena.children p = (a.children p).flatMap (spliced chosen)

section
variable {a : Arena} {t : IdTree} {chosen : List (Nat × Edit)} {state : Editing} {edit : Edit} {id : Nat}

theorem carried_start (a : Arena) (t : IdTree) : Carried a t [] { arena := a } where
  touched := rfl
  root := rfl
  generation := rfl
  size := rfl
  element _ := rfl
  outside _ _ := rfl
  inside p _ := by
    have hself : spliced [] = fun id => [id] := rfl
    rw [hself, List.flatMap_singleton']

theorem Carried.mem_touched (h : Carried a t chosen state) {x : Nat} :
    x ∈ state.touched ↔ ∃ c ∈ chosen, c.1 = x := by
  rw [h.touched, List.mem_reverse, List.mem_map]

theorem Carried.touched_mem (hshape : a.Shape t) (h : Carried a t chosen state) (hchosen : Separate t a chosen) :
    ∀ x ∈ state.touched, x ∈ t.ids := by
  intro x hx
  obtain ⟨c, hc, rfl⟩ := h.mem_touched.mp hx
  exact located_mem hshape.nodup (hchosen.located c hc)

/-- An edit is skipped if it has no place to act on or acts where others did. -/
theorem step_skips (hshape : a.Shape t) (h : Carried a t chosen state) (hchosen : Separate t a chosen)
    (hskip : ∀ id, t.located a edit = some id → id = t.root ∨ ∃ other ∈ state.touched, t.Overlap id other) :
    step (ParentIndex.build a) state edit = state := by
  have hkind (x : Nat) : state.arena.kind x = a.kind x := by rw [kind, kind, h.element]
  rw [step, ParentIndex.locate?_eq_located hshape h.root hkind]
  cases hlocated : t.located a edit with
  | none => rfl
  | some id =>
    rcases hskip id hlocated with rfl | hover
    · simp [ParentIndex.parent?_root hshape]
    · have hid := located_mem hshape.nodup hlocated
      have hoverlaps := (ParentIndex.overlaps_iff hshape (h.touched_mem hshape hchosen) hid).mpr hover
      cases hparent : (ParentIndex.build a).parent? id with
      | none => simp [hparent]
      | some p => simp [hparent, hoverlaps]

/-- No edit that was accepted before puts a node that another one acts on somewhere else. -/
theorem not_mem_spliced (hid : id ∈ t.ids) (hfits : ∀ c ∈ chosen, Fits t c.1 c.2.replacement)
    (hfree : ∀ c ∈ chosen, ¬t.Overlap c.1 id) {x : Nat} (hx : x ≠ id) : id ∉ spliced chosen x := by
  intro hmem
  rcases mem_spliced hmem with rfl | ⟨c, hc, -, hnew⟩
  · exact hx rfl
  · rcases hfits c hc id hnew with hout | ⟨hup, -⟩
    · exact hout hid
    · exact hfree c hc (.inl hup)

/-- What the accepted edits make of the lists of children when another one is carried out in one of them. -/
theorem inside_splice (hshape : a.Shape t) {p : Nat} (hp : p ∈ t.ids)
    (hchild : id ∈ a.children p) (hnew : id ∉ chosen.map Prod.fst)
    (hothers : ∀ x, x ≠ id → id ∉ spliced chosen x) {q : Nat} (hq : q ∈ t.ids) :
    (if q = p then replaceItem id edit.replacement ((a.children q).flatMap (spliced chosen))
      else (a.children q).flatMap (spliced chosen)) =
        (a.children q).flatMap (spliced (chosen ++ [(id, edit)])) := by
  have hspliced : spliced (chosen ++ [(id, edit)]) =
      fun x => if x = id then edit.replacement else spliced chosen x := funext (spliced_append hnew)
  rw [hspliced]
  split
  next heq =>
    subst heq
    exact replaceItem_flatMap (hshape.children_nodup hp) hchild (spliced_of_not_mem hnew)
      fun x _ hx => hothers x hx
  next hne =>
    have hfree : id ∉ a.children q := fun h => hne (hshape.parent_unique hq hp h hchild)
    exact (List.flatMap_congr fun x hx => (if_neg (ne_of_mem_of_not_mem hx hfree)).symm)

/-- An edit that is accepted puts its nodes in the place of the one that it acts on. -/
theorem step_accepts (hshape : a.Shape t) (h : Carried a t chosen state) (hchosen : Separate t a chosen)
    (hfits : ∀ c ∈ chosen, Fits t c.1 c.2.replacement) (hlocated : t.located a edit = some id)
    (hroot : id ≠ t.root) (hfree : ∀ c ∈ chosen, ¬t.Overlap c.1 id) :
    Carried a t (chosen ++ [(id, edit)]) (step (ParentIndex.build a) state edit) := by
  have hid := located_mem hshape.nodup hlocated
  obtain ⟨p, hparent⟩ := ParentIndex.exists_parent? hshape hid hroot
  obtain ⟨hp, hchild⟩ := (ParentIndex.parent?_eq_some hshape).mp hparent
  have hnew : id ∉ chosen.map Prod.fst := by
    rw [List.mem_map]
    rintro ⟨c, hc, rfl⟩
    exact hfree c hc (.self hshape.nodup hid)
  have hquiet : overlaps state.touched (ParentIndex.build a) id = false := by
    rw [← Bool.not_eq_true, ParentIndex.overlaps_iff hshape (h.touched_mem hshape hchosen) hid]
    rintro ⟨other, hother, hover⟩
    obtain ⟨c, hc, rfl⟩ := h.mem_touched.mp hother
    exact hfree c hc hover.symm
  have hfound : id ∈ state.arena.children p := by
    rw [h.inside p hp, List.mem_flatMap]
    exact ⟨id, hchild, by simp [spliced_of_not_mem hnew]⟩
  have hstep : step (ParentIndex.build a) state edit =
      ⟨state.arena.modifyChildren p (replaceItem id edit.replacement), id :: state.touched⟩ := by
    have hkind (x : Nat) : state.arena.kind x = a.kind x := by rw [kind, kind, h.element]
    rw [step, ParentIndex.locate?_eq_located hshape h.root hkind, hlocated]
    simp [hparent, hquiet, hfound]
  have hsize : p < state.arena.nodes.size := h.size ▸ hshape.holds.lt_size hp
  rw [hstep]
  constructor
  case touched => simp [h.touched]
  case root => exact h.root
  case generation => simp [modifyChildren, h.generation, Nat.add_assoc]
  case size => rw [size_modifyChildren, h.size]
  case element => exact fun x => (element_modifyChildren ..).trans (h.element x)
  case outside =>
    intro q hq
    rw [children_modifyChildren _ hsize, if_neg (ne_of_mem_of_not_mem hp hq).symm, h.outside q hq]
  case inside =>
    intro q hq
    rw [children_modifyChildren _ hsize, h.inside q hq]
    exact inside_splice hshape hp hchild hnew (fun _ => not_mem_spliced hid hfits hfree) hq

/-! ### All edits -/

/-- A batch carries out the edits that are accepted. -/
theorem foldl_carried {edits : List Edit} (hshape : a.Shape t) (h : Carried a t chosen state)
    (hchosen : Separate t a chosen) (hfits : ∀ c ∈ chosen, Fits t c.1 c.2.replacement)
    (hedits : ∀ edit ∈ edits, ∀ id, t.located a edit = some id → Fits t id edit.replacement) :
    Carried a t (chosen ++ t.acceptedFrom a state.touched edits)
      (edits.foldl (step (ParentIndex.build a)) state) := by
  induction edits generalizing chosen state with
  | nil => simpa [acceptedFrom] using h
  | cons edit edits ih =>
    obtain ⟨hedit, hedits⟩ := List.forall_mem_cons.mp hedits
    rw [List.foldl_cons]
    by_cases hskip : ∀ id, t.located a edit = some id →
        id = t.root ∨ ∃ other ∈ state.touched, t.Overlap id other
    · rw [step_skips hshape h hchosen hskip]
      have hnone : t.acceptedFrom a state.touched (edit :: edits) = t.acceptedFrom a state.touched edits := by
        rw [acceptedFrom]
        split
        next => rfl
        next id hlocated => rw [if_pos (hskip id hlocated)]
      rw [hnone]
      exact ih h hchosen hfits hedits
    · simp only [not_forall, not_or, not_exists] at hskip
      obtain ⟨id, hlocated, hroot, hquiet⟩ := hskip
      have hfree : ∀ c ∈ chosen, ¬t.Overlap c.1 id := fun c hc hover =>
        hquiet c.1 ⟨h.mem_touched.mpr ⟨c, hc, rfl⟩, hover.symm⟩
      have hstep := step_accepts hshape h hchosen hfits hlocated hroot hfree
      have hnext : t.acceptedFrom a state.touched (edit :: edits) = (id, edit) ::
          t.acceptedFrom a (step (ParentIndex.build a) state edit).touched edits := by
        have htouched : (step (ParentIndex.build a) state edit).touched = id :: state.touched := by
          rw [hstep.touched, h.touched]
          simp
        rw [acceptedFrom, hlocated, htouched]
        simp [hroot, hquiet]
      rw [hnext, List.append_cons]
      exact ih hstep (hchosen.append hlocated hroot hfree)
        (List.forall_mem_append.mpr ⟨hfits, by simpa using hedit id hlocated⟩) hedits

end
end Editing
end Unscramble
