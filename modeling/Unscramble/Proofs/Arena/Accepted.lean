import Unscramble.Proofs.Arena.Index

/-! The edits of a batch that are carried out. An edit acts on its target or on an ancestor of it, and it is
accepted if no earlier edit that was accepted acts on the same node, above it or below it. -/
namespace Unscramble

namespace IdTree

/-- The node that an edit acts on: its target, or the nearest ancestor of the kind where it stops. -/
def located (t : IdTree) (a : Arena) (edit : Edit) : Option Nat :=
  (t.up edit.target).find? fun id => edit.stopAt.all fun kind => (a.kind id).alike kind

/-- Whether two nodes are the same or one of them stands above the other. -/
def Overlap (t : IdTree) (x y : Nat) : Prop := x ∈ t.up y ∨ y ∈ t.up x

instance (t : IdTree) (x y : Nat) : Decidable (t.Overlap x y) :=
  inferInstanceAs (Decidable (x ∈ t.up y ∨ y ∈ t.up x))

/-- The accepted edits of a batch, each with the node that it acts on, behind those that act on some other
nodes. The root is no place for an edit. -/
def acceptedFrom (t : IdTree) (a : Arena) (before : List Nat) : List Edit → List (Nat × Edit)
  | [] => []
  | edit :: edits =>
    match t.located a edit with
    | none => acceptedFrom t a before edits
    | some id =>
      if id = t.root ∨ ∃ other ∈ before, t.Overlap id other then acceptedFrom t a before edits
      else (id, edit) :: acceptedFrom t a (id :: before) edits

def accepted (t : IdTree) (a : Arena) (edits : List Edit) : List (Nat × Edit) := t.acceptedFrom a [] edits

/-! ### The way up -/

theorem mem_ids_of_mem_up {t : IdTree} {x y : Nat} (hnodup : t.ids.Nodup) (h : y ∈ t.up x) : y ∈ t.ids := by
  induction t using children_induction with
  | h top below ih =>
    by_cases hx : x ∈ (node top below).ids
    · rw [ids_node, List.mem_cons] at hx ⊢
      rcases hx with rfl | hx
      · have hself : y ∈ [x] := up_root (node x below) ▸ h
        exact .inl (by simpa using hself)
      · obtain ⟨t, ht, hx⟩ := mem_idsAll.mp hx
        obtain ⟨path, hpath⟩ := up_eq_cons (nodup_child hnodup ht) hx
        rw [up_node hnodup ht hx (by simp [hpath]), List.mem_append, List.mem_singleton] at h
        exact h.symm.imp id fun h => mem_idsAll.mpr ⟨t, ht, ih t ht (nodup_child hnodup ht) h⟩
    · rw [up_eq_nil hx] at h
      cases h

theorem mem_ids_of_up {t : IdTree} {x y : Nat} (h : y ∈ t.up x) : x ∈ t.ids := by
  by_contra hx
  rw [up_eq_nil hx] at h
  cases h

theorem mem_up_self {t : IdTree} {x : Nat} (hnodup : t.ids.Nodup) (hx : x ∈ t.ids) : x ∈ t.up x := by
  obtain ⟨path, hpath⟩ := up_eq_cons hnodup hx
  rw [hpath]
  exact List.mem_cons_self

theorem up_nodup {t : IdTree} (hnodup : t.ids.Nodup) (x : Nat) : (t.up x).Nodup := by
  induction t using children_induction with
  | h top below ih =>
    by_cases hx : x ∈ (node top below).ids
    · rw [ids_node, List.mem_cons] at hx
      rcases hx with rfl | hx
      · have hself : (node x below).up x = [x] := up_root (node x below)
        simp [hself]
      · obtain ⟨t, ht, hx⟩ := mem_idsAll.mp hx
        have hchild := nodup_child hnodup ht
        obtain ⟨path, hpath⟩ := up_eq_cons hchild hx
        rw [up_node hnodup ht hx (by simp [hpath]), List.nodup_append]
        refine ⟨ih t ht hchild, List.nodup_singleton _, ?_⟩
        rintro y hy _ hz rfl
        rw [ids_node, List.nodup_cons] at hnodup
        exact hnodup.1 (mem_idsAll.mpr ⟨t, ht, List.mem_singleton.mp hz ▸ mem_ids_of_mem_up hchild hy⟩)
    · simp [up_eq_nil hx]

theorem Overlap.symm {t : IdTree} {x y : Nat} (h : t.Overlap x y) : t.Overlap y x := Or.symm h

theorem Overlap.self {t : IdTree} {x : Nat} (hnodup : t.ids.Nodup) (hx : x ∈ t.ids) : t.Overlap x x :=
  .inl (mem_up_self hnodup hx)

theorem located_mem {t : IdTree} {a : Arena} {edit : Edit} {id : Nat} (hnodup : t.ids.Nodup)
    (h : t.located a edit = some id) : id ∈ t.ids :=
  mem_ids_of_mem_up hnodup (List.mem_of_find?_eq_some h)

end IdTree

/-! ### What the index says -/

namespace ParentIndex

open IdTree Arena

section
variable {a b : Arena} {t : IdTree}

theorem locate?_eq_located (h : a.Shape t) (hroot : b.root = a.root) (hkind : ∀ id, b.kind id = a.kind id)
    (edit : Edit) : (build a).locate? b edit.target edit.stopAt = t.located a edit := by
  unfold locate? located enclosing?
  simp only [hkind, hroot, ← h.root, ancestors_eq h]
  by_cases htarget : edit.target ∈ t.ids
  · obtain ⟨path, hpath⟩ := up_eq_cons h.nodup htarget
    have hreach : (edit.target != t.root && ((build a).parent? edit.target).isNone) = false := by
      by_cases hself : edit.target = t.root
      · simp [hself]
      · obtain ⟨p, hp⟩ := exists_parent? h htarget hself
        simp [hp]
    rw [hreach, if_neg Bool.false_ne_true, hpath, List.tail_cons, List.find?_cons]
    cases edit.stopAt with
    | none => rfl
    | some kind => cases hkind : (a.kind edit.target).alike kind <;> simp [hkind]
  · have hself : edit.target ≠ t.root := fun hself => htarget (hself ▸ root_mem_ids t)
    simp [hself, parent?_eq_none h htarget, up_eq_nil htarget]

theorem overlaps_iff (h : a.Shape t) {touched : List Nat} {id : Nat} (htouched : ∀ x ∈ touched, x ∈ t.ids)
    (hid : id ∈ t.ids) :
    Editing.overlaps touched (build a) id = true ↔ ∃ other ∈ touched, t.Overlap id other := by
  rw [Editing.overlaps, List.any_eq_true]
  refine exists_congr fun other => and_congr_right fun hother => ?_
  rw [Bool.or_eq_true, isWithin_iff h hid, Overlap, or_comm]
  have hself : id ∈ t.up other ↔ id = other ∨ (build a).isWithin other id = true := by
    rw [← isWithin_iff h (htouched other hother), Bool.or_eq_true, beq_iff_eq]
  rw [hself]
  constructor
  · exact fun hor => hor.imp_left .inr
  · rintro ((rfl | hwithin) | hup)
    · exact .inr (mem_up_self h.nodup hid)
    · exact .inl hwithin
    · exact .inr hup

end
end ParentIndex

/-! ### Batches whose edits are all accepted -/

namespace IdTree

section
variable {t : IdTree} {a : Arena} {before : List Nat} {edits : List Edit}

/-- Edits that can be carried out together, each with the node that it acts on. -/
structure Separate (t : IdTree) (a : Arena) (chosen : List (Nat × Edit)) : Prop where
  located : ∀ c ∈ chosen, t.located a c.2 = some c.1
  ne_root : ∀ c ∈ chosen, c.1 ≠ t.root
  apart : chosen.Pairwise fun c d => ¬t.Overlap c.1 d.1

theorem acceptedFrom_cases {c : Nat × Edit} (h : c ∈ t.acceptedFrom a before edits) :
    c.2 ∈ edits ∧ t.located a c.2 = some c.1 ∧ c.1 ≠ t.root ∧ ∀ other ∈ before, ¬t.Overlap c.1 other := by
  induction edits generalizing before with
  | nil => cases h
  | cons edit edits ih =>
    rw [acceptedFrom] at h
    split at h
    next => exact (ih h).imp_left (List.mem_cons_of_mem _)
    next id hlocated =>
      split at h
      next => exact (ih h).imp_left (List.mem_cons_of_mem _)
      next hfree =>
        rw [not_or, not_exists] at hfree
        rcases List.mem_cons.mp h with rfl | h
        · exact ⟨List.mem_cons_self, hlocated, hfree.1, fun other hother hover =>
            hfree.2 other ⟨hother, hover⟩⟩
        · obtain ⟨hmem, hc, hroot, hbefore⟩ := ih h
          exact ⟨List.mem_cons_of_mem _ hmem, hc, hroot, fun other hother =>
            hbefore other (List.mem_cons_of_mem _ hother)⟩

theorem acceptedFrom_apart (t : IdTree) (a : Arena) (before : List Nat) (edits : List Edit) :
    (t.acceptedFrom a before edits).Pairwise fun c d => ¬t.Overlap c.1 d.1 := by
  induction edits generalizing before with
  | nil => exact .nil
  | cons edit edits ih =>
    rw [acceptedFrom]
    split
    next => exact ih before
    next id hlocated =>
      split
      next => exact ih before
      next =>
        refine .cons (fun c hc hover => ?_) (ih (id :: before))
        exact (acceptedFrom_cases hc).2.2.2 id List.mem_cons_self hover.symm

theorem accepted_separate (t : IdTree) (a : Arena) (edits : List Edit) : Separate t a (t.accepted a edits) where
  located _ hc := (acceptedFrom_cases hc).2.1
  ne_root _ hc := (acceptedFrom_cases hc).2.2.1
  apart := acceptedFrom_apart t a [] edits

theorem Separate.perm {chosen chosen' : List (Nat × Edit)} (h : Separate t a chosen)
    (hperm : chosen'.Perm chosen) : Separate t a chosen' where
  located c hc := h.located c (hperm.mem_iff.mp hc)
  ne_root c hc := h.ne_root c (hperm.mem_iff.mp hc)
  apart := (hperm.pairwise_iff fun hover hsymm => hover hsymm.symm).mpr h.apart

theorem Separate.append {chosen : List (Nat × Edit)} {id : Nat} {edit : Edit} (h : Separate t a chosen)
    (hlocated : t.located a edit = some id) (hroot : id ≠ t.root) (hfree : ∀ c ∈ chosen, ¬t.Overlap c.1 id) :
    Separate t a (chosen ++ [(id, edit)]) where
  located := List.forall_mem_append.mpr ⟨h.located, by simpa using hlocated⟩
  ne_root := List.forall_mem_append.mpr ⟨h.ne_root, by simpa using hroot⟩
  apart := List.pairwise_append.mpr ⟨h.apart, List.pairwise_singleton _ _, by simpa using hfree⟩

/-- Of edits that can be carried out together all are accepted. -/
theorem acceptedFrom_separate {chosen : List (Nat × Edit)} (h : Separate t a chosen)
    (hbefore : ∀ c ∈ chosen, ∀ other ∈ before, ¬t.Overlap c.1 other) :
    t.acceptedFrom a before (chosen.map Prod.snd) = chosen := by
  induction chosen generalizing before with
  | nil => rfl
  | cons c chosen ih =>
    obtain ⟨id, edit⟩ := c
    obtain ⟨hlocated, hlocateds⟩ := List.forall_mem_cons.mp h.located
    obtain ⟨hroot, hroots⟩ := List.forall_mem_cons.mp h.ne_root
    obtain ⟨hfree, hfrees⟩ := List.forall_mem_cons.mp hbefore
    obtain ⟨hapart, haparts⟩ := List.pairwise_cons.mp h.apart
    have hchosen : ¬(id = t.root ∨ ∃ other ∈ before, t.Overlap id other) := by
      rintro (heq | ⟨other, hother, hover⟩)
      · exact hroot heq
      · exact hfree other hother hover
    have hlocated : t.located a edit = some id := hlocated
    rw [List.map_cons, acceptedFrom, hlocated]
    simp only [hchosen, if_false]
    rw [ih ⟨hlocateds, hroots, haparts⟩ fun c hc => List.forall_mem_cons.mpr
      ⟨fun hover => hapart c hc hover.symm, hfrees c hc⟩]

end
end IdTree
end Unscramble
