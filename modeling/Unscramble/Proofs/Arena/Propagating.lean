import Unscramble.Proofs.Arena.Outermost
import Unscramble.Proofs.ChangeFlag
import Unscramble.Proofs.Propagation.Filling

/-! Literals that are put in the places of variables of an arena. The walk goes through the tree that the arena
stands for, and what it has changed there are variables, which are replaced in one batch. No variable stands below
another, so all of them are. -/
namespace Unscramble

open Simplify

namespace Tree

mutual

/-- The same tree, but for what stands in the places of variables. -/
def SameBeside : Tree → Tree → Prop
  | .node e cs, .node e' cs' => e.kind = .variableRef ∨ e' = e ∧ SameBesideAll cs cs'

def SameBesideAll : List Tree → List Tree → Prop
  | [], [] => True
  | t :: ts, u :: us => SameBeside t u ∧ SameBesideAll ts us
  | _, _ => False

end

mutual

theorem SameBeside.refl : (t : Tree) → SameBeside t t
  | .node _ cs => .inr ⟨rfl, SameBesideAll.refl cs⟩

theorem SameBesideAll.refl : (ts : List Tree) → SameBesideAll ts ts
  | [] => trivial
  | t :: ts => ⟨SameBeside.refl t, SameBesideAll.refl ts⟩

end
end Tree

namespace Simplify

open Unscramble.Tree

mutual

/-- The walk changes nothing but variables. -/
theorem walk_sameBeside {around : Surroundings} {site : Option Site} {known : Known} : (t : Tree) →
    SameBeside t (walk around site known t).2
  | .node e children => by
    unfold walk
    split
    case h_1 =>
      match children with
      | target :: value :: rest => exact .inr ⟨rfl, .refl target, walk_sameBeside value, .refl rest⟩
      | [] | [_] => exact .refl _
    case h_2 => exact .refl _
    case h_3 =>
      match children with
      | item :: body :: more => exact .inr ⟨rfl, .refl item, walk_sameBeside body, walkFirst_sameBeside more⟩
      | [] | [_] => exact .refl _
    case h_4 =>
      match children with
      | first :: rest => exact .inr ⟨rfl, walk_sameBeside first, walkAll_sameBeside rest⟩
      | [] => exact .refl _
    case h_5 => exact .inr ⟨rfl, walkAll_sameBeside children⟩
    case h_6 => exact .inr ⟨rfl, walkArms_sameBeside children⟩
    case h_7 => exact .inr ⟨rfl, walkAll_sameBeside children⟩
    case h_8 => exact .inr ⟨rfl, walkAll_sameBeside children⟩
    case h_9 hread =>
      generalize (readVariable around site (.node e children) known).2 = u
      obtain ⟨e', cs'⟩ := u
      exact .inl (kind_of_flowOf_read hread)
    case h_10 => exact .inr ⟨rfl, walkAll_sameBeside children⟩

theorem walkAll_sameBeside {around : Surroundings} {holder : Holder} {i : Nat} {known : Known} :
    (ts : List Tree) → SameBesideAll ts (walkAll around holder i known ts).2
  | [] => trivial
  | t :: ts => ⟨walk_sameBeside t, walkAll_sameBeside ts⟩

theorem walkFirst_sameBeside {around : Surroundings} {holder : Holder} {i : Nat} {known : Known} :
    (ts : List Tree) → SameBesideAll ts (walkFirst around holder i known ts).2
  | [] => trivial
  | t :: ts => ⟨walk_sameBeside t, .refl ts⟩

theorem walkParts_sameBeside {around : Surroundings} {holder : Holder} {i : Nat} {known : Known} :
    (ts : List Tree) → SameBesideAll ts (walkParts around holder i known ts).2
  | [] => trivial
  | t :: ts => ⟨walk_sameBeside t, walkParts_sameBeside ts⟩

theorem walkClauses_sameBeside {around : Surroundings} {holder : Holder} {i : Nat} {known : Known} :
    (ts : List Tree) → SameBesideAll ts (walkClauses around holder i known ts).2
  | [] => trivial
  | .node _ parts :: ts => ⟨.inr ⟨rfl, walkParts_sameBeside parts⟩, walkClauses_sameBeside ts⟩

theorem walkArms_sameBeside {around : Surroundings} {holder : Holder} {i : Nat} {known : Known} :
    (ts : List Tree) → SameBesideAll ts (walkArms around holder i known ts).2
  | [] => trivial
  | .node e children :: ts => by
    unfold walkArms
    by_cases hclauses : (e.kind == .clauses || e.kind == .catchClauses) = true
    · simp only [hclauses, if_true]
      exact ⟨.inr ⟨rfl, walkClauses_sameBeside children⟩, walkArms_sameBeside ts⟩
    · simp only [hclauses, Bool.false_eq_true, if_false]
      exact ⟨walk_sameBeside (.node e children), walkArms_sameBeside ts⟩

end
end Simplify

namespace IdTree

open Arena Arena.fillings

section
variable {f : Nat → Element} {a : Arena} {t : IdTree} {new : Nat → Option (List Tree)}

mutual

theorem fillings_subset : (u : IdTree) → (v : Tree) → ∀ r ∈ fillings f u v, r.1 ∈ u.ids
  | .node id below, .node e filled => by
    intro r hr
    rw [fillings] at hr
    split at hr
    next =>
      split at hr
      next => simp at hr
      next =>
        obtain rfl := List.mem_singleton.mp hr
        exact root_mem_ids (.node id below)
    next =>
      rw [ids_node]
      exact List.mem_cons_of_mem _ (fillingsAll_subset below filled r hr)

theorem fillingsAll_subset : (us : List IdTree) → (vs : List Tree) →
    ∀ r ∈ fillingsAll f us vs, r.1 ∈ idsAll us
  | [], _ => by simp [fillingsAll]
  | _ :: _, [] => by simp [fillingsAll]
  | u :: us, v :: vs => by
    intro r hr
    rw [fillingsAll, List.mem_append] at hr
    rw [idsAll_cons, List.mem_append]
    exact hr.imp (fillings_subset u v r) (fillingsAll_subset us vs r)

end

mutual

/-- What is put in the places of variables is new. -/
theorem fillings_new : (u : IdTree) → (v : Tree) → ∀ r ∈ fillings f u v, Sketch.keepsAll r.2 = []
  | .node id below, .node e filled => by
    intro r hr
    rw [fillings] at hr
    split at hr
    next =>
      split at hr
      next => simp at hr
      next =>
        obtain rfl := List.mem_singleton.mp hr
        exact Sketch.keepsAll_ofTrees [.node e filled]
    next => exact fillingsAll_new below filled r hr

theorem fillingsAll_new : (us : List IdTree) → (vs : List Tree) →
    ∀ r ∈ fillingsAll f us vs, Sketch.keepsAll r.2 = []
  | [], _ => by simp [fillingsAll]
  | _ :: _, [] => by simp [fillingsAll]
  | u :: us, v :: vs => by
    rw [fillingsAll, List.forall_mem_append]
    exact ⟨fillings_new u v, fillingsAll_new us vs⟩

end

theorem fst_fillings {u : IdTree} {v : Tree} (hkind : (f u.root).kind ≠ .variableRef) :
    ∀ r ∈ fillings f u v, r.1 ∈ idsAll u.children := by
  obtain ⟨id, below⟩ := u
  obtain ⟨e, filled⟩ := v
  rw [fillings, if_neg (by simpa using hkind)]
  exact fillingsAll_subset below filled

mutual

/-- No variable that is filled stands below another one. -/
theorem fillings_apart (hshape : a.Shape t) : (u : IdTree) → (v : Tree) → u ∈ t.nodes →
    (fillings f u v).Pairwise fun r q => ¬t.Overlap q.1 r.1
  | .node id below, .node e filled, hu => by
    rw [fillings]
    split
    next =>
      split
      next => exact .nil
      next => exact List.pairwise_singleton _ _
    next =>
      exact fillingsAll_apart hshape below filled (fun _ hv => child_mem_nodes hu hv)
        (nodup_below (nodup_of_node hshape.nodup hu))

theorem fillingsAll_apart (hshape : a.Shape t) : (us : List IdTree) → (vs : List Tree) →
    (∀ u ∈ us, u ∈ t.nodes) → (idsAll us).Nodup →
    (fillingsAll f us vs).Pairwise fun r q => ¬t.Overlap q.1 r.1
  | [], _, _, _ => by simp [fillingsAll]
  | _ :: _, [], _, _ => by simp [fillingsAll]
  | u :: us, v :: vs, hus, hnodup => by
    obtain ⟨hu, hus⟩ := List.forall_mem_cons.mp hus
    rw [idsAll_cons, List.nodup_append] at hnodup
    rw [fillingsAll, List.pairwise_append]
    refine ⟨fillings_apart hshape u v hu, fillingsAll_apart hshape us vs hus hnodup.2.1, fun r hr q hq => ?_⟩
    exact not_overlap_beside hshape hu hus hnodup.2.2 (fillingsAll_subset us vs q hq) (fillings_subset u v r hr)

end

mutual

theorem fillings_self (f : Nat → Element) : (u : IdTree) → fillings f u (u.toTree f) = []
  | .node id below => by
    rw [toTree, fillings, fillingsAll_self f below, toTree, beq_self_eq_true]
    split <;> rfl

theorem fillingsAll_self (f : Nat → Element) : (us : List IdTree) → fillingsAll f us (toTreeAll f us) = []
  | [] => by rw [toTreeAll, fillingsAll]; simp
  | u :: us => by rw [toTreeAll, fillingsAll, fillings_self f u, fillingsAll_self f us]; rfl

end

/-- What is filled in where a variable stands is what the walk has put there. -/
theorem getD_fill_variable {u : IdTree} {v : Tree} (hkind : (f u.root).kind = .variableRef)
    (hnew : ∀ id ∈ u.ids, new id = (lookup (fillings f u v) id).map (Sketch.trees f)) :
    (new u.root).getD [u.fill f new] = [v] := by
  have hvar : fillings f u v = if u.toTree f == v then [] else [(u.root, [.ofTree v])] := by
    obtain ⟨id, below⟩ := u
    obtain ⟨e, filled⟩ := v
    rw [fillings, if_pos (by simpa using hkind)]
    rfl
  rw [hvar] at hnew
  rw [hnew u.root (root_mem_ids u)]
  by_cases hv : u.toTree f = v
  · rw [if_pos (by simpa using hv)] at hnew ⊢
    have hlook : u.fill f new = u.toTree f := fill_of_none fun id hid => by
      rw [hnew id (mem_ids_of_below hid)]
      rfl
    rw [hlook, hv]
    rfl
  · have hself : lookup [(u.root, [Sketch.ofTree v])] u.root = some [Sketch.ofTree v] := by
      rw [lookup_cons, if_pos rfl]
    rw [if_neg (by simpa using hv), hself, Option.map_some, Sketch.trees, Sketch.tree_ofTree]
    rfl

mutual

/-- Filled in where the walk has put literals, the tree looks as after the walk. -/
theorem fill_fillings : (u : IdTree) → (v : Tree) → u.ids.Nodup → (f u.root).kind ≠ .variableRef →
    Tree.SameBeside (u.toTree f) v →
    (∀ id ∈ idsAll u.children, new id = (lookup (fillings f u v) id).map (Sketch.trees f)) → u.fill f new = v
  | .node id below, .node e filled, hnodup, hkind, hsame, hnew => by
    have hvar : ¬((f id).kind == .variableRef) = true := by simpa using hkind
    rw [toTree, Tree.SameBeside] at hsame
    obtain ⟨rfl, hbelow⟩ := hsame.resolve_left hkind
    rw [fillings, if_neg hvar] at hnew
    rw [ids_node, List.nodup_cons] at hnodup
    rw [fill, fillAll_fillings below filled hnodup.2 hbelow hnew]

theorem fillAll_fillings : (us : List IdTree) → (vs : List Tree) → (idsAll us).Nodup →
    Tree.SameBesideAll (toTreeAll f us) vs →
    (∀ id ∈ idsAll us, new id = (lookup (fillingsAll f us vs) id).map (Sketch.trees f)) → fillAll f new us = vs
  | [], [], _, _, _ => rfl
  | [], _ :: _, _, hsame, _ => nomatch hsame
  | _ :: _, [], _, hsame, _ => nomatch hsame
  | u :: us, v :: vs, hnodup, hsame, hnew => by
    rw [idsAll_cons, List.nodup_append] at hnodup
    obtain ⟨hu, hus⟩ := hsame
    have hhere : ∀ id ∈ u.ids, new id = (lookup (fillings f u v) id).map (Sketch.trees f) := by
      intro id hid
      have hnone : lookup (fillingsAll f us vs) id = none := lookup_eq_none fun hmem => by
        obtain ⟨r, hr, rfl⟩ := List.mem_map.mp hmem
        exact hnodup.2.2 _ hid _ (fillingsAll_subset us vs r hr) rfl
      rw [hnew id (by simp [hid]), fillingsAll, lookup_append, hnone, Option.or_none]
    have hrest : ∀ id ∈ idsAll us, new id = (lookup (fillingsAll f us vs) id).map (Sketch.trees f) := by
      intro id hid
      have hnone : lookup (fillings f u v) id = none := lookup_eq_none fun hmem => by
        obtain ⟨r, hr, rfl⟩ := List.mem_map.mp hmem
        exact hnodup.2.2 _ (fillings_subset u v r hr) _ hid rfl
      rw [hnew id (by simp [hid]), fillingsAll, lookup_append, hnone, Option.none_or]
    rw [fillAll, fillAll_fillings us vs hnodup.2.1 hus hrest]
    by_cases hkind : (f u.root).kind = .variableRef
    · rw [getD_fill_variable hkind hhere, List.singleton_append]
    · have hnone : lookup (fillings f u v) u.root = none := lookup_eq_none fun hmem => by
        obtain ⟨r, hr, hroot⟩ := List.mem_map.mp hmem
        exact root_not_mem_below hnodup.1 (hroot ▸ fst_fillings hkind r hr)
      rw [hhere u.root (root_mem_ids u), hnone,
        fill_fillings u v hnodup.1 hkind hu fun id hid => hhere id (mem_ids_of_below hid)]
      rfl

end

end
end IdTree

namespace Arena

open IdTree

variable {a : Arena} {t : IdTree}

/-- A walk replaces no variable at the root. -/
theorem walk_root {around : Surroundings} {known : Known} {u : Tree} (h : u.kind = .variableRef) :
    (walk around none known u).2 = u := by
  obtain ⟨e, cs⟩ := u
  have hread : flowOf e = .read := by
    have hkind : e.kind = .variableRef := h
    rw [flowOf, hkind]
  unfold walk
  simp only [hread]
  unfold readVariable
  cases (Tree.node e cs).variableKey? <;> rfl

theorem Shape.propagateConstants_does (h : a.Shape t) :
    a.propagateConstants.Does a (Simplify.propagateConstants a.toTree) := by
  rw [Arena.propagateConstants, Simplify.propagateConstants, h.layout_eq]
  dsimp only
  split
  next => exact h.does_nothing rfl
  next hdynamic =>
    have htracked := @walk_tracked (.ofTree a.toTree) {} none a.toTree
    have hsame := @walk_sameBeside (.ofTree a.toTree) none {} a.toTree
    have hroot := @walk_root (.ofTree a.toTree) {} a.toTree
    have hne : (walk (.ofTree a.toTree) none {} a.toTree).1.changed = true →
        (walk (.ofTree a.toTree) none {} a.toTree).2 ≠ a.toTree := fun hchanged =>
      @Rule.apply_ne {} {} .propagateConstants _ _ rfl .start (by
        simp only [Rule.apply, Rule.simplify?, Simplify.propagateConstants, if_neg hdynamic, hchanged, if_true])
    generalize walk (.ofTree a.toTree) none {} a.toTree = walked at *
    obtain ⟨known, u⟩ := walked
    dsimp only at *
    cases hchanged : known.changed with
    | false =>
      obtain ⟨-, rfl⟩ | ⟨htrue, -⟩ := htracked
      · rw [h.toTree_eq, fillings_self]
        exact h.toTree_eq ▸ h.does_nothing rfl
      · rw [hchanged] at htrue
        cases htrue
    | true =>
      have hnew := hne hchanged
      have hkind : (a.element t.root).kind ≠ .variableRef := fun hkind => hnew <| hroot <| by
        rw [h.toTree_eq, kind_toTree, IdTree.kind, hkind]
      have htaken : t.taken (fillings a.element t u) = fillings a.element t u :=
        takenFrom_eq_self (fun r hr heq => root_not_mem_below h.nodup (heq ▸ fst_fillings hkind r hr))
          (fillings_apart h t u (mem_nodes_self t)) (by simp)
      have hfill : t.fill a.element (fun id =>
          (lookup (fillings a.element t u) id).map (Sketch.trees a.element)) = u :=
        fill_fillings t u h.nodup hkind (h.toTree_eq ▸ hsame) fun _ _ => rfl
      obtain ⟨hcount, htree, hshape⟩ := replace_carryOut h
        (Sound.of_new (fillings_subset t u) (fillings_new t u)) (0 < ·)
      rw [htaken] at hcount htree
      rw [hfill] at htree
      refine ⟨hcount.trans (decide_eq_true ?_), htree, hshape⟩
      by_contra hnone
      have hnil : fillings a.element t u = [] := by simpa using hnone
      rw [hnil] at hfill
      exact hnew (hfill.symm.trans ((fill_none a.element t).trans h.toTree_eq.symm))

end Arena
end Unscramble
