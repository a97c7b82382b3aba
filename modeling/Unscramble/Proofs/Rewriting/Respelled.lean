import Unscramble.Proofs.Rewriting.Complete
import Unscramble.Proofs.Rewriting.Weight

/-! The tree that a respelling leads to, as a function of the whole tree: every element is replaced
if it has a new spelling, and what a respelling looks at is the tree as it was. -/
namespace Unscramble.Tree

variable {f g : Respelling} {above : Option (Tree × Nat)} {t t' : Tree}

/-- The respelled tree, which is the tree itself if there is nothing to respell. -/
def respelled (f : Respelling) (above : Option (Tree × Nat)) (t : Tree) : Tree :=
  (t.respellFrom? f above).getD t

theorem respellAll?_getD (f : Respelling) (above : Tree) (i : Nat) (ts : List Tree) :
    (respellAll? f above i ts).getD ts =
      ts.mapIdx fun j t => respelled f (some (above, i + j)) t := by
  induction ts generalizing i with
  | nil => rfl
  | cons t ts ih =>
    have h := ih (i + 1)
    simp only [respellAll?, List.mapIdx_cons, respelled, Nat.add_zero,
      Nat.add_assoc, Nat.add_comm 1] at h ⊢
    rw [← h]
    cases t.respellFrom? f (some (above, i)) <;> cases respellAll? f above (i + 1) ts <;> rfl

theorem respelled_node (f : Respelling) (above : Option (Tree × Nat)) (e : Element)
    (cs : List Tree) : respelled f above (.node e cs) =
      .node ((f above (.node e cs)).getD e)
        (cs.mapIdx fun i c => respelled f (some (.node e cs, i)) c) := by
  have h := respellAll?_getD f (.node e cs) 0 cs
  simp only [Nat.zero_add] at h
  rw [← h, respelled, respellFrom?]
  cases f above (.node e cs) <;> cases respellAll? f (.node e cs) 0 cs <;> rfl

theorem respelled_of_respell? (h : t.respell? f = some t') : t' = respelled f none t := by
  rw [respelled, show t.respellFrom? f none = some t' from h, Option.getD_some]

mutual

theorem respellFrom?_congr {above : Option (Tree × Nat)} : (t : Tree) →
    (∀ s ∈ t.nodes, ∀ above, f above s = g above s) → t.respellFrom? f above = t.respellFrom? g above
  | .node e cs, h => by
    have hcs : ∀ s ∈ nodesAll cs, ∀ above, f above s = g above s := fun s hs =>
      h s (nodes_eq (.node e cs) ▸ List.mem_cons_of_mem _ hs)
    rw [respellFrom?, respellFrom?, h _ (mem_nodes_self _), respellAll?_congr cs hcs]

theorem respellAll?_congr {above : Tree} {i : Nat} : (ts : List Tree) →
    (∀ s ∈ nodesAll ts, ∀ above, f above s = g above s) →
    respellAll? f above i ts = respellAll? g above i ts
  | [], _ => rfl
  | t :: ts, h => by
    rw [respellAll?, respellAll?, respellFrom?_congr t fun s hs => h s (by simp [nodesAll, hs]),
      respellAll?_congr ts fun s hs => h s (by simp [nodesAll, hs])]

end

/-- Only what a respelling does to the nodes of a tree matters. -/
theorem respell?_congr (h : ∀ s ∈ t.nodes, ∀ above, f above s = g above s) :
    t.respell? f = t.respell? g := respellFrom?_congr t h

/-- What is the same for every child in its place is the same for the list of them. -/
theorem map_mapIdx {α : Type*} {place : Nat → Tree → Tree} {p q : Tree → α} {cs : List Tree}
    (h : ∀ i, ∀ c ∈ cs, p (place i c) = q c) : (cs.mapIdx place).map p = cs.map q := by
  refine List.ext_getElem? fun i => ?_
  rw [List.getElem?_map, List.getElem?_mapIdx, List.getElem?_map, Option.map_map]
  cases hc : cs[i]? with
  | none => rfl
  | some c => exact congrArg some (h i c (List.mem_of_getElem? hc))

/-- A respelling that does not look at the surroundings maps the elements of a tree. -/
theorem weigh_respelled (w : Element → Nat) (g : Element → Option Element) (t : Tree) :
    ∀ above, weigh w (respelled (fun _ s => g s.element) above t) =
      weigh (fun e => w ((g e).getD e)) t := by
  induction t using children_induction with
  | h e cs ih =>
    intro above
    rw [respelled_node, weigh_node, weigh_node, element_node, weighAll_eq_sum, weighAll_eq_sum]
    rw [map_mapIdx fun i c hc => ih c hc (some (.node e cs, i))]

theorem respell?_none (t : Tree) : t.respell? (fun _ _ => none) = none := by
  have hempty : ∀ s s', ¬Within (Respelled fun _ _ => none) s s' := by
    intro s s' h
    induction h with
    | here h => obtain ⟨h⟩ := h; cases h
    | inside _ ih => exact ih
  refine Option.eq_none_iff_forall_ne_some.mpr fun t' h => ?_
  cases respell?_changes h with
  | single h => exact hempty _ _ h
  | tail _ h => exact hempty _ _ h

end Unscramble.Tree
