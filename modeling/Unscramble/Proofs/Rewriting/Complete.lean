import Mathlib.Tactic.ByContra
import Unscramble.Proofs.Rewriting.Basic
import Unscramble.Proofs.Rewriting.Nodes

/-! The traversals miss nothing. Where one of them has no match, no node has one that it could have
taken, in any place. -/
namespace Unscramble.Tree

/-! ### Places of children -/

theorem mem_placesBelow {above t : Tree} {trail : List (Tree × Nat)} {p : Place} {k j : Nat}
    {ts : List Tree} (ht : ts[j]? = some t) (hp : p ∈ t.placesFrom ((above, k + j) :: trail)) :
    p ∈ placesBelow trail above k ts := by
  induction ts generalizing k j with
  | nil => simp at ht
  | cons u ts ih =>
    rw [placesBelow, List.mem_append]
    cases j with
    | zero =>
      cases ht
      exact .inl hp
    | succ j =>
      refine .inr (ih (by simpa using ht) ?_)
      rwa [show k + 1 + j = k + (j + 1) by omega]

theorem mem_placesFrom_self (t : Tree) (trail : List (Tree × Nat)) :
    ⟨trail, t⟩ ∈ t.placesFrom trail := by
  cases t
  simp [placesFrom]

/-- Every child of every node has a place. -/
theorem exists_placesFrom {t : Tree} : ∀ trail, ∀ s ∈ t.nodes, ∀ {i c}, s.children[i]? = some c →
    ∃ above, ⟨(s, i) :: above, c⟩ ∈ t.placesFrom trail := by
  induction t using children_induction with
  | h e cs ih =>
    intro trail s hs i c hc
    rw [placesFrom]
    rcases mem_nodes_iff.mp hs with rfl | ⟨d, hd, hs⟩
    · refine ⟨trail, List.mem_cons_of_mem _ (mem_placesBelow hc ?_)⟩
      rw [Nat.zero_add]
      exact mem_placesFrom_self c _
    · obtain ⟨j, hj⟩ := List.getElem?_of_mem hd
      obtain ⟨above, h⟩ := ih d hd ((.node e cs, 0 + j) :: trail) s hs hc
      exact ⟨above, List.mem_cons_of_mem _ (mem_placesBelow hj h)⟩

/-- Every node has a place. -/
theorem exists_place {t : Tree} : ∀ trail, ∀ s ∈ t.nodes, ∃ above, ⟨above, s⟩ ∈ t.placesFrom trail := by
  induction t using children_induction with
  | h e cs ih =>
    intro trail s hs
    rcases mem_nodes_iff.mp hs with rfl | ⟨d, hd, hs⟩
    · exact ⟨trail, mem_placesFrom_self _ trail⟩
    · obtain ⟨j, hj⟩ := List.getElem?_of_mem hd
      obtain ⟨above, h⟩ := ih d hd ((.node e cs, 0 + j) :: trail) s hs
      refine ⟨above, ?_⟩
      rw [placesFrom]
      exact List.mem_cons_of_mem _ (mem_placesBelow hj h)

/-! ### Scans without a match -/

theorem replaceFirst?_eq_none {f : Place → Option (List Tree)} {t : Tree} (hroot : f ⟨[], t⟩ = none)
    (h : t.replaceFirst? f = none) : ∀ p ∈ t.places, f p = none := by
  intro p hp
  by_contra hsome
  obtain ⟨new, hnew⟩ := Option.ne_none_iff_exists'.mp hsome
  cases hfirst : t.places.findSome? fun p => (f p).map (p, ·) with
  | none =>
    have hnone := List.findSome?_eq_none_iff.mp hfirst p hp
    rw [hnew] at hnone
    cases hnone
  | some found =>
    obtain ⟨q, new⟩ := found
    obtain ⟨q', hq, hmap⟩ := List.exists_of_findSome?_eq_some hfirst
    obtain ⟨new', hq', heq⟩ := Option.map_eq_some_iff.mp hmap
    cases heq
    have hreplace : q.replace? new = none := by rwa [replaceFirst?, hfirst] at h
    -- the only place that nothing can be put into is that of the root, which has no match
    cases Place.on_of_mem hq with
    | root => simp [hroot] at hq'
    | child => cases hreplace

mutual

theorem replaceOutermost?_eq_none {f : Tree → Option (List Tree)} : (t : Tree) →
    t.replaceOutermost? f = none → ∀ s ∈ nodesAll t.children, f s = none
  | .node _ cs, h => replaceOutermostAll?_eq_none cs (Option.map_eq_none_iff.mp h)

theorem replaceOutermostAll?_eq_none {f : Tree → Option (List Tree)} : (ts : List Tree) →
    replaceOutermostAll? f ts = none → ∀ s ∈ nodesAll ts, f s = none
  | [], _, s, hs => by simp [nodesAll] at hs
  | t :: ts, h, s, hs => by
    have hnone : (f t = none ∧ t.replaceOutermost? f = none) ∧ replaceOutermostAll? f ts = none := by
      simpa [replaceOutermostAll?] using h
    rw [nodesAll, nodes_eq, List.mem_append, List.mem_cons] at hs
    obtain (rfl | hs) | hs := hs
    · exact hnone.1.1
    · exact replaceOutermost?_eq_none t hnone.1.2 s hs
    · exact replaceOutermostAll?_eq_none ts hnone.2 s hs

end

mutual

theorem updateEvery?_eq_none {f : Tree → Option Tree} : (t : Tree) → t.updateEvery? f = none →
    ∀ s ∈ t.nodes, f s = none
  | .node e cs, h, s, hs => by
    have hnone : f (.node e ((updateEveryAll? f cs).getD cs)) = none ∧ updateEveryAll? f cs = none := by
      simpa [updateEvery?] using h
    obtain ⟨hnode, hbelow⟩ := hnone
    rw [nodes_eq, List.mem_cons] at hs
    rcases hs with rfl | hs
    · rwa [hbelow, Option.getD_none] at hnode
    · exact updateEveryAll?_eq_none cs hbelow s hs

theorem updateEveryAll?_eq_none {f : Tree → Option Tree} : (ts : List Tree) →
    updateEveryAll? f ts = none → ∀ s ∈ nodesAll ts, f s = none
  | [], _, s, hs => by simp [nodesAll] at hs
  | t :: ts, h, s, hs => by
    have hnone : t.updateEvery? f = none ∧ updateEveryAll? f ts = none := by
      simpa [updateEveryAll?] using h
    rw [nodesAll, List.mem_append] at hs
    exact hs.elim (updateEvery?_eq_none t hnone.1 s) (updateEveryAll?_eq_none ts hnone.2 s)

end

theorem respellAll?_eq_none_iff {f : Respelling} {above : Tree} {i : Nat} {ts : List Tree} :
    respellAll? f above i ts = none ↔
      ∀ (j : Nat) (t : Tree), ts[j]? = some t → t.respellFrom? f (some (above, i + j)) = none := by
  induction ts generalizing i with
  | nil => simp [respellAll?]
  | cons t ts ih =>
    have hsplit : respellAll? f above i (t :: ts) = none ↔
        t.respellFrom? f (some (above, i)) = none ∧ respellAll? f above (i + 1) ts = none := by
      simp [respellAll?]
    rw [hsplit, ih]
    constructor
    · rintro ⟨ht, hts⟩ (_ | j) s hs
      · cases hs
        exact ht
      · rw [← Nat.add_assoc, Nat.add_right_comm]
        exact hts j s (by simpa using hs)
    · refine fun h => ⟨h 0 t rfl, fun j s hs => ?_⟩
      rw [Nat.add_right_comm]
      exact h (j + 1) s (by simpa using hs)

/-- There is nothing to respell if neither the node nor anything below its children has a new spelling. -/
theorem respellFrom?_eq_none_iff {f : Respelling} {above : Option (Tree × Nat)} {t : Tree} :
    t.respellFrom? f above = none ↔ f above t = none ∧
      ∀ (i : Nat) (c : Tree), t.children[i]? = some c → c.respellFrom? f (some (t, i)) = none := by
  obtain ⟨e, cs⟩ := t
  have hall := @respellAll?_eq_none_iff f (.node e cs) 0 cs
  simp only [Nat.zero_add] at hall
  rw [children_node, ← hall]
  simp [respellFrom?]

/-- Every node has been looked at. -/
theorem respellFrom?_eq_none {f : Respelling} {t : Tree} {above : Option (Tree × Nat)}
    (h : t.respellFrom? f above = none) : ∀ s ∈ t.nodes, ∃ above, f above s = none := by
  induction t using children_induction generalizing above with
  | h e cs ih =>
    intro s hs
    obtain ⟨hnode, hbelow⟩ := respellFrom?_eq_none_iff.mp h
    rcases mem_nodes_iff.mp hs with rfl | ⟨d, hd, hs⟩
    · exact ⟨above, hnode⟩
    · obtain ⟨j, hj⟩ := List.getElem?_of_mem hd
      exact ih d hd (hbelow j d hj) s hs

/-- Every child of every node has been looked at from where it stands. -/
theorem respellFrom?_child {f : Respelling} {t : Tree} {above : Option (Tree × Nat)}
    (h : t.respellFrom? f above = none) : ∀ s ∈ t.nodes, ∀ {i : Nat} {c : Tree}, s.children[i]? = some c →
      f (some (s, i)) c = none := by
  induction t using children_induction generalizing above with
  | h e cs ih =>
    intro s hs i c hc
    obtain ⟨-, hbelow⟩ := respellFrom?_eq_none_iff.mp h
    rcases mem_nodes_iff.mp hs with rfl | ⟨d, hd, hs⟩
    · exact (respellFrom?_eq_none_iff.mp (hbelow i c hc)).1
    · obtain ⟨j, hj⟩ := List.getElem?_of_mem hd
      exact ih d hd (hbelow j d hj) s hs hc

end Unscramble.Tree
