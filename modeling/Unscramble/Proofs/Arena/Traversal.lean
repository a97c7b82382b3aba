import Unscramble.Proofs.Arena.Substitution

/-! The three views of a tree in an arena: the trees of positions, walks and the index of parents. A walk visits
what stands below a node in pre-order, and the way up in the index leads through the nodes whose walks come by. -/
namespace Unscramble

open IdTree

/-- A search up a chain finds the item that has the others above it. -/
theorem find?_eq_some_iff_of_pairwise {α : Type} {R : α → α → Prop} {p : α → Bool} {l : List α} {x : α}
    (hl : l.Pairwise R) (hR : ∀ y ∈ l, ∀ z ∈ l, R y z → ¬R z y) :
    l.find? p = some x ↔ (x ∈ l ∧ p x = true) ∧ ∀ y, y ∈ l ∧ p y = true → y = x ∨ R x y := by
  induction l with
  | nil => simp
  | cons y l ih =>
    obtain ⟨hy, hl⟩ := List.pairwise_cons.mp hl
    have hrest := ih hl fun z hz w hw => hR z (List.mem_cons_of_mem _ hz) w (List.mem_cons_of_mem _ hw)
    by_cases hp : p y = true
    · rw [List.find?_cons_of_pos hp, Option.some.injEq]
      constructor
      · rintro rfl
        refine ⟨⟨List.mem_cons_self, hp⟩, fun z ⟨hz, _⟩ => ?_⟩
        exact (List.mem_cons.mp hz).imp_right (hy z)
      · rintro ⟨⟨hx, _⟩, hlowest⟩
        rcases List.mem_cons.mp hx with rfl | hx
        · rfl
        · refine (hlowest y ⟨List.mem_cons_self, hp⟩).resolve_right fun h => ?_
          exact hR y List.mem_cons_self x (List.mem_cons_of_mem _ hx) (hy x hx) h
    · have hmem (z : α) : z ∈ y :: l ∧ p z = true ↔ z ∈ l ∧ p z = true := by
        refine and_congr_left fun hz => List.mem_cons.trans (or_iff_right ?_)
        rintro rfl
        exact hp hz
      rw [List.find?_cons_of_neg hp, hrest]
      simp only [hmem]

namespace Arena

variable {a : Arena} {t : IdTree} {x y : Nat}

/-! ### Walks -/

/-- A walk through what stands below a node ends after its last node. -/
theorem Holds.take_eq {s : IdTree} (h : a.Holds s) {n : Nat} (hn : s.ids.length ≤ n) :
    Cursor.take a n [s.root] = s.ids := by
  have hrest (k : Nat) : Cursor.take a k [] = [] := by cases k <;> rfl
  have hwalk := take_ids h (n - s.ids.length) []
  rw [hrest, List.append_nil, Nat.add_sub_of_le hn] at hwalk
  exact hwalk

theorem Holds.descendants_eq {s : IdTree} (h : a.Holds s) : a.descendants s.root = s.ids := by
  have hweight : a.weight s.root = s.ids.length := weightFrom_eq h (h.card_le.trans (Nat.le_succ _))
  exact h.take_eq hweight.ge

/-- A node in reach stands at the top of a tree. -/
theorem Shape.exists_holds (h : a.Shape t) (hx : x ∈ a.reachable) : ∃ s, a.Holds s ∧ s.root = x ∧ s.ids.Nodup := by
  rw [h.reachable] at hx
  obtain ⟨s, hs, hroot⟩ := Shape.exists_node hx
  exact ⟨s, h.holds.node hs, hroot, nodup_of_node h.nodup hs⟩

/-! ### The way up -/

namespace Shape

/-- Induction from the root downwards. -/
theorem down_induction (h : a.Shape t) {P : Nat → Prop} (root : P t.root)
    (child : ∀ p ∈ t.ids, ∀ x ∈ a.children p, P p → P x) (hx : x ∈ t.ids) : P x := by
  induction hn : (t.up x).length generalizing x with
  | zero =>
    obtain ⟨path, hpath⟩ := up_eq_cons h.nodup hx
    simp [hpath] at hn
  | succ n ih =>
    by_cases hroot : x = t.root
    · exact hroot ▸ root
    · obtain ⟨p, hp, hchild⟩ := h.exists_parent hx hroot
      rw [h.up_child hp hchild, List.length_cons] at hn
      exact child p hp x hchild (ih hp (Nat.succ.inj hn))

theorem getLast?_up (h : a.Shape t) (hx : x ∈ t.ids) : (t.up x).getLast? = some t.root := by
  refine h.down_induction (P := fun x => (t.up x).getLast? = some t.root) ?_ (fun p hp x hchild ih => ?_) hx
  · rw [up_root, List.getLast?_singleton]
  · rw [h.up_child hp hchild, List.getLast?_cons, ih, Option.getD_some]

/-- The way up from a node leads on as the way up from each node on it. -/
theorem up_suffix (h : a.Shape t) (hy : y ∈ t.up x) : t.up y <:+ t.up x := by
  refine h.down_induction (P := fun x => y ∈ t.up x → t.up y <:+ t.up x) (fun hy => ?_)
    (fun p hp x hchild ih hy => ?_) (mem_ids_of_up hy) hy
  · rw [up_root, List.mem_singleton] at hy
    exact hy ▸ List.suffix_rfl
  · rw [h.up_child hp hchild] at hy
    rcases List.mem_cons.mp hy with rfl | hy
    · exact List.suffix_rfl
    · exact h.up_child hp hchild ▸ (ih hy).trans (List.suffix_cons _ _)

/-- The nodes on the way up are those that the node is below. -/
theorem mem_up_iff (h : a.Shape t) {s : IdTree} (hs : s ∈ t.nodes) : s.root ∈ t.up x ↔ x ∈ s.ids := by
  refine ⟨h.mem_of_up hs (root_mem_ids s), fun hx => ?_⟩
  induction s using children_induction with
  | h id below ih =>
    rw [ids_node, List.mem_cons] at hx
    rcases hx with rfl | hx
    · exact mem_up_self h.nodup (List.mem_map_of_mem hs)
    · obtain ⟨c, hc, hx⟩ := mem_idsAll.mp hx
      have hchild : c.root ∈ t.up x := ih c hc (child_mem_nodes hs hc) hx
      refine (h.up_suffix hchild).subset ?_
      rw [IdTree.up_child h.nodup hs hc]
      exact List.mem_cons_of_mem _ (mem_up_self h.nodup (List.mem_map_of_mem hs))

end Shape
end Arena

namespace ParentIndex

/-! ### The index -/

/-- The node among some of those on a way up that stands below the others. -/
def Lowest (index : ParentIndex) (among : Nat → Prop) (y : Nat) : Prop :=
  among y ∧ ∀ z, among z → z = y ∨ index.isWithin y z = true

/-- An index of the parents of the nodes in reach. It leads from each of them up to the root through the nodes
whose walks come by, and its searches find the first node of a kind on the way. -/
structure Describes (index : ParentIndex) (a : Arena) : Prop where
  parent : ∀ x p, index.parent? x = some p ↔ p ∈ a.reachable ∧ x ∈ a.children p
  parent_unique : ∀ x ∈ a.reachable, x ≠ a.root → ∃! p, p ∈ a.reachable ∧ x ∈ a.children p
  no_parent : ∀ x, index.parent? x = none ↔ x = a.root ∨ x ∉ a.reachable
  ancestors_of_parent : ∀ x p, index.parent? x = some p → index.ancestors x = p :: index.ancestors p
  ancestors_of_none : ∀ x, index.parent? x = none → index.ancestors x = []
  ancestors_end : ∀ x ∈ a.reachable, x ≠ a.root → (index.ancestors x).getLast? = some a.root
  isWithin : ∀ x ∈ a.reachable, ∀ y ∈ a.reachable,
    (index.isWithin x y = true ↔ x ≠ y ∧ x ∈ a.descendants y)
  enclosing : ∀ x kind y, index.enclosing? a x kind = some y ↔
    index.Lowest (fun z => index.isWithin x z = true ∧ (a.kind z).alike kind = true) y
  not_enclosed : ∀ x kind, index.enclosing? a x kind = none ↔
    ∀ z, ¬(index.isWithin x z = true ∧ (a.kind z).alike kind = true)
  locate : ∀ x stopAt y, index.locate? a x stopAt = some y ↔ x ∈ a.reachable ∧
    index.Lowest (fun z => (z = x ∨ index.isWithin x z = true) ∧ ∀ kind ∈ stopAt, (a.kind z).alike kind = true) y
  not_located : ∀ x stopAt, index.locate? a x stopAt = none ↔ x ∈ a.reachable →
    ∀ z, ¬((z = x ∨ index.isWithin x z = true) ∧ ∀ kind ∈ stopAt, (a.kind z).alike kind = true)

section
variable {a : Arena} {t : IdTree} {x y : Nat}

theorem isWithin_eq (h : a.Shape t) (x y : Nat) : (build a).isWithin x y = true ↔ y ∈ (t.up x).tail := by
  rw [isWithin, ancestors_eq h, List.contains_iff_mem]

/-- Each node on a way up has those behind it above it. -/
theorem pairwise_up (h : a.Shape t) (x : Nat) :
    (t.up x).Pairwise fun y z => (build a).isWithin y z = true := by
  by_cases hx : x ∈ t.ids
  · refine h.down_induction (P := fun x => (t.up x).Pairwise fun y z => (build a).isWithin y z = true) ?_
      (fun p hp x hchild ih => ?_) hx
    · rw [up_root]
      exact List.pairwise_singleton _ _
    · have hstep := h.up_child hp hchild
      rw [hstep]
      refine List.pairwise_cons.mpr ⟨fun z hz => (isWithin_eq h x z).mpr ?_, ih⟩
      rw [hstep, List.tail_cons]
      exact hz
  · rw [up_eq_nil hx]
    exact .nil

/-- No two nodes stand above each other. -/
theorem isWithin_asymm (h : a.Shape t) (hxy : (build a).isWithin x y = true) :
    ¬(build a).isWithin y x = true := by
  have hshorter {x y : Nat} (hy : y ∈ (t.up x).tail) : (t.up y).length < (t.up x).length := by
    obtain ⟨path, hpath⟩ := up_eq_cons h.nodup (mem_ids_of_up (List.mem_of_mem_tail hy))
    obtain ⟨rest, hrest⟩ := up_eq_cons h.nodup (mem_ids_of_mem_up h.nodup (List.mem_of_mem_tail hy))
    have hsuffix := h.up_suffix (List.mem_of_mem_tail hy)
    have hnodup := up_nodup h.nodup x
    rw [hpath, List.tail_cons] at hy
    rw [hpath] at hsuffix hnodup ⊢
    rcases List.suffix_cons_iff.mp hsuffix with heq | hsuffix
    · obtain rfl : y = x := (List.cons.inj (hrest.symm.trans heq)).1
      exact absurd hy (List.nodup_cons.mp hnodup).1
    · exact Nat.lt_succ_of_le hsuffix.length_le
  rw [isWithin_eq h] at hxy ⊢
  exact fun hyx => (hshorter hxy).asymm (hshorter hyx)

theorem find?_up (h : a.Shape t) {path : List Nat} (hpath : path <:+ t.up x) (p : Nat → Bool) :
    path.find? p = some y ↔ (build a).Lowest (fun z => z ∈ path ∧ p z = true) y :=
  find?_eq_some_iff_of_pairwise ((pairwise_up h x).sublist hpath.sublist) fun _ _ _ _ => isWithin_asymm h

theorem locate?_eq (h : a.Shape t) (x : Nat) (stopAt : Option Kind) : (build a).locate? a x stopAt =
    (t.up x).find? fun id => stopAt.all fun kind => (a.kind id).alike kind :=
  locate?_eq_located h rfl (fun _ => rfl) ⟨x, [], stopAt⟩

theorem mem_up_iff_isWithin (h : a.Shape t) : y ∈ t.up x ↔ x ∈ t.ids ∧ (y = x ∨ (build a).isWithin x y = true) := by
  by_cases hx : x ∈ t.ids
  · rw [← isWithin_iff h hx, Bool.or_eq_true, beq_iff_eq, and_iff_right hx]
  · simp [up_eq_nil hx, hx]

end
end ParentIndex

/-! ### The three views -/

section
variable {a : Arena} {t : IdTree}

/-- The index that is built from an arena whose nodes form a tree describes it. -/
theorem Arena.Shape.describes (h : a.Shape t) : (ParentIndex.build a).Describes a where
  parent x p := by rw [h.reachable, ParentIndex.parent?_eq_some h]
  parent_unique x hx hroot := by
    rw [h.reachable] at hx ⊢
    obtain ⟨p, hp, hchild⟩ := h.exists_parent hx (h.root ▸ hroot)
    exact ⟨p, ⟨hp, hchild⟩, fun q hq => h.parent_unique hq.1 hp hq.2 hchild⟩
  no_parent x := by
    rw [h.reachable, ← h.root]
    constructor
    · intro hnone
      by_contra hx
      rw [not_or, not_not] at hx
      obtain ⟨p, hp⟩ := ParentIndex.exists_parent? h hx.2 hx.1
      rw [hnone] at hp
      cases hp
    · rintro (rfl | hx)
      · exact ParentIndex.parent?_root h
      · exact ParentIndex.parent?_eq_none h hx
  ancestors_of_parent x p hp := by
    obtain ⟨hp, hchild⟩ := (ParentIndex.parent?_eq_some h).mp hp
    obtain ⟨path, hpath⟩ := up_eq_cons h.nodup hp
    rw [ParentIndex.ancestors_eq h, ParentIndex.ancestors_eq h, h.up_child hp hchild, hpath]
    rfl
  ancestors_of_none x hnone := by
    rw [ParentIndex.ancestors]
    cases (ParentIndex.build a).links.length with
    | zero => rfl
    | succ n => rw [ParentIndex.ancestorsFrom, hnone]
  ancestors_end x hx hroot := by
    rw [h.reachable] at hx
    obtain ⟨p, hp, hchild⟩ := h.exists_parent hx (h.root ▸ hroot)
    rw [ParentIndex.ancestors_eq h, h.up_child hp hchild, List.tail_cons, h.getLast?_up hp, h.root]
  isWithin x hx y hy := by
    rw [h.reachable] at hx hy
    obtain ⟨s, hs, rfl⟩ := Shape.exists_node hy
    rw [(h.holds.node hs).descendants_eq, ← h.mem_up_iff hs, ParentIndex.mem_up_iff_isWithin h, and_iff_right hx]
    constructor
    · refine fun hwithin => ⟨?_, .inr hwithin⟩
      rintro rfl
      exact ParentIndex.isWithin_asymm h hwithin hwithin
    · rintro ⟨hne, hup⟩
      exact hup.resolve_left (Ne.symm hne)
  enclosing x kind y := by
    simp only [ParentIndex.isWithin, List.contains_iff_mem, ParentIndex.enclosing?, ParentIndex.ancestors_eq h]
    exact ParentIndex.find?_up h (List.tail_suffix _) _
  not_enclosed x kind := by
    simp only [ParentIndex.isWithin, List.contains_iff_mem, ParentIndex.enclosing?, List.find?_eq_none, not_and]
  locate x stopAt y := by
    rw [ParentIndex.locate?_eq h, ParentIndex.find?_up h List.suffix_rfl, h.reachable]
    by_cases hx : x ∈ t.ids
    · simp only [ParentIndex.mem_up_iff_isWithin h, hx, true_and, Option.all_eq_true, Option.mem_def]
    · simp [ParentIndex.Lowest, up_eq_nil hx, hx]
  not_located x stopAt := by
    rw [ParentIndex.locate?_eq h, List.find?_eq_none, h.reachable]
    simp only [ParentIndex.mem_up_iff_isWithin h, Option.all_eq_true, and_imp, not_and]
    exact ⟨fun hnone hx z => hnone z hx, fun hnone z hx => hnone hx z⟩

/-- Walks and the index describe the same tree. A walk visits a node and what stands below it in pre-order and
then ends; from a node in reach it comes by each node once, and the index leads back. -/
theorem Arena.walks_match_index (h : a.Shape t) :
    (∀ s, a.Holds s → a.descendants s.root = s.ids ∧ ∀ n ≥ s.ids.length, Cursor.take a n [s.root] = s.ids) ∧
      (∀ x ∈ a.reachable, ∃ s, a.Holds s ∧ s.root = x ∧ s.ids.Nodup) ∧ (ParentIndex.build a).Describes a := by
  refine ⟨fun s hs => ⟨hs.descendants_eq, fun n hn => hs.take_eq hn⟩, fun x hx => ?_, h.describes⟩
  exact h.exists_holds hx

/-- A script with two statements, and a node out of reach that has one of them as a child too. -/
theorem Arena.walks_match_index_shared :
    let leaf : ArenaNode := ⟨{ kind := .pipeline }, []⟩
    let a : Arena := { nodes := #[⟨{ kind := .scriptBlock }, [3]⟩, leaf, leaf, ⟨{ kind := .statements }, [1, 2]⟩,
      ⟨{ kind := .statements }, [2]⟩] }
    let s : IdTree := .node 4 [.node 2 []]
    a.Shape (.node 0 [.node 3 [.node 1 [], .node 2 []]]) ∧ a.Holds s ∧ a.descendants 4 = [4, 2] ∧
      (ParentIndex.build a).parent? 2 = some 3 ∧ (ParentIndex.build a).Describes a := by
  intro leaf a s
  have hshape : a.Shape (.node 0 [.node 3 [.node 1 [], .node 2 []]]) :=
    ⟨by unfold Holds; decide, rfl, by decide⟩
  have hs : a.Holds s := by unfold Holds; decide
  obtain ⟨hwalks, -, hindex⟩ := walks_match_index hshape
  exact ⟨hshape, hs, (hwalks s hs).1, (hindex.parent 2 3).mpr ⟨by decide, by decide⟩, hindex⟩

end
end Unscramble
