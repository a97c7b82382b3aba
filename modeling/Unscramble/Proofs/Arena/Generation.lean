import Unscramble.Proofs.Arena.Batch
import Unscramble.Proofs.Arena.Growth

/-! What the generation of an arena says. New nodes come without a new generation, as nothing in reach leads to
them, and each change to a list of children brings one. So an index of the current generation is the one that
would be built now, whatever happened to the arena in between. -/
namespace Unscramble

open IdTree

namespace Arena

/-- What can be done to an arena. An update of a node leaves its children alone. -/
inductive Change where
  | alloc (element : Element)
  | add (element : Element) (children : List Nat)
  | graft (source : Arena) (id : Nat)
  | update (id : Nat) (f : Element → Element)
  | pushChild (parent child : Nat)
  | setChildren (parent : Nat) (children : List Nat)
  | edit (index : ParentIndex) (edits : List Edit)

def change (a : Arena) : Change → Arena
  | .alloc element => (a.add element []).1
  | .add element children => (a.add element children).1
  | .graft source id => (a.graft source id).1
  | .update id f => a.modifyElement id f
  | .pushChild parent child => a.pushChild parent child
  | .setChildren parent children => a.setChildren parent children
  | .edit index edits => (a.edit index edits).1

def run (a : Arena) (changes : List Change) : Arena := changes.foldl change a

/-- The number of lists of children that are changed at most. -/
def Change.steps : Change → Nat
  | .alloc _ | .add .. | .graft .. | .update .. => 0
  | .pushChild .. | .setChildren .. => 1
  | .edit _ edits => edits.length

section
variable {a b c : Arena} {t : IdTree} {m n : Nat}

/-! ### One change -/

/-- What comes of an arena when up to a number of lists of children are changed in it. -/
structure Follows (a b : Arena) (steps : Nat) : Prop where
  le : a.generation ≤ b.generation
  le_add : b.generation ≤ a.generation + steps
  of_eq : b.generation = a.generation → a.Extends b

theorem Extends.follows (h : a.Extends b) (hgeneration : b.generation = a.generation) (n : Nat) :
    Follows a b n :=
  ⟨hgeneration.ge, hgeneration.le.trans (Nat.le_add_right _ _), fun _ => h⟩

theorem Grows.follows (h : a.Grows b) (n : Nat) : Follows a b n := h.extends.follows h.generation n

theorem follows_modifyChildren (a : Arena) (id : Nat) (f : List Nat → List Nat) :
    Follows a (a.modifyChildren id f) 1 :=
  ⟨Nat.le_succ _, Nat.le_refl _, fun h => absurd h (Nat.succ_ne_self _)⟩

theorem Follows.trans (hab : Follows a b m) (hbc : Follows b c n) : Follows a c (m + n) where
  le := hab.le.trans hbc.le
  le_add := by
    have hb := hab.le_add
    have hc := hbc.le_add
    omega
  of_eq h := by
    have hb := hab.le
    have hc := hbc.le
    exact (hab.of_eq (by omega)).trans (hbc.of_eq (by omega))

theorem follows_step (index : ParentIndex) (state : Editing) (edit : Edit) :
    Follows state.arena (state.step index edit).arena 1 := by
  have hsame : Follows state.arena state.arena 1 := (Extends.refl _).follows rfl 1
  unfold Editing.step
  split
  next => exact hsame
  next located _ =>
    split
    next => exact hsame
    next parent _ =>
      split
      next => exact hsame
      next => split <;> exact follows_modifyChildren ..

theorem follows_foldl_step (index : ParentIndex) (edits : List Edit) (state : Editing) :
    Follows state.arena (edits.foldl (Editing.step index) state).arena edits.length := by
  induction edits generalizing state with
  | nil => exact (Extends.refl _).follows rfl 0
  | cons edit edits ih =>
    rw [List.foldl_cons, List.length_cons, Nat.add_comm]
    exact (follows_step index state edit).trans (ih _)

theorem children_modifyElement (a : Arena) (id : Nat) (f : Element → Element) (x : Nat) :
    (a.modifyElement id f).children x = a.children x := by
  unfold Arena.children modifyElement
  rw [node?_modifyNode]
  split
  next => cases a.node? x <;> rfl
  next => rfl

theorem extends_modifyElement (a : Arena) (id : Nat) (f : Element → Element) :
    a.Extends (a.modifyElement id f) where
  root := rfl
  size := by simp [modifyElement, modifyNode]
  children x _ := children_modifyElement a id f x

theorem edit_stale {index : ParentIndex} (h : index.generation ≠ a.generation) (edits : List Edit) :
    a.edit index edits = (a, 0) := if_neg h

/-- Every change that could alter what is in reach advances the generation. -/
theorem follows_change (a : Arena) (change : Change) : Follows a (a.change change) change.steps := by
  cases change with
  | alloc element => exact (grows_add a element []).follows 0
  | add element children => exact (grows_add a element children).follows 0
  | graft source id => exact (grows_copy a _).follows 0
  | update id f => exact (extends_modifyElement a id f).follows rfl 0
  | pushChild parent child => exact follows_modifyChildren a parent (· ++ [child])
  | setChildren parent children => exact follows_modifyChildren a parent fun _ => children
  | edit index edits =>
    by_cases h : index.generation = a.generation
    · rw [Arena.change, Arena.edit, if_pos h]
      exact follows_foldl_step index edits { arena := a }
    · rw [Arena.change, edit_stale h]
      exact (Extends.refl a).follows rfl _

/-! ### Runs -/

theorem follows_run (a : Arena) (changes : List Change) :
    Follows a (a.run changes) (changes.map Change.steps).sum := by
  induction changes generalizing a with
  | nil => exact (Extends.refl a).follows rfl 0
  | cons change changes ih =>
    rw [List.map_cons, List.sum_cons]
    exact (follows_change a change).trans (ih _)

/-- An index of the current generation is current: what is in reach has the shape that it had when the index was
built, and a new index would be the same. With any other index a batch of edits does nothing. The generation
grows by one at most for each list of children that is changed. -/
theorem generation_is_current (h : a.Shape t) (changes : List Change) :
    let b := a.run changes
    ((ParentIndex.build a).generation = b.generation →
      b.Shape t ∧ b.reachable = a.reachable ∧ (∀ id ∈ a.reachable, b.children id = a.children id) ∧
        ParentIndex.build b = ParentIndex.build a) ∧
      (∀ index : ParentIndex, index.generation ≠ b.generation → ∀ edits, b.edit index edits = (b, 0)) ∧
        b.generation ≤ a.generation + (changes.map Change.steps).sum := by
  intro b
  have hfollows := follows_run a changes
  refine ⟨fun hgeneration => ?_, fun index hstale edits => edit_stale hstale edits, hfollows.le_add⟩
  have hextends : a.Extends b := hfollows.of_eq hgeneration.symm
  have hshape := hextends.shape h
  refine ⟨hshape, hshape.reachable.trans h.reachable.symm, fun id hid => ?_, hextends.build_eq h hgeneration.symm⟩
  rw [h.reachable] at hid
  exact hextends.children id (h.holds.lt_size hid)

/-- A statement gets a second parent that is out of reach, which leaves the index current, and is then taken out of
the list of the first one, which does not. -/
theorem generation_is_current_shared :
    let a : Arena := { nodes := #[⟨{ kind := .scriptBlock }, [1]⟩, ⟨{ kind := .statements }, [2]⟩,
      ⟨{ kind := .pipeline }, []⟩] }
    let t : IdTree := .node 0 [.node 1 [.node 2 []]]
    let b := a.run [.add { kind := .statements } [2], .update 2 (·.withAttr "Background" "False")]
    let c := a.run [.add { kind := .statements } [2], .setChildren 1 []]
    a.Shape t ∧ ((ParentIndex.build a).generation = b.generation ∧ ParentIndex.build b = ParentIndex.build a) ∧
      (ParentIndex.build a).generation ≠ c.generation ∧
        c.edit (ParentIndex.build a) [{ target := 2 }] = (c, 0) := by
  intro a t b c
  have hshape : a.Shape t := ⟨by unfold Holds; decide, rfl, by decide⟩
  have hcurrent : (ParentIndex.build a).generation = b.generation := rfl
  have hstale : (ParentIndex.build a).generation ≠ c.generation := by decide
  refine ⟨hshape, ⟨hcurrent, ?_⟩, hstale, ?_⟩
  · exact ((generation_is_current hshape _).1 hcurrent).2.2.2
  · exact (generation_is_current hshape [.add { kind := .statements } [2], .setChildren 1 []]).2.1 _ hstale _

end
end Arena
end Unscramble
