import Unscramble.Arena.ParentIndex

/-! Edits of an arena. Edits are gathered while the tree is read, and are carried out together
against one index; an edit in or around a place that has already been edited is skipped. -/
namespace Unscramble

/-- Puts nodes in the place of a target, or of its nearest ancestor of a kind. No nodes at all
mean a deletion. -/
structure Edit where
  target : Nat
  replacement : List Nat := []
  stopAt : Option Kind := none

/-- How far a batch of edits has come: the arena, the nodes replaced so far, and their number. -/
structure Editing where
  arena : Arena
  touched : List Nat := []

namespace Editing

def overlaps (touched : List Nat) (index : ParentIndex) (id : Nat) : Bool :=
  touched.any fun t => t == id || index.isWithin id t || index.isWithin t id

/-- The list with the first occurrence of an item replaced by others. -/
def replaceItem (item : Nat) (others : List Nat) : List Nat → List Nat
  | [] => []
  | x :: xs => if x = item then others ++ xs else x :: replaceItem item others xs

def step (index : ParentIndex) (state : Editing) (edit : Edit) : Editing :=
  match index.locate? state.arena edit.target edit.stopAt with
  | none => state
  | some located =>
    match index.parent? located with
    | none => state
    | some parent =>
      if overlaps state.touched index located then state
      else
        let arena := state.arena.modifyChildren parent (replaceItem located edit.replacement)
        if (state.arena.children parent).contains located then
          { arena, touched := located :: state.touched }
        else { state with arena }

end Editing

/-- Carries out a batch of edits, and counts those that were. An index of another generation
describes another tree, so with it nothing is done. -/
def Arena.edit (a : Arena) (index : ParentIndex) (edits : List Edit) : Arena × Nat :=
  if index.generation = a.generation then
    let state := edits.foldl (Editing.step index) { arena := a }
    (state.arena, state.touched.length)
  else (a, 0)

end Unscramble
