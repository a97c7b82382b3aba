import Unscramble.Arena.Basic

/-! The parents of the nodes that can be reached, as they were when the index was built. -/
namespace Unscramble

/-- Pairs of a child and its parent, the last one met first, and the generation they belong to. -/
structure ParentIndex where
  links : List (Nat × Nat)
  generation : Nat
  deriving DecidableEq

namespace ParentIndex

def build (a : Arena) : ParentIndex where
  links := (a.reachable.flatMap fun id => (a.children id).map (·, id)).reverse
  generation := a.generation

def parent? (index : ParentIndex) (id : Nat) : Option Nat :=
  (index.links.find? (·.1 == id)).map (·.2)

def ancestorsFrom (index : ParentIndex) : Nat → Nat → List Nat
  | 0, _ => []
  | n + 1, id =>
    match index.parent? id with
    | none => []
    | some parent => parent :: index.ancestorsFrom n parent

/-- The strict ancestors of a node, nearest first. There are no more of them than links. -/
def ancestors (index : ParentIndex) (id : Nat) : List Nat :=
  index.ancestorsFrom index.links.length id

/-- The nearest strict ancestor of a kind. -/
def enclosing? (index : ParentIndex) (a : Arena) (id : Nat) (kind : Kind) : Option Nat :=
  (index.ancestors id).find? fun above => (a.kind above).alike kind

def isWithin (index : ParentIndex) (id ancestor : Nat) : Bool :=
  (index.ancestors id).contains ancestor

/-- The node that an edit of `target` acts on: the target, or the first node of the kind `stopAt`
on the way up from it. Nodes out of reach have none. -/
def locate? (index : ParentIndex) (a : Arena) (target : Nat) (stopAt : Option Kind) : Option Nat :=
  if target != a.root && (index.parent? target).isNone then none
  else
    match stopAt with
    | none => some target
    | some kind =>
      if (a.kind target).alike kind then some target else index.enclosing? a target kind

end ParentIndex
end Unscramble
