import Unscramble.Syntax.Tree

/-! Places in a tree: a node together with the way that leads to it from the root. A place knows
its surroundings, and what stands there can be replaced. -/
namespace Unscramble

/-- A node and its strict ancestors, nearest first, each with the position of the child through
which it is left. -/
structure Place where
  trail : List (Tree × Nat)
  tree : Tree

namespace Place

def root (t : Tree) : Place := ⟨[], t⟩

def parent? (p : Place) : Option Tree := p.trail.head?.map (·.1)

def parentIs (p : Place) (kind : Kind) : Bool := p.parent?.any (·.is kind)

/-- The place of the parent. -/
def up? (p : Place) : Option Place :=
  match p.trail with
  | [] => none
  | (above, _) :: trail => some ⟨trail, above⟩

/-- Which child of its parent the node is. -/
def position? (p : Place) : Option Nat := p.trail.head?.map (·.2)

/-- The whole tree with another one below a trail. -/
def plug : List (Tree × Nat) → Tree → Tree
  | [], t => t
  | (above, i) :: trail, t => plug trail (above.withChildren (above.children.set i t))

/-- The whole tree with another node in this place. -/
def update (p : Place) (t : Tree) : Tree := plug p.trail t

/-- The whole tree with any number of nodes in this place. The root has no place to put them. -/
def replace? (p : Place) (new : List Tree) : Option Tree :=
  match p.trail with
  | [] => none
  | (above, i) :: trail =>
    some (plug trail
      (above.withChildren (above.children.take i ++ new ++ above.children.drop (i + 1))))

end Place

namespace Tree

mutual

def placesFrom (trail : List (Tree × Nat)) : Tree → List Place
  | .node element children =>
    ⟨trail, .node element children⟩ ::
      placesBelow trail (.node element children) 0 children

/-- The places of the children from a position on, and of all below them. -/
def placesBelow (trail : List (Tree × Nat)) (above : Tree) (i : Nat) : List Tree → List Place
  | [] => []
  | t :: ts => t.placesFrom ((above, i) :: trail) ++ placesBelow trail above (i + 1) ts

end

/-- All places of a tree, in pre-order. -/
def places (t : Tree) : List Place := t.placesFrom []

/-- Replaces the node of the first place that has a replacement. Nothing changes if that place
is the root. -/
def replaceFirst? (f : Place → Option (List Tree)) (t : Tree) : Option Tree :=
  (t.places.findSome? fun p => (f p).map (p, ·)).bind fun (p, new) => p.replace? new

mutual

/-- Replaces every outermost node below the root that has a replacement; none if there is no
such node. -/
def replaceOutermost? (f : Tree → Option (List Tree)) : Tree → Option Tree
  | .node element children => (replaceOutermostAll? f children).map (.node element)

def replaceOutermostAll? (f : Tree → Option (List Tree)) : List Tree → Option (List Tree)
  | [] => none
  | t :: ts =>
    let here := f t <|> (t.replaceOutermost? f).map ([·])
    let rest := replaceOutermostAll? f ts
    if here.isSome || rest.isSome then some (here.getD [t] ++ rest.getD ts) else none

end

mutual

/-- Updates every node that has an update, those below a node before the node itself. -/
def updateEvery? (f : Tree → Option Tree) : Tree → Option Tree
  | .node element children =>
    let below := updateEveryAll? f children
    f (.node element (below.getD children)) <|> below.map (.node element)

def updateEveryAll? (f : Tree → Option Tree) : List Tree → Option (List Tree)
  | [] => none
  | t :: ts =>
    let here := t.updateEvery? f
    let rest := updateEveryAll? f ts
    if here.isSome || rest.isSome then some (here.getD t :: rest.getD ts) else none

end

/-- What respelling a node may look at: the node and, but for the root, its parent and which
child of it the node is. -/
abbrev Respelling := Option (Tree × Nat) → Tree → Option Element

mutual

/-- Gives every node that has a new spelling its new element. The shape of the tree stays. -/
def respellFrom? (f : Respelling) (above : Option (Tree × Nat)) : Tree → Option Tree
  | .node element children =>
    let here := f above (.node element children)
    let below := respellAll? f (.node element children) 0 children
    if here.isSome || below.isSome then some (.node (here.getD element) (below.getD children))
    else none

def respellAll? (f : Respelling) (above : Tree) (i : Nat) : List Tree → Option (List Tree)
  | [] => none
  | t :: ts =>
    let here := t.respellFrom? f (some (above, i))
    let rest := respellAll? f above (i + 1) ts
    if here.isSome || rest.isSome then some (here.getD t :: rest.getD ts) else none

end

def respell? (f : Respelling) (t : Tree) : Option Tree := t.respellFrom? f none

end Tree
end Unscramble
