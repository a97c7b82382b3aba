import Unscramble.Arena.Basic
import Unscramble.Syntax.Place

/-! Trees of positions. They tell which nodes of an arena stand where, and look like syntax trees once every
position is given the element that the arena has there. -/
namespace Unscramble

/-- A tree of the positions of nodes. -/
inductive IdTree where
  | node (id : Nat) (children : List IdTree)

namespace IdTree

def root : IdTree → Nat
  | .node id _ => id

def children : IdTree → List IdTree
  | .node _ below => below

mutual

/-- The nodes of a tree in pre-order, each with all that stands below it. -/
def nodes : IdTree → List IdTree
  | .node id below => .node id below :: nodesAll below

def nodesAll : List IdTree → List IdTree
  | [] => []
  | t :: ts => t.nodes ++ nodesAll ts

end

mutual

/-- The tree with elements in the places of positions. -/
def toTree (element : Nat → Element) : IdTree → Tree
  | .node id below => .node (element id) (toTreeAll element below)

def toTreeAll (element : Nat → Element) : List IdTree → List Tree
  | [] => []
  | t :: ts => t.toTree element :: toTreeAll element ts

end

end IdTree

/-- A node and its strict ancestors, nearest first, each with the position of the child through which it is
left. -/
structure Seat where
  trail : List (IdTree × Nat)
  node : IdTree

namespace Seat

def id (s : Seat) : Nat := s.node.root

/-- The seat of the parent. -/
def up? (s : Seat) : Option Seat :=
  match s.trail with
  | [] => none
  | (above, _) :: trail => some ⟨trail, above⟩

/-- The place in the syntax tree. -/
def place (element : Nat → Element) (s : Seat) : Place :=
  ⟨s.trail.map fun (above, i) => (above.toTree element, i), s.node.toTree element⟩

end Seat

namespace IdTree

mutual

def seatsFrom (trail : List (IdTree × Nat)) : IdTree → List Seat
  | .node id below => ⟨trail, .node id below⟩ :: seatsBelow trail (.node id below) 0 below

/-- The seats of the children from a position on, and of all below them. -/
def seatsBelow (trail : List (IdTree × Nat)) (above : IdTree) (i : Nat) : List IdTree → List Seat
  | [] => []
  | t :: ts => t.seatsFrom ((above, i) :: trail) ++ seatsBelow trail above (i + 1) ts

end

/-- All seats of a tree, in pre-order. -/
def seats (t : IdTree) : List Seat := t.seatsFrom []

end IdTree

namespace Arena

/-- The positions of a node and of all below it, down to a depth. -/
def layoutFrom (a : Arena) : Nat → Nat → IdTree
  | 0, id => .node id []
  | depth + 1, id => .node id ((a.children id).map (a.layoutFrom depth))

/-- The positions of the nodes in reach. No way down is longer than there are nodes. -/
def layout (a : Arena) : IdTree := a.layoutFrom a.nodes.size a.root

end Arena
end Unscramble
