import Unscramble.Syntax.Tree

/-! Trees whose nodes have an identity. The nodes of an arena are named by their positions in it,
and two nodes that look the same are still two. Nodes that cannot be reached from the root stay in
the arena. A generation counts the changes of shape. -/
namespace Unscramble

structure ArenaNode where
  element : Element
  children : List Nat := []
  deriving Inhabited

structure Arena where
  nodes : Array ArenaNode
  root : Nat := 0
  generation : Nat := 0

namespace Arena

def node? (a : Arena) (id : Nat) : Option ArenaNode := a.nodes[id]?

def element (a : Arena) (id : Nat) : Element := ((a.node? id).map (·.element)).getD default

def kind (a : Arena) (id : Nat) : Kind := (a.element id).kind

def children (a : Arena) (id : Nat) : List Nat := ((a.node? id).map (·.children)).getD []

def modifyNode (a : Arena) (id : Nat) (f : ArenaNode → ArenaNode) : Arena :=
  { a with nodes := a.nodes.modify id f }

/-- Changes what a node is apart from its children. -/
def modifyElement (a : Arena) (id : Nat) (f : Element → Element) : Arena :=
  a.modifyNode id fun n => { n with element := f n.element }

/-- Changes the list of children of a node, which starts a new generation. -/
def modifyChildren (a : Arena) (id : Nat) (f : List Nat → List Nat) : Arena :=
  { a.modifyNode id (fun n => { n with children := f n.children }) with
    generation := a.generation + 1 }

def setAttr (a : Arena) (id : Nat) (key value : String) : Arena :=
  a.modifyElement id (·.withAttr key value)

def setText (a : Arena) (id : Nat) (text : Option String) : Arena :=
  a.modifyElement id fun e => { e with text }

def pushChild (a : Arena) (parent child : Nat) : Arena := a.modifyChildren parent (· ++ [child])

def setChildren (a : Arena) (parent : Nat) (children : List Nat) : Arena :=
  a.modifyChildren parent fun _ => children

/-- Adds a node below which the given nodes are put. -/
def add (a : Arena) (element : Element) (children : List Nat) : Arena × Nat :=
  ({ a with nodes := a.nodes.push ⟨element, children⟩ }, a.nodes.size)

/-- The positions of trees that are stored one after the other. -/
def rootsFrom (id : Nat) : List Tree → List Nat
  | [] => []
  | t :: ts => id :: rootsFrom (id + t.size) ts

mutual

/-- The nodes of a tree in pre-order, if the first of them has the given position. -/
def flatten (id : Nat) : Tree → List ArenaNode
  | .node element children =>
    ⟨element, rootsFrom (id + 1) children⟩ :: flattenAll (id + 1) children

def flattenAll (id : Nat) : List Tree → List ArenaNode
  | [] => []
  | t :: ts => flatten id t ++ flattenAll (id + t.size) ts

end

def ofTree (t : Tree) : Arena := { nodes := (flatten 0 t).toArray }

/-- Adds the nodes of a tree without attaching them, and answers the position of its root. -/
def insert (a : Arena) (t : Tree) : Arena × Nat :=
  ({ a with nodes := a.nodes ++ (flatten a.nodes.size t).toArray }, a.nodes.size)

/-- The tree below a node, down to a depth. -/
def treeFrom (a : Arena) : Nat → Nat → Tree
  | 0, id => .node (a.element id) []
  | depth + 1, id => .node (a.element id) ((a.children id).map (a.treeFrom depth))

/-- The tree below a node. No way down is longer than there are nodes. -/
def treeAt (a : Arena) (id : Nat) : Tree := a.treeFrom a.nodes.size id

def toTree (a : Arena) : Tree := a.treeAt a.root

mutual

/-- Adds the nodes of a tree without attaching them, each after all that stands below it, and answers the
position of its root. -/
def copy (a : Arena) : Tree → Arena × Nat
  | .node element children =>
    let (b, below) := a.copyAll children
    b.add element below

def copyAll (a : Arena) : List Tree → Arena × List Nat
  | [] => (a, [])
  | t :: ts =>
    let (b, id) := a.copy t
    let (c, ids) := b.copyAll ts
    (c, id :: ids)

end

/-- Copies the tree below a node of another arena, and answers the position of the copy. -/
def graft (a source : Arena) (id : Nat) : Arena × Nat := a.copy (source.treeAt id)

/-- Whether two nodes look the same, and all below them. -/
def looksLike (a : Arena) (id : Nat) (b : Arena) (other : Nat) : Bool :=
  a.treeAt id == b.treeAt other

/-- The first child of a kind. -/
def childOf? (a : Arena) (id : Nat) (kind : Kind) : Option Nat :=
  (a.children id).find? fun c => (a.kind c).alike kind

/-- A walk in pre-order: the nodes that are still to be visited with all below them. -/
abbrev Cursor := List Nat

/-- The next node of a walk, and the rest of the walk. -/
def Cursor.next? (a : Arena) : Cursor → Option (Nat × Cursor)
  | [] => none
  | id :: rest => some (id, a.children id ++ rest)

/-- The first nodes of a walk. -/
def Cursor.take (a : Arena) : Nat → Cursor → List Nat
  | 0, _ => []
  | n + 1, cursor =>
    match cursor.next? a with
    | none => []
    | some (id, rest) => id :: Cursor.take a n rest

def weightFrom (a : Arena) : Nat → Nat → Nat
  | 0, _ => 1
  | depth + 1, id => ((a.children id).map (a.weightFrom depth)).sum + 1

/-- The number of steps of a walk through a node and all below it. -/
def weight (a : Arena) (id : Nat) : Nat := a.weightFrom a.nodes.size id

/-- A node and all below it, in pre-order. -/
def descendants (a : Arena) (id : Nat) : List Nat := Cursor.take a (a.weight id) [id]

/-- The nodes that can be reached from the root. -/
def reachable (a : Arena) : List Nat := a.descendants a.root

def size (a : Arena) : Nat := a.reachable.length

end Arena
end Unscramble
