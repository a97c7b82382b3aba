import Unscramble.Arena.Edit
import Unscramble.Arena.IdTree

/-! What a rule is going to do to an arena. A rule reads the arena as it is and then changes it, either node by
node or in one batch of edits, and tells from that whether it has changed anything. -/
namespace Unscramble

/-- What to put in a place: a node that is there already, with all that stands below it, or a new one. -/
inductive Sketch where
  | kept (node : IdTree)
  | made (element : Element) (below : List Sketch)

namespace Sketch

mutual

def ofTree : Tree → Sketch
  | .node element children => .made element (ofTrees children)

def ofTrees : List Tree → List Sketch
  | [] => []
  | t :: ts => ofTree t :: ofTrees ts

end

end Sketch

namespace Arena

mutual

/-- Adds the new nodes of a sketch without attaching them, and answers the position of what it is a sketch
of. -/
def draw (a : Arena) : Sketch → Arena × Nat
  | .kept node => (a, node.root)
  | .made element below =>
    let (b, ids) := a.drawAll below
    b.add element ids

def drawAll (a : Arena) : List Sketch → Arena × List Nat
  | [] => (a, [])
  | s :: ss =>
    let (b, id) := a.draw s
    let (c, ids) := b.drawAll ss
    (c, id :: ids)

end

/-- Draws what is to be put in the places of nodes, and gathers the edits that put it there. -/
def drawEdits (a : Arena) : List (Nat × List Sketch) → Arena × List Edit
  | [] => (a, [])
  | (target, new) :: rest =>
    let (b, replacement) := a.drawAll new
    let (c, edits) := b.drawEdits rest
    (c, { target, replacement } :: edits)

end Arena

/-- What a rule is going to do. -/
inductive Plan where
  /-- Gives nodes new elements. -/
  | respell (patches : List (Nat × Element))
  /-- Gives nodes new elements, and each of them one more child, which is new and has none itself. -/
  | extend (patches : List (Nat × Element)) (child : Element)
  /-- Leaves a node with some of its children. -/
  | retain (id : Nat) (children : List IdTree)
  /-- Replaces nodes in one batch. Whether that is a change depends on how many were replaced. -/
  | replace (edits : List (Nat × List Sketch)) (changes : Nat → Bool)

namespace Plan

def extendNode (child : Element) (a : Arena) : Nat × Element → Arena
  | (id, element) =>
    let (b, new) := a.add child []
    (b.modifyElement id fun _ => element).pushChild id new

/-- Carries out a plan for an arena, and tells whether it has changed anything. New nodes are out of reach
until the edits are carried out, so an index of the arena describes it with them as well. -/
def carryOut (a : Arena) : Plan → Arena × Bool
  | .respell patches =>
    (patches.foldl (fun a (id, element) => a.modifyElement id fun _ => element) a, !patches.isEmpty)
  | .extend patches child => (patches.foldl (extendNode child) a, !patches.isEmpty)
  | .retain id children => (a.setChildren id (children.map IdTree.root), true)
  | .replace edits changes =>
    let (b, edits) := a.drawEdits edits
    let (c, count) := b.edit (.build a) edits
    (c, changes count)

end Plan
end Unscramble
