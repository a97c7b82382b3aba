import Unscramble.Syntax.Attributes
import Unscramble.Syntax.Kind
import Unscramble.Text.Case

/-! Syntax trees. An element is what a node is apart from its children, so that a change of
spelling is a change of elements and leaves the shape of the tree alone. -/
namespace Unscramble

structure Element where
  kind : Kind
  attributes : Attributes := .empty
  text : Option String := none
  deriving DecidableEq, Inhabited

namespace Element

def attr? (element : Element) (key : String) : Option String := element.attributes.get? key

/-- The attribute's value, empty when it is absent. -/
def attr (element : Element) (key : String) : String := (element.attr? key).getD ""

def flag (element : Element) (key : String) : Bool :=
  Text.sameIgnoringCase (element.attr key) "true"

def withAttr (element : Element) (key value : String) : Element :=
  { element with attributes := element.attributes.set key value }

/-- The text payload, empty when it is absent. -/
def payload (element : Element) : String := element.text.getD ""

end Element

inductive Tree where
  | node (element : Element) (children : List Tree)

namespace Tree

mutual

def decEq : (s t : Tree) → Decidable (s = t)
  | .node e cs, .node f ds =>
    match decEq' e f, decEqList cs ds with
    | .isTrue h, .isTrue k => .isTrue (by rw [h, k])
    | .isFalse h, _ => .isFalse fun eq => h (Tree.node.inj eq).1
    | _, .isFalse k => .isFalse fun eq => k (Tree.node.inj eq).2
where decEq' (e f : Element) : Decidable (e = f) := inferInstance

def decEqList : (ss ts : List Tree) → Decidable (ss = ts)
  | [], [] => .isTrue rfl
  | [], _ :: _ => .isFalse nofun
  | _ :: _, [] => .isFalse nofun
  | s :: ss, t :: ts =>
    match decEq s t, decEqList ss ts with
    | .isTrue h, .isTrue k => .isTrue (by rw [h, k])
    | .isFalse h, _ => .isFalse fun eq => h (List.cons.inj eq).1
    | _, .isFalse k => .isFalse fun eq => k (List.cons.inj eq).2

end

instance : DecidableEq Tree := decEq
instance : Inhabited Tree := ⟨.node default []⟩

def element : Tree → Element
  | .node element _ => element

def children : Tree → List Tree
  | .node _ children => children

def kind (t : Tree) : Kind := t.element.kind

def is (t : Tree) (kind : Kind) : Bool := t.kind == kind

def attr? (t : Tree) (key : String) : Option String := t.element.attr? key

def payload (t : Tree) : String := t.element.payload

def child? (t : Tree) (i : Nat) : Option Tree := t.children[i]?

/-- The first child of a kind. -/
def childOf? (t : Tree) (kind : Kind) : Option Tree := t.children.find? (·.is kind)

/-- The children of the first child of a kind, or nothing. -/
def listOf (t : Tree) (kind : Kind) : List Tree := ((t.childOf? kind).map children).getD []

def withChildren (t : Tree) (children : List Tree) : Tree := .node t.element children

def leaf (kind : Kind) (attributes : List (String × String)) (text : Option String) : Tree :=
  .node ⟨kind, .ofList attributes, text⟩ []

def branch (kind : Kind) (attributes : List (String × String)) (children : List Tree) : Tree :=
  .node ⟨kind, .ofList attributes, none⟩ children

mutual

/-- The nodes of a tree in pre-order, each with all that stands below it. -/
def nodes : Tree → List Tree
  | .node element children => .node element children :: nodesAll children

def nodesAll : List Tree → List Tree
  | [] => []
  | t :: ts => t.nodes ++ nodesAll ts

end

mutual

def size : Tree → Nat
  | .node _ children => sizeAll children + 1

def sizeAll : List Tree → Nat
  | [] => 0
  | t :: ts => t.size + sizeAll ts

end

def hasValidArity (t : Tree) : Bool := t.kind.allowsArity t.children.length

/-- The nodes with a number of children that their kind does not allow, in pre-order. -/
def malformed (t : Tree) : List Tree := t.nodes.filter (!·.hasValidArity)

end Tree
end Unscramble
