import Unscramble.Syntax.Place
import Unscramble.Syntax.Shape
import Unscramble.Vocabulary

/-! Which variables a tree writes and which it reads. Names are in lower case. -/
namespace Unscramble.Tree

def variableKey? (t : Tree) : Option String := t.variablePath?.map Text.lower

mutual

/-- The names written through a target: the variable itself, the one that an index, a member or
a cast is rooted at, or all those of a multiple assignment. -/
def targets : Tree → List String
  | .node element children =>
    match element.kind with
    | .variableRef => (variableKey? (.node element children)).toList
    | .indexExpression | .memberExpression => targetsFirst children
    | .convert => targetsAll true children
    | .arrayLiteral | .elements => targetsAll false children
    | _ => []

def targetsFirst : List Tree → List String
  | [] => []
  | t :: _ => t.targets

def targetsAll (cast : Bool) : List Tree → List String
  | [] => []
  | t :: ts =>
    (if cast && t.is .typeConstraint then [] else t.targets) ++ targetsAll cast ts

end

/-- The names that a node itself writes, as an assignment, an increment or a loop over a variable. -/
def ownWrites (t : Tree) : List String :=
  match t.kind with
  | .assignment => targetsFirst t.children
  | .unaryExpression => if t.isIncrement then targetsFirst t.children else []
  | .forEach => (t.children.head?.bind variableKey?).toList
  | _ => []

/-- Every name written in a tree, once for each write. -/
def writes (t : Tree) : List String := t.nodes.flatMap ownWrites

/-- The names of the parameters declared in a tree. -/
def parameterNames (t : Tree) : List String :=
  (t.nodes.filter (·.is .parameter)).filterMap fun p =>
    (p.childOf? .variableRef).bind variableKey?

def dropDrive (name : String) : String :=
  String.ofList ((Text.dropStart? "variable:".toList name.toList).getD name.toList)

/-- The names read in a tree: all that occur but for the targets of plain assignments. -/
def reads (t : Tree) : List String :=
  t.places.filterMap fun p =>
    let assigned := p.parent?.any isPlainAssignment && p.position? == some 0
    if assigned then none else p.tree.variableKey?.map dropDrive

/-- Commands that create, read or drop variables by name, so that a walk over the tree does not
see what they write. -/
def variableCommands : List String :=
  ["set-variable", "new-variable", "remove-variable", "clear-variable", "get-variable",
    "sv", "nv", "rv", "clv", "gv", "set"]

def usesVariablesByName (t : Tree) : Bool :=
  t.variableKey?.any ("variable:".toList.isPrefixOf ·.toList) ||
    (t.is .commandElements &&
      t.children.head?.any fun name =>
        name.is .stringConstant && variableCommands.contains (Text.lower name.payload))

def hasDynamicVariables (t : Tree) : Bool := t.nodes.any usesVariablesByName

end Unscramble.Tree
