import Unscramble.Syntax.Variables
import Unscramble.Value.Literal

/-! Variables that are written and never read, and variables that are read and never written. -/
namespace Unscramble.Simplify

def isEffect (t : Tree) : Bool :=
  match t.kind with
  | .command | .invokeMember | .assignment | .subExpression | .arrayExpression
  | .expandableString | .unsupported .. => true
  | _ => t.isIncrement

/-- Whether evaluating an expression can neither run code nor write anything. -/
def isPure (t : Tree) : Bool := !t.nodes.any isEffect

/-- A statement that only assigns a value without effects to a variable of the script's own which
is not among the names read. -/
def isDeadAssignment (read : List String) (p : Place) : Bool :=
  p.tree.isPlainAssignment && p.parentIs .statements &&
    match p.tree.children with
    | target :: value :: _ =>
      target.variablePath?.any fun path =>
        !Vocabulary.isAmbient path && !read.contains (Text.lower path) && isPure value
    | _ => false

def removeUnusedVariable (t : Tree) : Option Tree :=
  if t.hasDynamicVariables then none
  else
    let read := t.reads
    t.replaceFirst? fun p => if isDeadAssignment read p then some [] else none

/-- A variable of the script's own that holds nothing, as its name is not among the known ones. -/
def isUnassigned (known : List String) (t : Tree) : Bool :=
  t.variablePath?.any fun path =>
    !t.isSplatted && !Vocabulary.isAmbient path && !known.contains (Text.lower path)

def integer? (t : Tree) : Option Int64 :=
  match t.scalar? with
  | some (.int n) => some n
  | _ => none

/-- What arithmetic with a variable that holds nothing comes to. -/
def withoutUnassigned? (known : List String) (t : Tree) : Option Tree :=
  if t.is .binaryExpression then
    match t.children with
    | left :: right :: _ =>
      match t.operator?, isUnassigned known left, isUnassigned known right with
      | some .plus, true, _ => some right
      | some .plus, false, true => some left
      | some .minus, _, true => some left
      | some .minus, true, false =>
        ((integer? right).bind fun n => Text.word? (-n.toInt)).map intTree
      | some .multiply, true, false => (integer? right).map fun _ => intTree 0
      | some .multiply, false, true => (integer? left).map fun _ => intTree 0
      | _, _, _ => none
    | _ => none
  else none

def removeUnassignedUse (t : Tree) : Option Tree :=
  if t.hasDynamicVariables then none
  else
    let known := t.writes ++ t.parameterNames
    t.replaceFirst? fun p => (withoutUnassigned? known p.tree).map ([·])

end Unscramble.Simplify
