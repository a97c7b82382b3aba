import Unscramble.Syntax.Operator
import Unscramble.Syntax.Quoting
import Unscramble.Syntax.Tree
import Unscramble.Text.Split

/-! What the nodes of a tree say: their operators, the parts of invocations and conversions, and
the expression that a statement carries. -/
namespace Unscramble

namespace Element

def operator? (element : Element) : Option Operator :=
  (element.attr? "Operator").bind Operator.ofToken?

def token? (element : Element) : Option Operator :=
  (element.attr? "TokenKind").bind Operator.ofToken?

def isIncrement (element : Element) : Bool :=
  element.kind == .unaryExpression && element.token?.any Operator.isIncrement

/-- An assignment by `=`, which does not read what it writes. -/
def isPlainAssignment (element : Element) : Bool :=
  element.kind == .assignment && element.operator? == some .equals

end Element

namespace Tree

def variablePath? (t : Tree) : Option String :=
  if t.is .variableRef then t.attr? "VariablePath" else none

def isSplatted (t : Tree) : Bool := t.element.flag "Splatted"

def isStatic (t : Tree) : Bool := t.element.flag "Static"

def quoting? (t : Tree) : Option Quoting :=
  if t.is .stringConstant then (t.attr? "StringConstantType").bind Quoting.ofName? else none

def isBareword (t : Tree) : Bool := t.quoting? == some .bareWord

def operator? (t : Tree) : Option Operator := t.element.operator?

def token? (t : Tree) : Option Operator := t.element.token?

def isIncrement (t : Tree) : Bool := t.element.isIncrement

def isPlainAssignment (t : Tree) : Bool := t.element.isPlainAssignment

def onlyChild? (t : Tree) : Option Tree :=
  match t.children with
  | [only] => some only
  | _ => none

/-- The list of arguments, the target and the member of an invocation. -/
def invocation? (t : Tree) : Option (Option Tree × Tree × Tree) :=
  if t.is .invokeMember then
    match t.children with
    | [arguments, target, member] =>
      if arguments.is .arguments then some (some arguments, target, member) else none
    | [target, member] => some (none, target, member)
    | _ => none
  else none

/-- The name of a member that is written as a bareword, in lower case. -/
def memberName? (t : Tree) : Option String :=
  if t.isBareword then some (Text.lower t.payload) else none

/-- The first child beside the type constraint of a conversion. -/
def operand? (t : Tree) : Option Tree :=
  match t.children with
  | [] => none
  | c :: cs => if c.is .typeConstraint then cs.head? else some c

/-- The type that a conversion names, in lower case and without its namespace `System`, and the
operand. -/
def conversion? (t : Tree) : Option (String × Tree) :=
  if t.is .convert then
    (t.childOf? .typeConstraint).bind fun constraint =>
      t.operand?.bind fun operand =>
        (constraint.attr? "TypeName").map fun name =>
          let name := (Text.lower name).toList
          (String.ofList ((Text.dropStart? "system.".toList name).getD name), operand)
  else none

/-- Nodes that only wrap the single child they have. -/
def isWrapper (kind : Kind) (child : Tree) : Bool :=
  match kind with
  | .pipeline | .pipelineElements | .parenExpression => true
  | .commandExpression => !child.is .redirections
  | _ => false

/-- Follows wrappers of a single child down to the expression they carry. -/
def unwrapStatement : Tree → Tree
  | .node element [child] =>
    if isWrapper element.kind child then child.unwrapStatement else .node element [child]
  | t => t

/-- Changes the expression that a statement carries. -/
def mapCore (f : Tree → Tree) : Tree → Tree
  | .node element [child] =>
    if isWrapper element.kind child then .node element [child.mapCore f]
    else f (.node element [child])
  | t => f t

/-- The statements that a block holds. -/
def statements (t : Tree) : List Tree := t.listOf .statements

end Tree
end Unscramble
