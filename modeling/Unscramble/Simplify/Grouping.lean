import Unscramble.Syntax.Place
import Unscramble.Syntax.Shape

/-! Grouping nodes around a single expression are dropped where nothing depends on them. -/
namespace Unscramble.Simplify

/-- Expressions that read the same with or without parentheses around them. -/
def isSelfDelimited : Kind → Bool
  | .stringConstant | .expandableString | .constant | .variableRef | .arrayLiteral | .hashtable
  | .parenExpression | .subExpression | .arrayExpression | .indexExpression | .memberExpression
  | .invokeMember | .typeExpression | .scriptBlockExpression => true
  | _ => false

def isPipelinePart : Kind → Bool
  | .pipeline | .pipelineElements | .commandExpression => true
  | _ => false

/-- The node below a chain of pipeline parts with one child each. -/
def pipelineCore? : Tree → Option Tree
  | .node element [child] =>
    if isPipelinePart element.kind then pipelineCore? child else some (.node element [child])
  | t => if isPipelinePart t.kind then none else some t

def unwrapParen (t : Tree) : Option Tree :=
  t.replaceFirst? fun p =>
    if p.tree.is .parenExpression then
      ((p.tree.onlyChild?.bind pipelineCore?).filter fun inner => isSelfDelimited inner.kind).map
        ([·])
    else none

def unwrapPipeline (t : Tree) : Option Tree :=
  t.replaceFirst? fun p =>
    if p.tree.is .pipeline then
      (p.tree.onlyChild?.bind fun inner =>
        if inner.is .pipelineElements then inner.onlyChild? else some inner).map ([·])
    else none

/-- Whether the value of a node is only written to the output, where lists are enumerated. -/
def isOutput (p : Place) : Bool :=
  match p.up? with
  | none => false
  | some statement =>
    statement.tree.is .commandExpression &&
      match statement.up? with
      | none => false
      | some list =>
        if list.tree.is .pipelineElements then
          (list.up?).any fun pipeline => pipeline.parentIs .statements
        else list.tree.is .statements

def unwrapSingleArray (t : Tree) : Option Tree :=
  t.replaceFirst? fun p =>
    if p.tree.is .arrayLiteral && isOutput p then
      (((p.tree.childOf? .elements).bind Tree.onlyChild?).filter
        (!·.kind.needsGrouping)).map ([·])
    else none

end Unscramble.Simplify
