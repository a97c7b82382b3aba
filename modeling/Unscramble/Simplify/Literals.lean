import Unscramble.Syntax.Place
import Unscramble.Value.Cast
import Unscramble.Value.Fold

/-! Expressions of literals are replaced by the literals they come to. -/
namespace Unscramble.Simplify

/-- A unary join is a join with nothing between the items. -/
def binaryJoin? (t : Tree) : Option Tree :=
  if t.is .unaryExpression && t.token? == some .join && t.children.length == 1 then
    let attributes := ((t.element.attributes.erase "TokenKind").set "Operator"
      Operator.join.token).set "StaticType" "System.Object"
    some (.node { t.element with kind := .binaryExpression, attributes }
      (t.children ++ [stringTree .singleQuoted ""]))
  else none

def unaryJoin (t : Tree) : Option Tree := t.updateEvery? binaryJoin?

def binaryValue? (t : Tree) : Option Folded :=
  if t.is .binaryExpression then
    match t.children with
    | left :: right :: _ =>
      t.operator?.bind fun operator =>
        left.literal?.bind fun left => right.literal?.bind fun right => fold? operator left right
    | _ => none
  else none

def binaryPanics (t : Tree) : Bool :=
  t.is .binaryExpression &&
    match t.children with
    | left :: right :: _ =>
      t.operator?.any fun operator =>
        left.literal?.any fun left => right.literal?.any fun right => panics operator left right
    | _ => false

def foldBinary (t : Tree) : Option Tree :=
  t.replaceOutermost? fun s => (binaryValue? s).map fun folded => [folded.toTree]

def invocationValue? (t : Tree) : Option Value :=
  t.invocation?.bind fun (arguments, target, member) =>
    member.memberName?.bind fun method =>
      (((arguments.map Tree.children).getD []).mapM Tree.literal?).bind fun arguments =>
        if t.isStatic then
          if target.is .typeExpression then
            (target.attr? "TypeName").bind fun type =>
              staticMethod? (Text.lower type) method arguments
          else none
        else target.literal?.bind fun receiver => method? receiver method arguments

def propertyValue? (t : Tree) : Option Value :=
  if t.is .memberExpression && !t.isStatic then
    match t.children with
    | target :: member :: _ =>
      member.memberName?.bind fun name =>
        target.literal?.bind fun receiver => property? receiver name
    | _ => none
  else none

def foldInvokeMember (t : Tree) : Option Tree :=
  t.replaceOutermost? fun s =>
    (invocationValue? s <|> propertyValue? s).map fun v => [v.toTree .singleQuoted]

def castOf? (t : Tree) : Option Casted :=
  t.conversion?.bind fun (type, operand) => castTree? type operand

def foldConversions (t : Tree) : Option Tree :=
  t.replaceOutermost? fun s => (castOf? s).map fun casted => [casted.toTree]

def indexValue? (t : Tree) : Option Value :=
  if t.is .indexExpression then
    match t.children with
    | target :: index :: _ =>
      (indexedItems? target).bind fun items => index.literal?.bind (pick? items)
    | _ => none
  else none

def foldIndex (t : Tree) : Option Tree :=
  t.replaceOutermost? fun s => (indexValue? s).map fun v => [v.toTree .singleQuoted]

end Unscramble.Simplify
