import Unscramble.Syntax.Place

/-! Lists that a construct may do without are dropped once they hold nothing. -/
namespace Unscramble.Simplify

def isOptionalList : Kind → Bool
  | .attributeList | .redirections | .catchTypes => true
  | _ => false

def isEmptyOptional (t : Tree) : Bool := isOptionalList t.kind && t.children.isEmpty

def removeEmptyContainers (t : Tree) : Option Tree :=
  t.replaceOutermost? fun s => if isEmptyOptional s then some [] else none

end Unscramble.Simplify
