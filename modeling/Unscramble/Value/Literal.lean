import Unscramble.Syntax.Quoting
import Unscramble.Syntax.Tree
import Unscramble.Value.Basic

/-! The literals of a tree: the values they stand for, and the literal that stands for a value. -/
namespace Unscramble

/-- The types of numeric literals that hold whole numbers. -/
def integerTypes : List String :=
  ["int", "long", "byte", "System.Int32", "System.Int64", "System.Byte", "Int32", "Int64"]

def stringTree (quoting : Quoting) (s : String) : Tree :=
  .leaf .stringConstant [("StringConstantType", quoting.name), ("StaticType", "string")] (some s)

def intTree (n : Int64) : Tree :=
  .leaf .constant [("StaticType", "int")] (some (Value.intText n))

def boolTree (b : Bool) : Tree :=
  .leaf .variableRef [("VariablePath", if b then "true" else "false"), ("StaticType", "bool")] none

mutual

/-- The literal for a value. Strings inside a list are single-quoted. -/
def Value.toTree (quoting : Quoting) : Value → Tree
  | .text s => stringTree quoting s
  | .int n => intTree n
  | .list items =>
    .branch .arrayLiteral [("StaticType", "System.Object[]")]
      [.branch .elements [] (Value.toTrees items)]

def Value.toTrees : List Value → List Tree
  | [] => []
  | v :: vs => v.toTree .singleQuoted :: Value.toTrees vs

end

namespace Tree

/-- The value of a string or of a whole number. -/
def scalar? (t : Tree) : Option Value :=
  match t.kind with
  | .stringConstant => some (.text t.payload)
  | .constant =>
    let type := (t.attr? "StaticType").getD "int"
    if integerTypes.any (Text.sameIgnoringCase · type) then
      (Value.readInt? t.payload).map .int
    else none
  | _ => none

/-- The items of an array of scalars. -/
def items? (t : Tree) : Option (List Value) :=
  (t.childOf? .elements).bind fun elements => elements.children.mapM scalar?

def literal? (t : Tree) : Option Value :=
  if t.is .arrayLiteral then t.items?.map .list else t.scalar?

/-- The value of the variables for true and false. -/
def bool? (t : Tree) : Option Bool :=
  if t.is .variableRef then
    (t.attr? "VariablePath").bind fun path =>
      if Text.sameIgnoringCase path "true" then some true
      else if Text.sameIgnoringCase path "false" then some false
      else none
  else none

end Tree
end Unscramble
