import Unscramble.Value.Literal
import Unscramble.Value.Method
import Unscramble.Vocabulary
import Unscramble.Syntax.Shape

/-! Casts and indexing of literals. -/
namespace Unscramble

/-- What a cast comes to: a literal and how to quote it, or a type. -/
inductive Casted where
  | value (v : Value) (quoting : Quoting)
  | type (name : String)

def Casted.toTree : Casted → Tree
  | .value v quoting => v.toTree quoting
  | .type name => .leaf .typeExpression [("TypeName", name)] none

/-- The numbers that a type holds. -/
def inRange? (type : String) (n : Int) : Option Bool :=
  match type with
  | "byte" => some (0 ≤ n && n < UInt8.size)
  | "int" | "int32" => some ((Int32.ofInt n).toInt == n)
  | "long" | "int64" => some true
  | _ => none

def character? (code : Int) : Option Char :=
  if 0 ≤ code ∧ code.toNat.isValidChar then some (Char.ofNat code.toNat) else none

def castValue? (type : String) (v : Value) : Option Value :=
  match type, v with
  | "string", v => some (.text v.display)
  | "char", .int code => (character? code.toInt).map fun c => .text (String.ofList [c])
  | "char", .text s => if s.length == 1 then some (.text s) else none
  | "char[]", .text s => some (.list (characters s))
  | "array", .text s => some (.text s)
  | type, v =>
    v.toInt?.bind fun n => if inRange? type n.toInt == some true then some (.int n) else none

def cast? (type : String) (v : Value) : Option Casted :=
  match type, v with
  | "type", .text name => if name.isEmpty then none else some (.type name)
  | type, v =>
    (castValue? type v).map fun v =>
      .value v (if type == "string" then .doubleQuoted else .singleQuoted)

/-- The cast of an operand. Some automatic variables have a known string value. -/
def castTree? (type : String) (operand : Tree) : Option Casted :=
  let special? := operand.variablePath?.bind Vocabulary.specialValue?
  match type == "string", special? with
  | true, some s => some (.value (.text s) .doubleQuoted)
  | _, _ => operand.literal?.bind (cast? type)

/-- The item at an index, counted from the end if the index is negative. -/
def itemAt? (items : List Value) (index : Value) : Option Value :=
  index.toInt?.bind fun i =>
    let i := if i.toInt < 0 then items.length + i.toInt else i.toInt
    if i < 0 then none else items[i.toNat]?

/-- The items of what is indexed: the characters of a string, or the items of a list. -/
def indexedItems? (target : Tree) : Option (List Value) :=
  let value? : Option Value :=
    match target.variablePath? with
    | some path => (Vocabulary.specialValue? path).map .text
    | none => target.literal?
  value?.bind fun
    | .text s => some (characters s)
    | .list items => some items
    | .int _ => none

/-- A list of indexes picks a list of items. -/
def pick? (items : List Value) : Value → Option Value
  | .list indexes => (indexes.mapM (itemAt? items)).map .list
  | index => itemAt? items index

end Unscramble
