import Unscramble.Syntax.Variables
import Unscramble.Value.Literal

/-! A call that reverses an array in place is carried out where the array is assigned. That needs
a variable which is written once, by a constant array earlier in the same list of statements, and
which does not occur in between. -/
namespace Unscramble.Simplify

/-- The name of the variable that a call reverses. -/
def reversedName? (call : Tree) : Option String :=
  match call.invocation? with
  | some (some arguments, target, member) =>
    let type := (target.attr? "TypeName").map Text.lower
    if call.isStatic && member.memberName? == some "reverse" && target.is .typeExpression &&
        (type == some "array" || type == some "system.array") then
      match arguments.onlyChild? with
      | some argument => if argument.isSplatted then none else argument.variableKey?
      | none => none
    else none
  | _ => none

/-- Reverses the first list of items. -/
def reverseFirstElements : List Tree → List Tree
  | [] => []
  | t :: ts =>
    if t.is .elements then .branch .elements [] t.children.reverse :: ts
    else t :: reverseFirstElements ts

def isNamed (name : String) (t : Tree) : Bool :=
  t.variablePath?.any (Text.sameIgnoringCase · name)

/-- A plain assignment of a constant array to a variable, with the array reversed. -/
def reverseAssigned? (name : String) (statement : Tree) : Option Tree :=
  match statement.isPlainAssignment, statement.children with
  | true, target :: value :: rest =>
    let core := value.unwrapStatement
    if isNamed name target && core.is .arrayLiteral && core.items?.isSome then
      some (statement.withChildren (target ::
        value.mapCore (fun array => array.withChildren (reverseFirstElements array.children)) ::
        rest))
    else none
  | _, _ => none

/-- The statements with the call at a position carried out. -/
def reverseInList? (name : String) (statements : List Tree) (call : Nat) : Option (List Tree) :=
  let before := statements.take call
  (before.findIdx? fun s => (reverseAssigned? name s).isSome).bind fun i =>
    if (before.drop (i + 1)).any fun s => s.nodes.any (isNamed name) then none
    else
      (before[i]?.bind (reverseAssigned? name)).map fun reversed =>
        before.set i reversed ++ statements.drop (call + 1)

def reverseAt? (written : List String) (p : Place) : Option Tree :=
  match p.up?, p.position? with
  | some list, some call =>
    if list.tree.is .statements then
      (reversedName? p.tree.unwrapStatement).bind fun name =>
        if Vocabulary.isAmbient name || written.count name != 1 then none
        else
          (reverseInList? name list.tree.children call).map fun statements =>
            list.update (list.tree.withChildren statements)
    else none
  | _, _ => none

def reverseConstArray (t : Tree) : Option Tree :=
  let written := t.writes
  t.places.findSome? (reverseAt? written)

end Unscramble.Simplify
