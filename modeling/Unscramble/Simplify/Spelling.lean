import Unscramble.Syntax.Place
import Unscramble.Syntax.Shape
import Unscramble.Text.Letter
import Unscramble.Vocabulary

/-! One spelling for words that can be written in several ways. None of these changes touches the
shape of a tree. -/
namespace Unscramble.Simplify

def withText (t : Tree) (s : String) : Element := { t.element with text := some s }

def asBareword (t : Tree) : Element :=
  t.element.withAttr "StringConstantType" Quoting.bareWord.name

/-- A new value, unless it is the old one. -/
def changed? (old new : String) : Option String := if new == old then none else some new

/-- A qualified name whose drive is one of the lower-case ones. -/
def lowerDrive? (path : String) : Option String :=
  (Text.cut? [':'] path.toList).bind fun (drive, rest) =>
    let drive := String.ofList drive
    let lowered := Text.lower drive
    if (lowered == "env" || lowered == "variable") && lowered != drive then
      some (lowered ++ ":" ++ String.ofList rest)
    else none

def prefixCaseOf : Tree.Respelling := fun _ t =>
  if t.isBareword then (lowerDrive? t.payload).map (withText t)
  else (t.variablePath?.bind lowerDrive?).map (t.element.withAttr "VariablePath")

def prefixCase (t : Tree) : Option Tree := t.respell? prefixCaseOf

def barewordCaseOf : Tree.Respelling := fun _ t =>
  if t.isBareword then
    (changed? t.payload (Vocabulary.canonicalCase t.payload)).map (withText t)
  else none

def barewordCase (t : Tree) : Option Tree := t.respell? barewordCaseOf

/-- A string that is quoted in some way. -/
def isQuoted (t : Tree) : Bool := t.quoting?.isSome && !t.isBareword

/-- Whether a child is the member of an access or an invocation. -/
def isMember (above : Tree) (i : Nat) : Bool :=
  (above.is .invokeMember || above.is .memberExpression) && i + 1 == above.children.length

def memberCaseOf : Tree.Respelling := fun above t =>
  if above.any (fun (above, i) => isMember above i) && isQuoted t then
    (Vocabulary.bareword? t.payload).map fun word => { asBareword t with text := some word }
  else none

def memberCase (t : Tree) : Option Tree := t.respell? memberCaseOf

/-- Words that mean the same with and without quotes. -/
def isPlainWord (s : String) : Bool :=
  s.toList.head?.any Text.isLetter && Quoting.bareWord.escape s.toList == s.toList

def commandBarewordOf : Tree.Respelling := fun above t =>
  match above with
  | some (above, i) =>
    if above.is .commandElements && isQuoted t && isPlainWord t.payload &&
        (i == 0 || (Vocabulary.bareword? t.payload).isSome) then
      some (asBareword t)
    else none
  | none => none

def commandBareword (t : Tree) : Option Tree := t.respell? commandBarewordOf

def isCommandName (above : Tree) (i : Nat) : Bool := above.is .commandElements && i == 0

def aliasToCmdletOf : Tree.Respelling := fun above t =>
  if above.any (fun (above, i) => isCommandName above i) && t.isBareword then
    (Vocabulary.aliasTarget? t.payload).map (withText t)
  else none

def aliasToCmdlet (t : Tree) : Option Tree := t.respell? aliasToCmdletOf

def specialVariableCaseOf : Tree.Respelling := fun _ t =>
  t.variablePath?.bind fun path =>
    ((Vocabulary.specialVariable? path).bind (changed? path)).map
      (t.element.withAttr "VariablePath")

def specialVariableCase (t : Tree) : Option Tree := t.respell? specialVariableCaseOf

/-- The name of a type without its namespace `System`. -/
def dropSystem (name : String) : String :=
  let start := "system.".toList
  if Text.startsBy (fun a b => a.toLower == b.toLower) start name.toList then
    String.ofList (name.toList.drop start.length)
  else name

/-- The type that a cast resolves to, if the constraint at a position spells another one. -/
def resolvedType? (above : Tree) (i : Nat) (constraint : Tree) : Option String :=
  if above.is .convert && above.children.findIdx? (·.is .typeConstraint) == some i then
    (above.attr? "StaticType").bind fun type =>
      if Text.sameIgnoringCase type "System.Object" ||
          Text.sameIgnoringCase (dropSystem (constraint.element.attr "TypeName"))
            (dropSystem type) then none
      else some type
  else none

def typeConstraintOf : Tree.Respelling := fun above t =>
  (above.bind fun (above, i) => resolvedType? above i t).map (t.element.withAttr "TypeName")

def typeConstraintFromConvert (t : Tree) : Option Tree := t.respell? typeConstraintOf

def typeNameCaseOf : Tree.Respelling := fun _ t =>
  if t.is .typeConstraint || t.is .typeExpression then
    ((t.attr? "TypeName").bind fun name => changed? name (Vocabulary.canonicalCase name)).map
      (t.element.withAttr "TypeName")
  else none

def typeNameCase (t : Tree) : Option Tree := t.respell? typeNameCaseOf

end Unscramble.Simplify
