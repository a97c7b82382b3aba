import Unscramble.Syntax.Quoting
import Unscramble.Text.Letter
import Unscramble.Value.Compare
import Unscramble.Value.Format
import Unscramble.Value.Literal

/-! Operators on literals. -/
namespace Unscramble

/-- What an expression of literals comes to: a value and how to quote it, or a truth value. -/
inductive Folded where
  | value (v : Value) (quoting : Quoting)
  | truth (b : Bool)

def Folded.toTree : Folded → Tree
  | .value v quoting => v.toTree quoting
  | .truth b => boolTree b

/-- Characters that mean something in a regular expression. -/
def isPatternSyntax (c : Char) : Bool :=
  ['\\', '^', '$', '.', '|', '?', '*', '+', '(', ')', '[', ']', '{', '}'].contains c

/-- A pattern that only matches itself. -/
def isLiteralPattern (pattern : String) : Bool :=
  !pattern.isEmpty && !pattern.toList.any isPatternSyntax

/-- The most bytes that a repeated string may have. -/
def maxRepeatBytes : Nat := 4096

def repeatText? (s : String) (times : Int) : Option String :=
  if times < 0 then none
  else if s.isEmpty then some ""
  else if s.utf8ByteSize * times.toNat ≤ maxRepeatBytes then
    some (String.join (List.replicate times.toNat s))
  else none

/-- Replaces every occurrence of a literal pattern. -/
def replaceText? (minding : Bool) (subject pattern replacement : String) : Option String :=
  if isLiteralPattern pattern && !replacement.toList.contains '$' then
    let same (a b : Char) : Bool := if minding then a == b else a.toLower == b.toLower
    some (String.ofList (Text.join replacement.toList
      (Text.splitFrom same pattern.toList 0 subject.toList)))
  else none

/-- The pattern and the replacement on the right of a replacing operator. -/
def replacement? : Value → Option (String × String)
  | .text pattern => some (pattern, "")
  | .list [pattern] => some (pattern.display, "")
  | .list [pattern, replacement] => some (pattern.display, replacement.display)
  | _ => none

/-- The parts of a subject between the occurrences of a literal pattern. A pattern with letters
would also match in the other case, unless case counts. -/
def splitText? (minding : Bool) (subject pattern : String) : Option (List Value) :=
  if isLiteralPattern pattern && (minding || !pattern.toList.any Text.isLetter) then
    some ((Text.splitOn pattern.toList subject.toList).map fun part => .text (String.ofList part))
  else none

def joinItems (separator : String) (items : List Value) : String :=
  separator.intercalate (items.map Value.display)

def Value.asList : Value → List Value
  | .list items => items
  | scalar => [scalar]

/-- The sum of two literals, and whether it was a concatenation of strings. -/
def add? : Value → Value → Option Value
  | .text a, b => some (.text (a ++ b.display))
  | .int a, .int b => (Operator.plus.evalInt? a b).map .int
  | .int a, .text b => ((Value.readInt? b).bind fun b => Operator.plus.evalInt? a b).map .int
  | .int _, .list _ => none
  | .list a, .list b => some (.list (a ++ b))
  | .list a, b => some (.list (a ++ [b]))

/-- The value of an operator other than a comparison. -/
def evaluate? (operator : Operator) (left right : Value) : Option Value :=
  match operator, left with
  | .plus, left => add? left right
  | .multiply, .text a =>
    (right.toInt?.bind fun n => repeatText? a n.toInt).map .text
  | .minus, .int a | .multiply, .int a | .bxor, .int a | .band, .int a | .bor, .int a =>
    (right.toInt?.bind fun b => operator.evalInt? a b).map .int
  | .format, .text pattern => (formatString? pattern right.asList).map .text
  | .ireplace, .text subject | .creplace, .text subject =>
    ((replacement? right).bind fun (pattern, replacement) =>
      replaceText? (operator == .creplace) subject pattern replacement).map .text
  | .isplit, .text subject | .csplit, .text subject =>
    match right with
    | .text pattern => (splitText? (operator == .csplit) subject pattern).map .list
    | _ => none
  | .join, left =>
    match right with
    | .text separator => some (.text (joinItems separator left.asList))
    | _ => none
  | _, _ => none

/-- Whether working out an operator brings the program down. -/
def panics (operator : Operator) (left right : Value) : Bool :=
  match operator, left with
  | .format, .text pattern => formatPanics pattern right.asList
  | _, _ => false

/-- Concatenated strings get double quotes, and all else single ones. -/
def quotingOf (operator : Operator) (left : Value) : Quoting :=
  match operator, left with
  | .plus, .text _ => .doubleQuoted
  | _, _ => .singleQuoted

def fold? (operator : Operator) (left right : Value) : Option Folded :=
  if operator.isComparison then (operator.compare? left right).map .truth
  else (evaluate? operator left right).map fun v => .value v (quotingOf operator left)

end Unscramble
