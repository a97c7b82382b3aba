import Unscramble.Text.Case
import Unscramble.Text.Split
import Unscramble.Value.Basic

/-! Methods and properties of literals. Names of methods are in lower case. -/
namespace Unscramble

def texts (parts : List (List Char)) : Value :=
  .list (parts.map fun part => .text (String.ofList part))

/-- A string as the list of its characters. -/
def characters (s : String) : List Value := s.toList.map fun c => .text (String.ofList [c])

def asText? : Value → Option String
  | .text s => some s
  | _ => none

/-- The characters from a position on, and at most as many as are there. -/
def substring? (s : String) (start length : Int) : Option String :=
  if 0 ≤ start ∧ 0 ≤ length ∧ start + length ≤ s.length then
    some (String.ofList ((s.toList.drop start.toNat).take length.toNat))
  else none

/-- The parts between the characters of the given strings. -/
def splitAtAny? (s : String) (separators : List Value) : Option Value :=
  (separators.mapM asText?).bind fun separators =>
    let stops := (String.join separators).toList
    if stops.isEmpty then none else some (texts (Text.splitWhere stops.contains s.toList))

def replaceAll? (s pattern replacement : String) : Option String :=
  if pattern.isEmpty then none
  else some (String.ofList
    (Text.join replacement.toList (Text.splitOn pattern.toList s.toList)))

def stringMethod? (s method : String) (arguments : List Value) : Option Value :=
  match method, arguments with
  | "split", [] => some (texts (Text.splitWhere Text.isBlank s.toList))
  | "split", separators => splitAtAny? s separators
  | "replace", [.text pattern, .text replacement] =>
    (replaceAll? s pattern replacement).map .text
  | "tolower", [] | "tolowerinvariant", [] => some (.text (Text.lower s))
  | "toupper", [] | "toupperinvariant", [] => some (.text (Text.upper s))
  | "trim", [] => some (.text (Text.trim s))
  | "trimstart", [] => some (.text (Text.trimStart s))
  | "trimend", [] => some (.text (Text.trimEnd s))
  | "trim", [.text dropped] => some (.text (Text.trimMatches dropped.toList.contains s))
  | "tostring", [] => some (.text s)
  | "tochararray", [] => some (.list (characters s))
  | "substring", [start] =>
    (start.toInt?.bind fun start => substring? s start.toInt (s.length - start.toInt)).map .text
  | "substring", [start, length] =>
    (start.toInt?.bind fun start => length.toInt?.bind fun length =>
      substring? s start.toInt length.toInt).map .text
  | _, _ => none

def method? (receiver : Value) (method : String) (arguments : List Value) : Option Value :=
  match receiver with
  | .text s => stringMethod? s method arguments
  | .int n =>
    if method == "tostring" && arguments.isEmpty then some (.text (Value.intText n)) else none
  | .list _ => none

/-- The static method that joins either the items of one list or any number of scalars. -/
def staticJoin? : List Value → Option Value
  | [.text separator, .list items] =>
    some (.text (separator.intercalate (items.map Value.display)))
  | .text separator :: scalars =>
    if scalars.all Value.isScalar then
      some (.text (separator.intercalate (scalars.map Value.display)))
    else none
  | _ => none

/-- A method of a type; the name of the type is in lower case. -/
def staticMethod? (type method : String) (arguments : List Value) : Option Value :=
  if (type == "string" || type == "system.string") && method == "join" then staticJoin? arguments
  else none

/-- The number of characters or of items. -/
def property? (receiver : Value) (property : String) : Option Value :=
  let count? : Option Nat :=
    match receiver with
    | .text s => if property == "length" then some s.length else none
    | .list items =>
      if property == "length" || property == "count" then some items.length else none
    | .int _ => none
  (count?.bind fun n => Text.word? n).map .int

end Unscramble
