import Unscramble.Text.Split
import Unscramble.Value.Basic

/-! Composite formatting: a pattern with items in braces, each the index of an argument and
perhaps the width it is aligned to. -/
namespace Unscramble

/-- Pads a text to a width: on the left, or on the right if the width is negative. -/
def alignText (width : Int) (s : List Char) : List Char :=
  let padding := List.replicate (width.natAbs - s.length) ' '
  if width < 0 then s ++ padding else padding ++ s

/-- The widest alignment that a text can be padded to. Asking for a wider one brings the program down. -/
def maxWidth : Nat := 65535

/-- The argument of an index. -/
def argument? (arguments : List Value) (index : List Char) : Option (List Char) :=
  (Text.size? (Text.trimChars Text.isBlank index)).bind fun i => (arguments[i]?).map (·.display.toList)

/-- The text that an item of a pattern stands for. -/
def formatItem? (arguments : List Value) (item : List Char) : Option (List Char) :=
  match Text.cut? [','] item with
  | none => argument? arguments item
  | some (index, width) =>
    (Text.integerWord? 10 (Text.trimChars Text.isBlank width)).bind fun width =>
      if width.toInt.natAbs ≤ maxWidth then (argument? arguments index).map (alignText width.toInt)
      else none

/-- An item that asks for an argument that there is, at a width that it cannot be padded to. -/
def itemPanics (arguments : List Value) (item : List Char) : Bool :=
  match Text.cut? [','] item with
  | none => false
  | some (index, width) =>
    (Text.integerWord? 10 (Text.trimChars Text.isBlank width)).any fun width =>
      maxWidth < width.toInt.natAbs && (argument? arguments index).isSome

/-- Formats the rest of a pattern; `item` holds the characters of an item that has begun, last
first. Braces stand for themselves when they are doubled. Format specifiers are refused. -/
def formatFrom (arguments : List Value) : Option (List Char) → List Char → Option (List Char)
  | none, [] => some []
  | some _, [] => none
  | none, '{' :: '{' :: rest => (formatFrom arguments none rest).map ('{' :: ·)
  | none, '}' :: '}' :: rest => (formatFrom arguments none rest).map ('}' :: ·)
  | none, '{' :: rest => formatFrom arguments (some []) rest
  | none, '}' :: _ => none
  | none, c :: rest => (formatFrom arguments none rest).map (c :: ·)
  | some item, '}' :: rest =>
    (formatItem? arguments item.reverse).bind fun s => (formatFrom arguments none rest).map (s ++ ·)
  | some _, ':' :: _ => none
  | some item, c :: rest => formatFrom arguments (some (c :: item)) rest

/-- Whether the rest of a pattern brings the program down: one of its items does, and nothing in front
of that is refused. -/
def panicsFrom (arguments : List Value) : Option (List Char) → List Char → Bool
  | _, [] => false
  | none, '{' :: '{' :: rest => panicsFrom arguments none rest
  | none, '}' :: '}' :: rest => panicsFrom arguments none rest
  | none, '{' :: rest => panicsFrom arguments (some []) rest
  | none, '}' :: _ => false
  | none, _ :: rest => panicsFrom arguments none rest
  | some item, '}' :: rest =>
    itemPanics arguments item.reverse ||
      (formatItem? arguments item.reverse).isSome && panicsFrom arguments none rest
  | some _, ':' :: _ => false
  | some item, c :: rest => panicsFrom arguments (some (c :: item)) rest

def formatString? (pattern : String) (arguments : List Value) : Option String :=
  (formatFrom arguments none pattern.toList).map String.ofList

def formatPanics (pattern : String) (arguments : List Value) : Bool :=
  panicsFrom arguments none pattern.toList

end Unscramble
