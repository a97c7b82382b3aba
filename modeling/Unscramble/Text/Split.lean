/-! Cutting texts at characters and at patterns. Patterns are found leftmost first and do not
overlap; how two characters are compared is a parameter. -/
namespace Unscramble.Text

/-- Puts a character in front of the first part. -/
def pushFirst (c : Char) : List (List Char) → List (List Char)
  | [] => [[c]]
  | part :: parts => (c :: part) :: parts

/-- The parts between the characters of a class; there is always at least one. -/
def splitWhere (stop : Char → Bool) : List Char → List (List Char)
  | [] => [[]]
  | c :: rest => if stop c then [] :: splitWhere stop rest else pushFirst c (splitWhere stop rest)

def startsBy (same : Char → Char → Bool) : List Char → List Char → Bool
  | [], _ => true
  | _ :: _, [] => false
  | p :: pattern, c :: rest => same p c && startsBy same pattern rest

/-- The parts between the occurrences of a pattern, after `skip` characters that belong to an
occurrence already found. -/
def splitFrom (same : Char → Char → Bool) (pattern : List Char) : Nat → List Char → List (List Char)
  | _, [] => [[]]
  | skip + 1, _ :: rest => splitFrom same pattern skip rest
  | 0, c :: rest =>
    if startsBy same pattern (c :: rest) then
      [] :: splitFrom same pattern (pattern.length - 1) rest
    else pushFirst c (splitFrom same pattern 0 rest)

/-- The parts of `s` between the occurrences of a pattern that is not empty. -/
def splitOn (pattern s : List Char) : List (List Char) := splitFrom (· == ·) pattern 0 s

/-- The text before the first occurrence of a pattern, and the text after it. -/
def cut? (pattern : List Char) : List Char → Option (List Char × List Char)
  | [] => if pattern.isEmpty then some ([], []) else none
  | c :: rest =>
    if pattern.isPrefixOf (c :: rest) then some ([], (c :: rest).drop pattern.length)
    else (cut? pattern rest).map fun (before, after) => (c :: before, after)

def contains (pattern s : List Char) : Bool := (cut? pattern s).isSome

/-- What stands after a given beginning. -/
def dropStart? (start s : List Char) : Option (List Char) :=
  if start.isPrefixOf s then some (s.drop start.length) else none

/-- What stands before a given end. -/
def dropEnd? (ending s : List Char) : Option (List Char) :=
  if ending.isSuffixOf s then some (s.take (s.length - ending.length)) else none

def join (separator : List Char) (parts : List (List Char)) : List Char :=
  separator.intercalate parts

end Unscramble.Text
