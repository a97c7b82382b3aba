import Unscramble.Text.CaseTable

/-! Lower and upper case of whole texts, by the full mappings of Unicode, and the ASCII-only
comparison that the vocabulary tables and attribute values use. -/
namespace Unscramble.Text

def CaseRun.covers (run : CaseRun) (code : Nat) : Bool :=
  run.first ≤ code && code ≤ run.last && (code - run.first) % run.step == 0

def mapCase (runs : List CaseRun) (sequences : List (Nat × List Nat)) (c : Char) : List Char :=
  match sequences.find? (·.1 == c.toNat) with
  | some (_, codes) => codes.map Char.ofNat
  | none =>
    match runs.find? (·.covers c.toNat) with
    | some run => [Char.ofNat ((c.toNat : Int) + run.shift).toNat]
    | none => [c]

def lowerChar (c : Char) : List Char :=
  if c.toNat < 128 then [c.toLower] else mapCase lowerRuns lowerSequences c

def upperChar (c : Char) : List Char :=
  if c.toNat < 128 then [c.toUpper] else mapCase upperRuns upperSequences c

/-- Whether the nearest character that is not case-ignorable is a cased one. -/
def meetsCased (s : List Char) : Bool :=
  match s.find? fun c => !ignorableRanges.has c with
  | some c => casedRanges.has c
  | none => false

/-- Lower case of the rest of a text, given what stands before it, nearest first. A capital sigma
that ends a word gets its final form. -/
def lowerFrom (before : List Char) : List Char → List Char
  | [] => []
  | c :: rest =>
    (if c = 'Σ' then
      [if meetsCased before && !meetsCased rest then 'ς' else 'σ']
    else lowerChar c) ++ lowerFrom (c :: before) rest

def lower (s : String) : String := String.ofList (lowerFrom [] s.toList)

def upper (s : String) : String := String.ofList (s.toList.flatMap upperChar)

/-- Lower case of the ASCII letters only. -/
def lowerAscii (s : String) : String := s.map Char.toLower

/-- Equality up to the case of ASCII letters. -/
def sameIgnoringCase (a b : String) : Bool := lowerAscii a == lowerAscii b

end Unscramble.Text
