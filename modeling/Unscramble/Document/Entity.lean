import Unscramble.Text.Number

/-! References in the text and the attribute values of a document: the five named characters and
the numbered ones. Writing names each of the five, and reading resolves every reference. -/
namespace Unscramble.Document

def entityOf : Char → Option (List Char)
  | '<' => some ['l', 't']
  | '>' => some ['g', 't']
  | '&' => some ['a', 'm', 'p']
  | '\'' => some ['a', 'p', 'o', 's']
  | '"' => some ['q', 'u', 'o', 't']
  | _ => none

def encodeChar (c : Char) : List Char :=
  match entityOf c with
  | some name => '&' :: name ++ [';']
  | none => [c]

def encode (s : List Char) : List Char := s.flatMap encodeChar

/-- The character with a code; the code zero and what is no scalar value have none. -/
def charOfCode? (code : Nat) : Option Char :=
  if code.isValidChar ∧ code ≠ 0 then some (Char.ofNat code) else none

def resolve? (name : List Char) : Option Char :=
  match name with
  | '#' :: 'x' :: digits => (Text.natural? 16 digits).bind charOfCode?
  | '#' :: digits => (Text.natural? 10 digits).bind charOfCode?
  | _ => ['<', '>', '&', '\'', '"'].find? fun c => entityOf c == some name

/-- Reads a text; `open?` holds the characters of a reference that has begun, last first. -/
def decodeFrom : Option (List Char) → List Char → Option (List Char)
  | none, [] => some []
  | none, '&' :: rest => decodeFrom (some []) rest
  | none, c :: rest => (decodeFrom none rest).map (c :: ·)
  | some _, [] => none
  | some name, ';' :: rest =>
    (resolve? name.reverse).bind fun c => (decodeFrom none rest).map (c :: ·)
  | some _, '&' :: _ => none
  | some name, c :: rest => decodeFrom (some (c :: name)) rest

/-- The text that a written form stands for, unless a reference in it is unfinished or unknown. -/
def decode (s : List Char) : Option (List Char) := decodeFrom none s

end Unscramble.Document
