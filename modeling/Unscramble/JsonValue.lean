/-! Data in JSON, and how it is laid out over lines. -/
namespace Unscramble

inductive JsonValue where
  | text (s : String)
  | number (n : Nat)
  | list (items : List JsonValue)
  | object (fields : List (String × JsonValue))

namespace JsonValue

def hexDigit (n : Nat) : Char := Char.ofNat (if n < 10 then '0'.toNat + n else 'a'.toNat + n - 10)

/-- How a character is written within quotes: control characters, quotes and backslashes as
escapes. -/
def escape (c : Char) : List Char :=
  match c with
  | '"' => ['\\', '"']
  | '\\' => ['\\', '\\']
  | '\n' => ['\\', 'n']
  | '\r' => ['\\', 'r']
  | '\t' => ['\\', 't']
  | '\x08' => ['\\', 'b']
  | '\x0c' => ['\\', 'f']
  | c =>
    if c.toNat < 32 then ['\\', 'u', '0', '0', hexDigit (c.toNat / 16), hexDigit (c.toNat % 16)]
    else [c]

def quoted (s : String) : List Char := '"' :: s.toList.flatMap escape ++ ['"']

def newline (level : Nat) : List Char := '\n' :: List.replicate (2 * level) ' '

/-- Items on lines of their own between brackets; brackets with nothing between them stay
together. -/
def bracketed (opening closing : Char) (level : Nat) : List (List Char) → List Char
  | [] => [opening, closing]
  | items =>
    let separator := ',' :: newline (level + 1)
    opening :: newline (level + 1) ++ separator.intercalate items ++ newline level ++ [closing]

mutual

def layout (level : Nat) : JsonValue → List Char
  | .text s => quoted s
  | .number n => (toString n).toList
  | .list items => bracketed '[' ']' level (layoutItems (level + 1) items)
  | .object fields => bracketed '{' '}' level (layoutFields (level + 1) fields)

def layoutItems (level : Nat) : List JsonValue → List (List Char)
  | [] => []
  | item :: items => item.layout level :: layoutItems level items

def layoutFields (level : Nat) : List (String × JsonValue) → List (List Char)
  | [] => []
  | (key, value) :: fields =>
    (quoted key ++ [':', ' '] ++ value.layout level) :: layoutFields level fields

end

def print (j : JsonValue) : String := String.ofList (j.layout 0)

end JsonValue

end Unscramble
