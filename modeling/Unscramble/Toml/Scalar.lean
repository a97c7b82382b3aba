import Unscramble.Text.Number
import Unscramble.Text.Split
import Unscramble.Toml.Value

/-! Reading the values of TOML that hold no other values. A reader takes characters off the front
and gives the rest back. -/
namespace Unscramble.Toml

abbrev Reads (α : Type) := List Char → Option (α × List Char)

/-- What a piecewise reader does next: go on after a piece, or stop behind it. -/
inductive Piece (α : Type) where
  | more (piece : List α) (rest : List Char)
  | last (piece : List α) (rest : List Char)

/-- Joins pieces until the last one; `fuel` bounds their number. -/
def gather (next : List Char → Option (Piece α)) : Nat → Reads (List α)
  | 0, _ => none
  | fuel + 1, s =>
    match next s with
    | none => none
    | some (.last piece rest) => some (piece, rest)
    | some (.more piece rest) =>
      (gather next fuel rest).map fun (pieces, rest) => (piece ++ pieces, rest)

/-- Pieces up to the end of the text at most, each of at least one character. -/
def gatherAll (next : List Char → Option (Piece α)) : Reads (List α) :=
  fun s => gather next (s.length + 1) s

def isSpace (c : Char) : Bool := c == ' ' || c == '\t'

def skipSpace (s : List Char) : List Char := s.dropWhile isSpace

/-- The characters of a comment and of a text on one line: no control character but the tab. -/
def isPlain (c : Char) : Bool := c == '\t' || (' ' ≤ c && c != '\x7f')

/-- A line break, alone or after a carriage return. -/
def lineBreak? : List Char → Option (List Char)
  | '\n' :: rest => some rest
  | '\r' :: '\n' :: rest => some rest
  | _ => none

/-- A code point of a fixed number of hexadecimal digits. -/
def codePoint (digits : Nat) : Reads Char := fun s =>
  if (s.take digits).length = digits then
    match Text.natural? 16 (s.take digits) with
    | some code => if code.isValidChar then some (Char.ofNat code, s.drop digits) else none
    | none => none
  else none

/-- What a backslash and the characters after it stand for. -/
def escape : Reads Char
  | 'b' :: rest => some ('\x08', rest)
  | 't' :: rest => some ('\t', rest)
  | 'n' :: rest => some ('\n', rest)
  | 'f' :: rest => some ('\x0c', rest)
  | 'r' :: rest => some ('\r', rest)
  | '"' :: rest => some ('"', rest)
  | '\\' :: rest => some ('\\', rest)
  | 'u' :: rest => codePoint 4 rest
  | 'U' :: rest => codePoint 8 rest
  | _ => none

def escapePiece (s : List Char) : Option (Piece Char) :=
  (escape s).map fun (c, rest) => .more [c] rest

def basicPiece : List Char → Option (Piece Char)
  | [] => none
  | '"' :: rest => some (.last [] rest)
  | '\\' :: rest => escapePiece rest
  | c :: rest => if isPlain c then some (.more [c] rest) else none

def literalPiece : List Char → Option (Piece Char)
  | [] => none
  | '\'' :: rest => some (.last [] rest)
  | c :: rest => if isPlain c then some (.more [c] rest) else none

/-- Quotes in a text of several lines: three end it, and up to two more in front of them belong
to it. -/
def quotePiece (quote : Char) (s : List Char) : Piece Char :=
  let quotes := s.takeWhile (· == quote)
  if quotes.length < 3 then .more quotes (s.drop quotes.length)
  else
    let kept := min (quotes.length - 3) 2
    .last (List.replicate kept quote) (s.drop (kept + 3))

/-- White space and line breaks, which a backslash at the end of a line removes. -/
def skipBlankLines : List Char → List Char
  | [] => []
  | c :: rest =>
    if isSpace c || c == '\n' then skipBlankLines rest
    else if c == '\r' && rest.head? == some '\n' then skipBlankLines rest
    else c :: rest

def longPiece (quote : Char) (escapes : Bool) (s : List Char) : Option (Piece Char) :=
  match s with
  | [] => none
  | c :: rest =>
    if c = quote then some (quotePiece quote s)
    else if c = '\\' && escapes then
      if (lineBreak? (skipSpace rest)).isSome then some (.more [] (skipBlankLines rest))
      else escapePiece rest
    else match lineBreak? s with
      | some rest => some (.more ['\n'] rest)
      | none => if isPlain c then some (.more [c] rest) else none

/-- The rest of a text of several lines, after the opening quotes and a line break there. -/
def longText (quote : Char) (escapes : Bool) : Reads (List Char) := fun s =>
  gatherAll (longPiece quote escapes) ((lineBreak? s).getD s)

/-- A text on one line, in either quotes. -/
def shortText : Reads (List Char)
  | '"' :: rest => gatherAll basicPiece rest
  | '\'' :: rest => gatherAll literalPiece rest
  | _ => none

def textValue : Reads (List Char)
  | '"' :: '"' :: '"' :: rest => longText '"' true rest
  | '\'' :: '\'' :: '\'' :: rest => longText '\'' false rest
  | s => shortText s

def isDigit (radix : Nat) (c : Char) : Bool := (Text.digitValue? radix c).isSome

/-- More digits of a number, each after at most one underscore. -/
def moreDigits (radix : Nat) : List Char → List Char × List Char
  | [] => ([], [])
  | c :: rest =>
    if isDigit radix c then
      let (digits, rest) := moreDigits radix rest
      (c :: digits, rest)
    else
      match rest with
      | d :: after =>
        if c = '_' && isDigit radix d then
          let (digits, rest) := moreDigits radix after
          (d :: digits, rest)
        else ([], c :: rest)
      | [] => ([], [c])

/-- One digit or more. -/
def digits (radix : Nat) : Reads (List Char)
  | c :: rest =>
    if isDigit radix c then
      let (more, rest) := moreDigits radix rest
      some (c :: more, rest)
    else none
  | [] => none

/-- Decimal digits; a zero in front stands alone. -/
def decimalDigits : Reads (List Char)
  | '0' :: rest => some (['0'], rest)
  | s => digits 10 s

def sign : List Char → Bool × List Char
  | '+' :: rest => (false, rest)
  | '-' :: rest => (true, rest)
  | s => (false, s)

/-- A whole number that fits in a 64-bit word; only decimal ones have a sign. -/
def integer : Reads Int := fun s =>
  let number (radix : Nat) (negative : Bool) (read : Option (List Char × List Char)) :=
    match read with
    | some (digits, rest) =>
      (Text.natural? radix digits).bind fun n =>
        (Text.word? (if negative then -(n : Int) else n)).map fun word => (word.toInt, rest)
    | none => none
  match s with
  | '0' :: 'x' :: rest => number 16 false (digits 16 rest)
  | '0' :: 'o' :: rest => number 8 false (digits 8 rest)
  | '0' :: 'b' :: rest => number 2 false (digits 2 rest)
  | _ =>
    let (negative, rest) := sign s
    number 10 negative (decimalDigits rest)

/-- Whether `digits` times a power of ten rounds to a value beyond the largest finite double. -/
def isHuge (digits : List Char) (exponent : Int) : Bool :=
  let digits := digits.dropWhile (· == '0')
  let magnitude := digits.length + exponent
  if digits.isEmpty || magnitude < 300 then false
  else if 320 < magnitude then true
  else
    let n := (Text.natural? 10 digits).getD 0
    (Nat.pow 2 1024 - Nat.pow 2 970) * Nat.pow 10 (-exponent).toNat ≤ n * Nat.pow 10 exponent.toNat

/-- The fraction of a decimal number; none is a fraction without digits. -/
def fraction : Reads (List Char)
  | '.' :: rest => digits 10 rest
  | s => some ([], s)

/-- The exponent of a decimal number, zero if there is none. -/
def exponent (s : List Char) : Option (Int × List Char) :=
  match s with
  | c :: rest =>
    if c = 'e' || c = 'E' then
      let (negative, rest) := sign rest
      (digits 10 rest).bind fun (digits, rest) =>
        (Text.natural? 10 digits).map fun n => (if negative then -(n : Int) else n, rest)
    else some (0, s)
  | [] => some (0, [])

/-- A number with a fraction or an exponent. One that is not finite has to be negative or to be
spelled as a word. -/
def decimal (s : List Char) : Option (List Char) :=
  let (negative, rest) := sign s
  match Text.dropStart? ['i', 'n', 'f'] rest, Text.dropStart? ['n', 'a', 'n'] rest with
  | some rest, _ | none, some rest => some rest
  | none, none => do
    let (whole, afterWhole) ← decimalDigits rest
    let (part, afterPart) ← fraction afterWhole
    let (power, rest) ← exponent afterPart
    if rest.length = afterWhole.length then none
    else if !negative && isHuge (whole ++ part) (power - part.length) then none
    else some rest

/-- A number of a fixed count of digits, in a range. -/
def ranged (count low high : Nat) : Reads Nat := fun s =>
  let digits := s.take count
  if digits.length = count && digits.all Char.isDigit then
    match Text.natural? 10 digits with
    | some n => if low ≤ n && n ≤ high then some (n, s.drop count) else none
    | none => none
  else none

def character (c : Char) : List Char → Option (List Char)
  | d :: rest => if c = d then some rest else none
  | [] => none

def daysIn (year month : Nat) : Nat :=
  if month = 2 then
    if year % 4 = 0 && (year % 100 != 0 || year % 400 = 0) then 29 else 28
  else if month = 4 || month = 6 || month = 9 || month = 11 then 30
  else 31

def date (s : List Char) : Option (List Char) := do
  let (year, s) ← ranged 4 0 9999 s
  let s ← character '-' s
  let (month, s) ← ranged 2 1 12 s
  let s ← character '-' s
  let (_, s) ← ranged 2 1 (daysIn year month) s
  some s

def time (s : List Char) : Option (List Char) := do
  let (_, s) ← ranged 2 0 23 s
  let s ← character ':' s
  let (_, s) ← ranged 2 0 59 s
  let s ← character ':' s
  let (_, s) ← ranged 2 0 60 s
  match s with
  | '.' :: rest => if (rest.head?.any Char.isDigit) then some (rest.dropWhile Char.isDigit) else none
  | s => some s

/-- The offset of a time from the universal one, if there is one. -/
def offset (s : List Char) : Option (List Char) :=
  match s with
  | c :: rest =>
    if c = 'Z' || c = 'z' then some rest
    else if c = '+' || c = '-' then do
      let (_, s) ← ranged 2 0 23 rest
      let s ← character ':' s
      let (_, s) ← ranged 2 0 59 s
      some s
    else some s
  | [] => some []

/-- A date, a time of the day, or both with a letter or one space between them. -/
def moment (s : List Char) : Option (List Char) :=
  match date s with
  | none => time s
  | some rest =>
    match rest with
    | c :: after =>
      if c = 'T' || c = 't' || c = ' ' then
        match time after with
        | some rest => offset rest
        | none => some rest
      else some rest
    | [] => some []

/-- A number, a date or a time. -/
def number (s : List Char) : Option (Value × List Char) :=
  match moment s with
  | some rest => some (.moment, rest)
  | none =>
    match decimal s with
    | some rest => some (.decimal, rest)
    | none => (integer s).map fun (n, rest) => (.integer n, rest)

/-- Any value that holds no other values. -/
def scalar (s : List Char) : Option (Value × List Char) :=
  match Text.dropStart? "true".toList s, Text.dropStart? "false".toList s with
  | some rest, _ => some (.boolean true, rest)
  | none, some rest => some (.boolean false, rest)
  | none, none =>
    match textValue s with
    | some (chars, rest) => some (.text (String.ofList chars), rest)
    | none => number s

end Unscramble.Toml
