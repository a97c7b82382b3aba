/-! The ways of quoting a string, and what each does to the characters inside. The backtick is
the escape character. -/
namespace Unscramble

inductive Quoting where
  | bareWord | singleQuoted | doubleQuoted | singleQuotedHere | doubleQuotedHere
  deriving DecidableEq

namespace Quoting

def name : Quoting → String
  | .bareWord => "BareWord"
  | .singleQuoted => "SingleQuoted"
  | .doubleQuoted => "DoubleQuoted"
  | .singleQuotedHere => "SingleQuotedHereString"
  | .doubleQuotedHere => "DoubleQuotedHereString"

def all : List Quoting :=
  [.bareWord, .singleQuoted, .doubleQuoted, .singleQuotedHere, .doubleQuotedHere]

def ofName? (name : String) : Option Quoting := all.find? (·.name == name)

/-- The characters that delimit single-quoted strings, the typographic ones included. -/
def isSingleQuote (c : Char) : Bool := ['\'', '‘', '’', '‚', '‛'].contains c

def isDoubleQuote (c : Char) : Bool := ['"', '“', '”', '„'].contains c

/-- The characters that end or split a bareword. -/
def isBarewordSpecial (c : Char) : Bool :=
  [' ', '\'', '"', '`', '$', '#', ';', ',', '|', '&', '(', ')', '{', '}', '@', '<', '>'].contains c

/-- The letter that stands for a control character behind a backtick. -/
def controlLetter? : Char → Option Char
  | '\n' => some 'n'
  | '\r' => some 'r'
  | '\t' => some 't'
  | '\x00' => some '0'
  | _ => none

def ofControlLetter : Char → Char
  | 'n' => '\n'
  | 'r' => '\r'
  | 't' => '\t'
  | '0' => '\x00'
  | c => c

/-- Writes control characters by their letters, and a backtick in front of a class. -/
def escapeControl (special : Char → Bool) (c : Char) : List Char :=
  match controlLetter? c with
  | some letter => ['`', letter]
  | none => if special c then ['`', c] else [c]

def escapeChar : Quoting → Char → List Char
  | .bareWord, c =>
    escapeControl (fun c => isBarewordSpecial c || isSingleQuote c || isDoubleQuote c) c
  | .singleQuoted, c => if isSingleQuote c then [c, c] else [c]
  | .doubleQuoted, c => escapeControl (fun c => c == '`' || c == '$' || isDoubleQuote c) c
  | .singleQuotedHere, c => [c]
  | .doubleQuotedHere, c => if c == '`' || c == '$' then ['`', c] else [c]

/-- The characters to print between the delimiters. -/
def escape (quoting : Quoting) (s : List Char) : List Char := s.flatMap quoting.escapeChar

/-- The characters of an expandable string, in which variables stay live. -/
def escapeExpandable (s : List Char) : List Char :=
  s.flatMap (escapeControl fun c => c == '`' || isDoubleQuote c)

/-- Reads text with backticks, where `meaning` is what a character behind a backtick stands for.
A backtick at the end stands for itself. -/
def unescapeTicks (meaning : Char → Char) : List Char → List Char
  | [] => []
  | ['`'] => ['`']
  | '`' :: c :: rest => meaning c :: unescapeTicks meaning rest
  | c :: rest => c :: unescapeTicks meaning rest

/-- Reads text in which a quote written twice stands for one. -/
def unescapePairs : List Char → List Char
  | [] => []
  | [c] => [c]
  | c :: d :: rest =>
    if isSingleQuote c && c == d then c :: unescapePairs rest
    else c :: unescapePairs (d :: rest)

def unescape : Quoting → List Char → List Char
  | .bareWord, s | .doubleQuoted, s => unescapeTicks ofControlLetter s
  | .singleQuoted, s => unescapePairs s
  | .singleQuotedHere, s => s
  | .doubleQuotedHere, s => unescapeTicks id s

end Quoting
end Unscramble
