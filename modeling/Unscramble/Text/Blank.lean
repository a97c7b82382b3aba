import Unscramble.Text.CodeRange

/-! White space in the sense of Unicode, and trimming it. -/
namespace Unscramble.Text

def blankRanges : CodeRanges :=
  [(9, 13), (32, 32), (133, 133), (160, 160), (5760, 5760), (8192, 8202), (8232, 8233),
    (8239, 8239), (8287, 8287), (12288, 12288)]

def isBlank (c : Char) : Bool := blankRanges.has c

/-- The characters left after the leading and the trailing ones in the class are dropped. -/
def trimChars (drop : Char → Bool) (s : List Char) : List Char :=
  ((s.dropWhile drop).reverse.dropWhile drop).reverse

def trimMatches (drop : Char → Bool) (s : String) : String :=
  String.ofList (trimChars drop s.toList)

def trim (s : String) : String := trimMatches isBlank s

def trimStart (s : String) : String := String.ofList (s.toList.dropWhile isBlank)

def trimEnd (s : String) : String :=
  String.ofList (s.toList.reverse.dropWhile isBlank).reverse

/-- A text of white space only; the empty text is one. -/
def isBlankText (s : String) : Bool := s.toList.all isBlank

end Unscramble.Text
