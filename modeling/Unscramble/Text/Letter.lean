import Unscramble.Text.LetterTable

/-! Letters and numbers. -/
namespace Unscramble.Text

def isLetter (c : Char) : Bool :=
  if c.toNat < 128 then c.isAlpha else letterRanges.has c

def isLetterOrNumber (c : Char) : Bool :=
  if c.toNat < 128 then c.isAlphanum else letterRanges.has c || numberRanges.has c

end Unscramble.Text
