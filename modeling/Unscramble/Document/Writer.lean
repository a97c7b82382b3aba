import Unscramble.Document.Entity
import Unscramble.Document.Markup

/-! A writer of documents. Every tag stands on a line of its own, indented by two spaces for each
element that is open, unless it comes directly after text. -/
namespace Unscramble.Document

def declaration : String := "<?xml version=\"1.0\" encoding=\"utf-8\"?>"

def encodeText (s : String) : String := String.ofList (encode s.toList)

def lineBreak (level : Nat) : String := "\n" ++ String.ofList (List.replicate (2 * level) ' ')

def writeAttribute (pair : String × String) : String :=
  " " ++ pair.1 ++ "=\"" ++ encodeText pair.2 ++ "\""

def writeAttributes (attributes : Attributes) : String :=
  String.join (attributes.pairs.map writeAttribute)

/-- The pieces of what is written. `level` is the number of open elements, and `broken` says whether
a line break goes in front of the next tag. -/
def pieces (level : Nat) (broken : Bool) : List Mark → List String
  | [] => []
  | .declaration :: marks => declaration :: pieces level true marks
  | .opening tag attributes :: marks =>
    (if broken then lineBreak level else "") :: "<" :: tag :: writeAttributes attributes :: ">" ::
      pieces (level + 1) true marks
  | .single tag attributes :: marks =>
    (if broken then lineBreak level else "") :: "<" :: tag :: writeAttributes attributes :: "/>" ::
      pieces level true marks
  | .text content :: marks => encodeText content :: pieces level false marks
  | .closing tag :: marks =>
    (if broken then lineBreak (level - 1) else "") :: "</" :: tag :: ">" ::
      pieces (level - 1) true marks

def writeMarks (marks : List Mark) : String := String.join (pieces 0 false marks)

end Unscramble.Document
