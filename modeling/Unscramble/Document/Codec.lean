import Unscramble.Document.Event
import Unscramble.Document.Marks
import Unscramble.Document.Reader
import Unscramble.Document.Writer

/-! Trees and the documents that hold them, with the scanner and the writer of this library. -/
namespace Unscramble.Document

def plain : Markup where
  events := events
  write := writeMarks

def read (document : String) : Except Error Tree := plain.readTree document

def write (t : Tree) : String := plain.writeTree t

end Unscramble.Document
