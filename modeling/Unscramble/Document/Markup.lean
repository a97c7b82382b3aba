import Unscramble.Error
import Unscramble.Syntax.Attributes

/-! The markup of documents, as far as trees are concerned with it: a document is read as events, and
it is written as marks. How characters stand for either is left to a library, of which nothing but
these two functions is known here. -/
namespace Unscramble.Document

/-- What is met in a document. References in texts and attribute values are resolved, and where the
markup breaks, the last event is a `flaw`. -/
inductive Event where
  | opening (tag : String) (attributes : Except Error Attributes)
  | closing (tag : String)
  | single (tag : String) (attributes : Except Error Attributes)
  | text (content : String)
  | verbatim (content : String)
  | layout
  | flaw (error : Error)

/-- What a document is written from. -/
inductive Mark where
  | declaration
  | opening (tag : String) (attributes : Attributes)
  | single (tag : String) (attributes : Attributes)
  | text (content : String)
  | closing (tag : String)
  deriving DecidableEq

structure Markup where
  events : String → List Event
  write : List Mark → String

end Unscramble.Document
