import Mathlib.Data.List.TakeDrop
import Unscramble.Document.Event
import Unscramble.Document.Writer
import Unscramble.Proofs.Document.Encoding
import Unscramble.Proofs.Document.Names

/-! Tags are read back as they were written: the name of the element, and its attributes in their
order. -/
namespace Unscramble

namespace Attributes

theorem ext {a b : Attributes} (h : a.pairs = b.pairs) : a = b := by
  cases a; cases b; cases h; rfl

end Attributes

namespace Document

/-! ### Attributes -/

section
variable {tag : String} {attributes : Attributes}

end

end Document
end Unscramble
