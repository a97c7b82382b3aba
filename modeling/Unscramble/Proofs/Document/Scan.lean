import Unscramble.Proofs.Document.Tags

/-! What a scan makes of tags and of texts that were written: one event for each tag, and one for each
text that is not empty. -/
namespace Unscramble.Document

/-! ### One character -/

section
variable {opened : List String} {met rest : List Char} {quote : Option Char} {c : Char}

/-- Neither the end of a tag nor a quote. -/
def isInert (c : Char) : Bool := c != '>' && c != '"' && c != '\''

end

/-! ### Runs of characters -/

section
variable {opened : List String} {met s rest : List Char}

/-- Characters that a scan can pass in a tag without the tag or a quote around them coming to an
end. -/
def Passes (s : List Char) : Prop := ∀ opened met rest,
  scan opened (.tag none met) (s ++ rest) = scan opened (.tag none (s.reverse ++ met)) rest

theorem Passes.append {s s' : List Char} (h : Passes s) (h' : Passes s') : Passes (s ++ s') := by
  intro opened met rest
  rw [List.append_assoc, h, h', List.reverse_append, List.append_assoc]

section
variable {tag : String} {attributes : Attributes}

end
end

end Unscramble.Document
