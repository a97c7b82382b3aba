/-! Sets of characters given by ranges of code points, both ends included. -/
namespace Unscramble.Text

abbrev CodeRanges := List (Nat × Nat)

def CodeRanges.has (ranges : CodeRanges) (c : Char) : Bool :=
  ranges.any fun (first, last) => first ≤ c.toNat && c.toNat ≤ last

end Unscramble.Text
