import Unscramble.Syntax.Operator
import Unscramble.Text.Case
import Unscramble.Value.Basic

/-! Comparison and arithmetic of known values. -/
namespace Unscramble

/-- The order of texts by the codes of their characters. -/
def orderByCode : List Char → List Char → Ordering
  | [], [] => .eq
  | [], _ :: _ => .lt
  | _ :: _, [] => .gt
  | a :: as, b :: bs => (compare a.toNat b.toNat).then (orderByCode as bs)

/-- The order of texts made of ASCII letters and digits alone: letters are compared without case,
and if that leaves a tie and case counts, small letters come first. Other texts have no order. -/
def orderWords? (minding : Bool) (a b : String) : Option Ordering :=
  if a.toList.all Char.isAlphanum && b.toList.all Char.isAlphanum then
    let folded := orderByCode (a.toList.map Char.toLower) (b.toList.map Char.toLower)
    let mark (c : Char) : Char := if c.isUpper then '1' else '0'
    some (if minding then folded.then (orderByCode (a.toList.map mark) (b.toList.map mark))
      else folded)
  else none

namespace Operator

/-- How the operands of a comparison are ordered. The right one is first converted to the type
of the left one. -/
def order? (relation : Relation) (minding : Bool) : Value → Value → Option Ordering
  | .int a, b => b.toInt?.map fun b => compare a.toInt b.toInt
  | .text _, .list _ => none
  | .text a, b =>
    let b := b.display
    if relation.isEquality then
      some (if minding then orderByCode a.toList b.toList
        else orderByCode (Text.lower a).toList (Text.lower b).toList)
    else orderWords? minding a b
  | .list _, _ => none

def compare? (operator : Operator) (left right : Value) : Option Bool :=
  operator.comparison?.bind fun (relation, minding) =>
    (order? relation minding left right).map relation.holds

/-- Arithmetic on two numbers. A result out of range is none. -/
def evalInt? (operator : Operator) (a b : Int64) : Option Int64 :=
  match operator with
  | .plus => Text.word? (a.toInt + b.toInt)
  | .minus => Text.word? (a.toInt - b.toInt)
  | .multiply => Text.word? (a.toInt * b.toInt)
  | .bxor => some (a ^^^ b)
  | .band => some (a &&& b)
  | .bor => some (a ||| b)
  | _ => none

end Operator
end Unscramble
