import Unscramble.Error
import Unscramble.Settings
import Unscramble.Syntax.Tree

/-! What a run of the rules remembers from one step to the next, and what it may consult. -/
namespace Unscramble.Simplify

structure Memory where
  /-- Scripts that are not to be submitted to the parser again. -/
  rejected : List String := []
  /-- All scripts submitted to the parser, in order. -/
  submitted : List String := []
  /-- The replacements of long names, which are kept in lower case. -/
  renamed : List (String × String) := []
  /-- The number that the next generated name may have. -/
  next : Nat := 0
  deriving DecidableEq

/-- What a parser makes of a script, after the scripts that were submitted to it before. -/
abbrev Parser := List String → String → Except Error Tree

structure Context where
  settings : OptimizerSettings := {}
  parser : Option Parser := none

end Unscramble.Simplify
