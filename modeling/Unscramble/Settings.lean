/-! What can be set: how the parser is started, how far the optimizer goes, and how wide a script
is indented. -/
namespace Unscramble

structure ParserSettings where
  program : String := "pwsh"
  script : String := "tools/Get-AST.ps1"
  sandboxed : Bool := false
  deriving DecidableEq

structure OptimizerSettings where
  /-- Names of at least this many characters are replaced. -/
  renameThreshold : Nat := 60
  maxSteps : Option Nat := none
  inlineInvokeExpression : Bool := true
  deriving DecidableEq

structure LayoutSettings where
  indentWidth : Nat := 4
  deriving DecidableEq

structure Settings where
  parser : ParserSettings := {}
  optimizer : OptimizerSettings := {}
  layout : LayoutSettings := {}
  deriving DecidableEq

end Unscramble
