import Unscramble.Error
import Unscramble.Settings
import Unscramble.Toml.Reader

/-! The settings that a document gives. Every section and every key may be missing; a key that is
not known is refused at the top and ignored in a section. -/
namespace Unscramble

namespace Toml.Value

def text? : Value → Option String
  | .text s => some s
  | _ => none

def boolean? : Value → Option Bool
  | .boolean b => some b
  | _ => none

def size? : Value → Option Nat
  | .integer n => if 0 ≤ n then some n.toNat else none
  | _ => none

/-- A setting of a section: the default if it is missing, nothing if it is of the wrong kind. A
section may also list its settings in order; a moment is a section without settings. -/
def setting (read : Value → Option α) (default : α) (key : String) (position : Nat) (v : Value) :
    Option α :=
  match v.member? key position with
  | some member => read member
  | none => some default

def isSection : Value → Bool
  | .table .. | .list _ | .tables _ | .moment => true
  | _ => false

end Toml.Value

open Toml

def ParserSettings.ofSection? (v : Value) : Option ParserSettings := do
  let program ← v.setting Value.text? ({} : ParserSettings).program "program" 0
  let script ← v.setting Value.text? ({} : ParserSettings).script "script" 1
  let sandboxed ← v.setting Value.boolean? ({} : ParserSettings).sandboxed "sandboxed" 2
  some { program, script, sandboxed }

def OptimizerSettings.ofSection? (v : Value) : Option OptimizerSettings := do
  let renameThreshold ←
    v.setting Value.size? ({} : OptimizerSettings).renameThreshold "rename_threshold" 0
  let maxSteps ← v.setting (fun v => v.size?.map some) none "max_steps" 1
  let inlineInvokeExpression ←
    v.setting Value.boolean? ({} : OptimizerSettings).inlineInvokeExpression
      "inline_invoke_expression" 2
  some { renameThreshold, maxSteps, inlineInvokeExpression }

def LayoutSettings.ofSection? (v : Value) : Option LayoutSettings := do
  let indentWidth ← v.setting Value.size? ({} : LayoutSettings).indentWidth "indent_width" 0
  some { indentWidth }

namespace Settings

/-- Sets one section. -/
def withSection (settings : Settings) (name : String) (v : Value) : Option Settings :=
  if !v.isSection then none
  else match name with
    | "parser" => (ParserSettings.ofSection? v).map fun parser => { settings with parser }
    | "optimizer" =>
      (OptimizerSettings.ofSection? v).map fun optimizer => { settings with optimizer }
    | "rebuilder" => (LayoutSettings.ofSection? v).map fun layout => { settings with layout }
    | _ => none

def ofTable? : Value → Option Settings
  | .table _ entries => entries.foldlM (fun settings (name, v) => settings.withSection name v) {}
  | _ => none

def read (document : String) : Except Error Settings :=
  match (Toml.read? document).bind ofTable? with
  | some settings => .ok settings
  | none => .error .settings

end Settings

end Unscramble
