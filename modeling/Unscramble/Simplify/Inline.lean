import Unscramble.Simplify.Memory
import Unscramble.Syntax.Place
import Unscramble.Syntax.Shape

/-! A command that runs a literal script is replaced by the statements of that script. -/
namespace Unscramble.Simplify

def isInvokeExpression (name : Tree) : Bool :=
  let command := Text.lower name.payload
  name.isBareword && (command == "invoke-expression" || command == "iex")

/-- The script that a list of command elements runs. -/
def literalScript? (elements : Tree) : Option String :=
  if elements.is .commandElements then
    match elements.children with
    | [name, argument] =>
      if isInvokeExpression name && argument.quoting?.isSome && !argument.isBareword then
        some argument.payload
      else none
    | _ => none
  else none

/-- The place of the statement that is nothing but the command with these elements. -/
def statementOf? (elements : Place) : Option Place :=
  (elements.up?.filter (·.tree.is .command)).bind fun command =>
    command.up?.bind fun above =>
      if above.tree.is .statements then some command
      else if above.tree.is .pipelineElements && above.tree.children.length == 1 then
        (above.up?.filter fun pipeline =>
          pipeline.tree.is .pipeline && pipeline.parentIs .statements)
      else none

def invocationAt? (p : Place) : Option (Place × String) :=
  (literalScript? p.tree).bind fun script => (statementOf? p).map (·, script)

/-- The statements of a script that has no other block than the last one, and no parameters. -/
def scriptStatements? : List Tree → Option (List Tree)
  | [] => some []
  | part :: parts =>
    if part.is .paramBlock then none
    else if part.is .namedBlock then
      if Text.sameIgnoringCase ((part.attr? "BlockKind").getD "End") "end" then
        (scriptStatements? parts).map (part.statements ++ ·)
      else none
    else scriptStatements? parts

/-- Submits the candidates one after the other until one can be replaced. -/
def inlineFirst (parser : Parser) (memory : Memory) :
    List (Place × String) → Option Tree × Memory
  | [] => (none, memory)
  | (statement, script) :: rest =>
    let answer := parser memory.submitted script
    let memory := { memory with submitted := memory.submitted ++ [script] }
    match answer.toOption.bind fun parsed => scriptStatements? parsed.children with
    | some statements => (statement.replace? statements, memory)
    | none => inlineFirst parser { memory with rejected := script :: memory.rejected } rest

def inlineInvokeExpression (context : Context) (memory : Memory) (t : Tree) :
    Option Tree × Memory :=
  match context.settings.inlineInvokeExpression, context.parser with
  | true, some parser =>
    inlineFirst parser memory <|
      (t.places.filterMap invocationAt?).filter fun (_, script) => !memory.rejected.contains script
  | _, _ => (none, memory)

end Unscramble.Simplify
