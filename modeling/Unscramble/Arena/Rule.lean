import Unscramble.Arena.Selection
import Unscramble.Simplify.Rule

/-! The rules of the catalog, applied to arenas. A rule makes a plan for the arena as it stands. What the plan
changes is found again in the tree that the arena stands for. -/
namespace Unscramble

open Simplify

namespace Arena

/-! ### Plans of one form -/

/-- Respells every node that has a new spelling. -/
def respelling (f : Tree.Respelling) (a : Arena) : Plan :=
  .respell <| a.layout.seats.filterMap fun s =>
    let p := s.place a.element
    (f p.trail.head? p.tree).map (s.id, ·)

/-- Replaces every node that has a replacement, as far as these do not overlap. -/
def replacingEach (f : Tree → Option (List Tree)) (a : Arena) : Plan :=
  .replace
    (a.layout.seats.filterMap fun s => (f (s.node.toTree a.element)).map fun new => (s.id, Sketch.ofTrees new))
    (0 < ·)

/-- Replaces the first node that has a replacement. -/
def replacingFirst (f : Seat → Option (List Sketch)) (a : Arena) : Plan :=
  .replace (a.layout.seats.findSome? fun s => (f s).map (s.id, ·)).toList (· == 1)

/-! ### Plans of their own -/

def unaryJoin (a : Arena) : Plan :=
  .extend
    (a.layout.seats.filterMap fun s =>
      (binaryJoin? (s.node.toTree a.element)).map fun joined => (s.id, joined.element))
    (stringTree .singleQuoted "").element

def removeUnusedVariable (a : Arena) : Plan :=
  let t := a.toTree
  if t.hasDynamicVariables then .replace [] (· == 1)
  else a.replacingFirst fun s => if isDeadAssignment t.reads (s.place a.element) then some [] else none

def removeUnassignedUse (a : Arena) : Plan :=
  let t := a.toTree
  if t.hasDynamicVariables then .replace [] (· == 1)
  else
    a.replacingFirst fun s => (s.node.withoutUnassigned? a.element (t.writes ++ t.parameterNames)).map ([·])

/-- What is to be done about a construct in its place. Statements can only be put into a list of statements. -/
def decideAt? (a : Arena) (s : Seat) : Option Plan :=
  (s.node.decide? a.element).bind fun
    | .retain children => some (.retain s.id children)
    | .splice statements =>
      if (s.place a.element).parentIs .statements then some (.replace [(s.id, statements)] (· == 1)) else none

def deadBranches (a : Arena) : Plan := (a.layout.seats.findSome? a.decideAt?).getD (.replace [] (· == 1))

/-- The items of the array that a statement assigns. -/
def assignedItems? (a : Arena) (statement : IdTree) : Option IdTree :=
  statement.children[1]?.bind fun value => (value.unwrapStatement a.element).childOf? a.element .elements

/-- The items that a statement in its place reverses, which an earlier statement assigns. -/
def reversedAt? (a : Arena) (written : List String) (s : Seat) : Option IdTree :=
  match s.up?, s.trail.head? with
  | some list, some (_, call) =>
    if list.node.is a.element .statements then
      (reversedName? (s.node.toTree a.element).unwrapStatement).bind fun name =>
        if Vocabulary.isAmbient name || written.count name != 1 then none
        else
          let before := list.node.children.take call
          (before.findIdx? fun t => (reverseAssigned? name (t.toTree a.element)).isSome).bind fun i =>
            if (before.drop (i + 1)).any fun t => (t.toTree a.element).nodes.any (isNamed name) then none
            else before[i]?.bind a.assignedItems?
    else none
  | _, _ => none

def reverseConstArray (a : Arena) : Plan :=
  let written := a.toTree.writes
  match a.layout.seats.findSome? fun s => (a.reversedAt? written s).map (s, ·) with
  | none => .replace [] (· == 2)
  | some (call, items) =>
    .replace [(items.root, [.made { kind := .elements } (items.children.reverse.map .kept)]), (call.id, [])]
      (· == 2)

/-- The nodes where a walk has put literals, each with its literal. -/
def fillings (element : Nat → Element) : IdTree → Tree → List (Nat × List Sketch)
  | .node id below, .node e filled =>
    if (element id).kind == .variableRef then
      if (IdTree.node id below).toTree element == .node e filled then [] else [(id, [.ofTree (.node e filled)])]
    else fillingsAll element below filled
where
  fillingsAll (element : Nat → Element) : List IdTree → List Tree → List (Nat × List Sketch)
  | t :: ts, u :: us => fillings element t u ++ fillingsAll element ts us
  | _, _ => []

def propagateConstants (a : Arena) : Plan :=
  let t := a.toTree
  if t.hasDynamicVariables then .replace [] (0 < ·)
  else .replace (fillings a.element a.layout (walk (.ofTree t) none {} t).2) (0 < ·)

/-- The seat of the statement that is nothing but the command with these elements. -/
def statementOf? (a : Arena) (elements : Seat) : Option Seat :=
  (elements.up?.filter (·.node.is a.element .command)).bind fun command =>
    command.up?.bind fun above =>
      if above.node.is a.element .statements then some command
      else if above.node.is a.element .pipelineElements && above.node.children.length == 1 then
        (above.up?.filter fun pipeline =>
          pipeline.node.is a.element .pipeline && (pipeline.place a.element).parentIs .statements)
      else none

def invocationAt? (a : Arena) (s : Seat) : Option (Nat × String) :=
  (literalScript? (s.node.toTree a.element)).bind fun script => (a.statementOf? s).map (·.id, script)

/-- Submits the candidates one after the other until one can be replaced. -/
def inlineFirst (parser : Parser) (memory : Memory) : List (Nat × String) → Plan × Memory
  | [] => (.replace [] (· == 1), memory)
  | (statement, script) :: rest =>
    let answer := parser memory.submitted script
    let memory := { memory with submitted := memory.submitted ++ [script] }
    match answer.toOption.bind fun parsed => scriptStatements? parsed.children with
    | some statements => (.replace [(statement, Sketch.ofTrees statements)] (· == 1), memory)
    | none => inlineFirst parser { memory with rejected := script :: memory.rejected } rest

def inlineInvokeExpression (context : Context) (memory : Memory) (a : Arena) : Plan × Memory :=
  match context.settings.inlineInvokeExpression, context.parser with
  | true, some parser =>
    inlineFirst parser memory <|
      (a.layout.seats.filterMap a.invocationAt?).filter fun (_, script) => !memory.rejected.contains script
  | _, _ => (.replace [] (· == 1), memory)

def renameLongNames (threshold : Nat) (memory : Memory) (a : Arena) : Plan × Memory :=
  let memory := (Simplify.renameLongNames threshold memory a.toTree).2
  (a.respelling fun _ s => renamedElement? threshold memory s.element, memory)

end Arena

namespace Rule

open Arena

/-- The plan of a rule that neither remembers nor consults anything. -/
def plan : Rule → Arena → Plan
  | .removeEmptyContainers => replacingEach fun s => if isEmptyOptional s then some [] else none
  | .removeUnusedVariable => Arena.removeUnusedVariable
  | .unwrapParen => fun a => a.replacingFirst fun s => (s.node.inParen? a.element).map ([.kept ·])
  | .unwrapPipeline => fun a => a.replacingFirst fun s => (s.node.inPipeline? a.element).map ([.kept ·])
  | .unwrapSingleArray => fun a => a.replacingFirst fun s => (IdTree.onlyItem? a.element s).map ([.kept ·])
  | .removeUnassignedUse => Arena.removeUnassignedUse
  | .deadBranches => Arena.deadBranches
  | .unaryJoin => Arena.unaryJoin
  | .foldBinary => replacingEach fun s => (binaryValue? s).map ([·.toTree])
  | .foldInvokeMember => replacingEach fun s =>
    (invocationValue? s <|> propertyValue? s).map ([·.toTree .singleQuoted])
  | .reverseConstArray => Arena.reverseConstArray
  | .foldConversions => replacingEach fun s => (castOf? s).map ([·.toTree])
  | .foldIndex => replacingEach fun s => (indexValue? s).map ([·.toTree .singleQuoted])
  | .prefixCase => respelling prefixCaseOf
  | .barewordCase => respelling barewordCaseOf
  | .memberCase => respelling memberCaseOf
  | .commandBareword => respelling commandBarewordOf
  | .aliasToCmdlet => respelling aliasToCmdletOf
  | .specialVariableCase => respelling specialVariableCaseOf
  | .typeConstraintFromConvert => respelling typeConstraintOf
  | .typeNameCase => respelling typeNameCaseOf
  | .propagateConstants => Arena.propagateConstants
  | .inlineInvokeExpression | .renameLongNames => fun _ => .replace [] (· == 1)

/-- The plan of a rule, and what there is to remember. -/
def planWith (context : Context) (memory : Memory) (a : Arena) : Rule → Plan × Memory
  | .inlineInvokeExpression => Arena.inlineInvokeExpression context memory a
  | .renameLongNames => Arena.renameLongNames context.settings.renameThreshold memory a
  | rule => (rule.plan a, memory)

end Rule

/-- What comes of applying a rule to an arena. -/
structure Applied where
  arena : Arena
  memory : Memory
  /-- Whether the rule says that it has changed the tree. -/
  changed : Bool

/-- Applies a rule to an arena; none if that brings the program down. -/
def Rule.applyTo? (context : Context) (memory : Memory) (a : Arena) (rule : Rule) : Option Applied :=
  if rule.panics a.toTree then none
  else
    let (plan, memory) := rule.planWith context memory a
    let (arena, changed) := plan.carryOut a
    some { arena, memory, changed }

end Unscramble
