import Unscramble.Artifact
import Unscramble.Document.Codec
import Unscramble.Interpreter
import Unscramble.Optimizer
import Unscramble.Script.Printed

/-! One task on one input: the tree is read or parsed, optimized if the task asks for it, and
rendered; only then are the artifacts written. -/
namespace Unscramble

/-- Why a job failed, by the phase that it was in. -/
inductive Failure where
  | alreadyTree (input : String)
  | reading (input : String) (error : Error)
  | parsing (input : String) (error : Error)
  | optimizing (input : String) (error : Error)
  | panicked
  | rendering (artifact : Artifact) (error : Error)
  | writing (path : String) (fault : FileFault)
  deriving DecidableEq

namespace Failure

/-- What failed, followed by its causes. -/
def chain : Failure → List String
  | .alreadyTree input => [input ++ " is already a tree document"]
  | .reading input error => ("Failed to read tree document " ++ input) :: error.causes
  | .parsing input error => ("Failed to parse " ++ input) :: error.causes
  | .optimizing input error => ("Failed to optimize " ++ input) :: error.causes
  | .panicked => ["The program was brought down"]
  | .rendering artifact error => ("Failed to render " ++ artifact.name) :: error.causes
  | .writing path fault => ["Failed to write " ++ path, fault.message]

def message (failure : Failure) : String := ": ".intercalate failure.chain

end Failure

/-- What jobs are done with: what parses scripts and reads documents, what makes the artifacts, and the
settings of the optimizer, whose steps `maxRun` bounds. -/
structure Tools where
  parser : ScriptParser
  readTree : String → Except Error Tree := Document.read
  renderTree : Tree → Except Error String := fun t => .ok (Document.write t)
  renderScript : Tree → Except Error String := fun t =>
    .ok (Script.print ({} : LayoutSettings).indentWidth t)
  optimizer : OptimizerSettings := {}
  maxRun : Nat

/-- A job that went well: the artifacts and where they are, and the statistics of the optimizer if
it ran. -/
structure Outcome where
  outputs : List (Artifact × String)
  statistics : Option Statistics := none
  deriving DecidableEq

namespace Tools

def context (tools : Tools) : Simplify.Context :=
  { settings := tools.optimizer, parser := some fun _ => tools.parser.parseText }

/-- The tree of an input. -/
def load (tools : Tools) (input : String) : FileAccess (Except Failure Tree) := do
  if isTreeDocument input then
    match ← FileAccess.readFile input with
    | .error fault => return .error (.reading input (.file fault))
    | .ok document => return (tools.readTree document).mapError (.reading input)
  else
    return (← tools.parser.parseFile input).mapError (.parsing input)

/-- The tree that the artifacts of a task are made of. -/
def improve (tools : Tools) (task : Task) (input : String) (t : Tree) :
    Except Failure (Tree × Option Statistics) :=
  match task with
  | .deob =>
    match execute tools.context tools.maxRun t with
    | .panicked _ => .error .panicked
    | .ended run =>
      match run.statistics t with
      | .ok statistics => .ok (run.progress.tree, some statistics)
      | .error error => .error (.optimizing input error)
  | .parse | .format => .ok (t, none)

def render (tools : Tools) (t : Tree) : Artifact → Except Error String
  | .tree | .deobfuscatedTree => tools.renderTree t
  | .formatted | .deobfuscated => tools.renderScript t

/-- Renders artifacts one after the other, up to the first that cannot be. -/
def renderAll (tools : Tools) (t : Tree) : List Artifact → Except Failure (List (Artifact × String))
  | [] => .ok []
  | artifact :: artifacts => do
    let content ← (tools.render t artifact).mapError (.rendering artifact)
    return (artifact, content) :: (← renderAll tools t artifacts)

/-- Writes artifacts one after the other, up to the first that is refused. -/
def save (input : String) : List (Artifact × String) → FileAccess (Except Failure Unit)
  | [] => return .ok ()
  | (artifact, content) :: rest => do
    match ← FileAccess.writeFile (artifact.path input) content with
    | some fault => return .error (.writing (artifact.path input) fault)
    | none => save input rest

/-- Does a task on an input. -/
def run (tools : Tools) (task : Task) (input : String) : FileAccess (Except Failure Outcome) := do
  if isTreeDocument input && task = .parse then
    return .error (.alreadyTree input)
  else
    match (← tools.load input).bind (tools.improve task input) with
    | .error failure => return .error failure
    | .ok (t, statistics) =>
      match tools.renderAll t task.artifacts with
      | .error failure => return .error failure
      | .ok contents =>
        let saved ← save input contents
        return saved.map fun _ =>
          { outputs := task.artifacts.map fun artifact => (artifact, artifact.path input),
            statistics }

end Tools

end Unscramble
