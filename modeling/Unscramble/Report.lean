import Unscramble.Job
import Unscramble.JsonValue

/-! What is reported about a job. -/
namespace Unscramble

structure Report where
  task : Task
  input : String
  result : Except Failure Outcome

namespace Report

def succeeded (report : Report) : Bool := report.result.isOk

def panicked (report : Report) : Bool :=
  match report.result with
  | .error .panicked => true
  | _ => false

def outputs (report : Report) : List String :=
  match report.result with
  | .ok outcome => outcome.outputs.map (·.2)
  | .error _ => []

end Report

namespace Statistics

def json (s : Statistics) : JsonValue :=
  .object
    [("nodes_in", .number s.nodesIn), ("nodes_out", .number s.nodesOut),
      ("steps", .number s.steps),
      ("rules", .list (s.perRule.map fun (rule, count) =>
        .object [("rule", .text rule), ("count", .number count)]))]

end Statistics

namespace Report

/-- Fields that do not apply are left out. -/
def json (report : Report) : JsonValue :=
  let status := if report.succeeded then "ok" else "failed"
  let more := match report.result with
    | .ok outcome => (outcome.statistics.map fun s => ("stats", s.json)).toList
    | .error failure => [("error", JsonValue.text failure.message)]
  .object <|
    [("command", .text report.task.name), ("input", .text report.input), ("status", .text status),
      ("outputs", .list (report.outputs.map .text))] ++ more

end Report

/-- Does a task on an input and reports on it. -/
def Tools.report (tools : Tools) (task : Task) (input : String) : FileAccess Report := do
  return { task, input, result := ← tools.run task input }

end Unscramble
