import Unscramble.CommandLine
import Unscramble.Report
import Unscramble.SettingsFile

/-! A whole run: the command line is read, the settings are loaded, and every input is worked on by
itself. -/
namespace Unscramble

/-- How a run ends: its exit code, and what is printed. -/
structure Exit where
  code : Nat
  output : Option String := none
  complaints : List String := []

namespace Session

def usage : String := "\n".intercalate
  ["Usage: unscramble [OPTIONS] --in <INPUT> <COMMAND>",
    "",
    "Commands: parse, deob, format",
    "",
    "Options:",
    "  -i, --in <INPUT>       script or saved tree, may be given several times",
    "  -c, --config <CONFIG>  settings file",
    "      --sandbox          parse scripts in a job of its own",
    "      --json             print a report of every input",
    "  -v, --verbose          say more",
    "  -q, --quiet            say errors only",
    "  -h, --help             print this",
    "  -V, --version          print the version"]

def version : String := "unscramble 0.1.0"

/-- The settings of a file, or the defaults without one. -/
def loadSettings (config : Option String) : FileAccess (Except Error Settings) := do
  match config with
  | none => return .ok {}
  | some path =>
    match ← FileAccess.readFile path with
    | .ok document => return Settings.read document
    | .error fault => return .error (.file fault)

def complain (context : String) (error : Error) : String :=
  ": ".intercalate (context :: error.causes)

/-- What a run has around it: the interpreter, where it stands, and a bound on the steps of the
optimizer. -/
structure Environment where
  interpreter : Interpreter
  around : Interpreter.Surroundings
  maxRun : Nat

def tools (env : Environment) (settings : Settings) : Tools where
  parser := env.interpreter.parser settings.parser env.around
  renderScript t := .ok (Script.print settings.layout.indentWidth t)
  optimizer := settings.optimizer
  maxRun := env.maxRun

/-- The interpreter is needed, and looked for, if some input is not a tree. -/
def ready (env : Environment) (settings : Settings) (inputs : List String) : Except Error Unit :=
  if inputs.all isTreeDocument then .ok () else env.interpreter.check settings.parser

/-- The exit after all inputs: well only if every one of them went well. Nothing is said if one of them
brought the program down. -/
def conclude (json : Bool) (reports : List Report) : Exit :=
  if reports.any (·.panicked) then { code := 101 }
  else
    { code := if reports.all (·.succeeded) then 0 else 1
      output := if json then some (JsonValue.list (reports.map Report.json)).print else none
      complaints := reports.filterMap fun report =>
        match report.result with
        | .ok _ => none
        | .error failure => some (report.input ++ ": " ++ failure.message) }

def work (env : Environment) (options : CommandLine.Options) : FileAccess Exit := do
  match ← loadSettings options.config with
  | .error error => return { code := 1, complaints := [complain "Failed to load settings" error] }
  | .ok settings =>
    let settings :=
      if options.sandbox then { settings with parser := { settings.parser with sandboxed := true } }
      else settings
    match ready env settings options.inputs with
    | .error error =>
      let context := "A PowerShell interpreter is required to parse scripts"
      return { code := 1, complaints := [complain context error] }
    | .ok () =>
      return conclude options.json
        (← options.inputs.mapM ((tools env settings).report options.task))

/-- Runs a command line. -/
def run (env : Environment) (arguments : List String) : FileAccess Exit :=
  match CommandLine.parse arguments with
  | .error fault => return { code := 2, complaints := [fault.message, usage] }
  | .ok .help => return { code := 0, output := some usage }
  | .ok .version => return { code := 0, output := some version }
  | .ok (.work options) => work env options

end Session

end Unscramble
