import Unscramble.Artifact

/-! The command line: a task, one input or more, and options. Options may stand anywhere, short
ones in clusters; after a double dash only the task can follow. -/
namespace Unscramble

inductive LogLevel where
  | error
  | info
  | debug
  | trace
  deriving DecidableEq

namespace LogLevel

def name : LogLevel → String
  | .error => "error"
  | .info => "info"
  | .debug => "debug"
  | .trace => "trace"

/-- Quiet wins; otherwise every request for more adds a level. -/
def ofVerbosity (verbosity : Nat) (quiet : Bool) : LogLevel :=
  if quiet then .error
  else match verbosity with
    | 0 => .info
    | 1 => .debug
    | _ => .trace

end LogLevel

namespace CommandLine

structure Options where
  task : Task
  inputs : List String
  config : Option String := none
  sandbox : Bool := false
  json : Bool := false
  verbosity : Nat := 0
  quiet : Bool := false
  deriving DecidableEq

/-- What a command line asks for. -/
inductive Request where
  | work (options : Options)
  | help
  | version
  deriving DecidableEq

/-- Why a command line is refused. -/
inductive Fault where
  | unknownTask (word : String)
  | unexpected (argument : String)
  | missingValue (option : String)
  | needlessValue (option : String)
  | repeated (option : String)
  | missingTask
  | missingInput
  | contradiction
  deriving DecidableEq

def Fault.message : Fault → String
  | .unknownTask word => "there is no task '" ++ word ++ "'"
  | .unexpected argument => "unexpected argument '" ++ argument ++ "'"
  | .missingValue option => "a value is required for '" ++ option ++ "'"
  | .needlessValue option => "'" ++ option ++ "' takes no value"
  | .repeated option => "'" ++ option ++ "' can not be given twice"
  | .missingTask => "a task is required: parse, deob or format"
  | .missingInput => "an input is required: --in <INPUT>"
  | .contradiction => "'--verbose' can not be given with '--quiet'"

/-- What has been given so far, the last input first. -/
structure Given where
  task : Option Task := none
  inputs : List String := []
  config : Option String := none
  sandbox : Bool := false
  json : Bool := false
  verbosity : Nat := 0
  quiet : Bool := false

/-- The options that take a value. -/
inductive Valued where
  | input
  | config

def Valued.name : Valued → String
  | .input => "--in"
  | .config => "--config"

/-- What an option leads to: more arguments, first of all its value, or the end. -/
inductive Effect where
  | next (given : Given)
  | await (option : Valued) (given : Given)
  | stop (request : Request)

namespace Given

def setTask (given : Given) (word : String) : Except Fault Given :=
  match given.task, Task.ofName? word with
  | some _, _ => .error (.unexpected word)
  | none, some task => .ok { given with task := some task }
  | none, none => .error (.unknownTask word)

def setValue (given : Given) (option : Valued) (value : String) : Except Fault Given :=
  if value = "" then .error (.missingValue option.name)
  else match option with
    | .input => .ok { given with inputs := value :: given.inputs }
    | .config =>
      if given.config.isSome then .error (.repeated option.name)
      else .ok { given with config := some value }

def once (seen : Bool) (option : String) (given : Given) : Except Fault Effect :=
  if seen then .error (.repeated option) else .ok (.next given)

/-- The effect of an option named in full. -/
def flag (given : Given) (name : String) : Except Fault Effect :=
  match name with
  | "in" => .ok (.await .input given)
  | "config" => .ok (.await .config given)
  | "sandbox" => once given.sandbox "--sandbox" { given with sandbox := true }
  | "json" => once given.json "--json" { given with json := true }
  | "verbose" => .ok (.next { given with verbosity := given.verbosity + 1 })
  | "quiet" => once given.quiet "--quiet" { given with quiet := true }
  | "help" => .ok (.stop .help)
  | "version" => .ok (.stop .version)
  | _ => .error (.unexpected ("--" ++ name))

/-- The effect of an option with a value attached to it. -/
def attach (given : Given) (name value : String) : Except Fault Effect :=
  match name with
  | "in" => (given.setValue .input value).map .next
  | "config" => (given.setValue .config value).map .next
  | "sandbox" | "json" | "verbose" | "quiet" | "help" | "version" =>
    .error (.needlessValue ("--" ++ name))
  | _ => .error (.unexpected ("--" ++ name))

def long (given : Given) (argument : List Char) : Except Fault Effect :=
  match Text.cut? ['='] argument with
  | some (name, value) => given.attach (String.ofList name) (String.ofList value)
  | none => given.flag (String.ofList argument)

def shortName? : Char → Option String
  | 'i' => some "in"
  | 'c' => some "config"
  | 'v' => some "verbose"
  | 'q' => some "quiet"
  | 'h' => some "help"
  | 'V' => some "version"
  | _ => none

/-- The effect of a cluster of short options. What stands behind one that takes a value is its
value, an equals sign in front of it left out. -/
def cluster (given : Given) : List Char → Except Fault Effect
  | [] => .ok (.next given)
  | c :: rest =>
    match shortName? c with
    | none => .error (.unexpected ("-" ++ c.toString))
    | some name =>
      match given.flag name with
      | .ok (.next given) => given.cluster rest
      | .ok (.await option given) =>
        match rest with
        | [] => .ok (.await option given)
        | '=' :: value => (given.setValue option (String.ofList value)).map .next
        | value => (given.setValue option (String.ofList value)).map .next
      | effect => effect

def finish (given : Given) : Except Fault Request :=
  if 0 < given.verbosity && given.quiet then .error .contradiction
  else match given.task, given.inputs with
    | none, _ => .error .missingTask
    | some _, [] => .error .missingInput
    | some task, inputs =>
      .ok (.work
        { task, inputs := inputs.reverse, config := given.config, sandbox := given.sandbox,
          json := given.json, verbosity := given.verbosity, quiet := given.quiet })

end Given

/-- Whether an argument is an option or a double dash. A lone dash is a word. -/
def isOption (argument : String) : Bool :=
  match argument.toList with
  | '-' :: _ :: _ => true
  | _ => false

/-- The effect of one argument. -/
def argument (given : Given) (word : String) : Except Fault Effect :=
  match word.toList with
  | '-' :: '-' :: name => given.long name
  | '-' :: c :: cluster => given.cluster (c :: cluster)
  | _ => (given.setTask word).map .next

def parseFrom (given : Given) : List String → Except Fault Request
  | [] => given.finish
  | word :: rest =>
    if word = "--" then
      match rest.foldlM Given.setTask given with
      | .ok given => given.finish
      | .error fault => .error fault
    else
      match argument given word with
      | .error fault => .error fault
      | .ok (.next given) => parseFrom given rest
      | .ok (.stop request) => .ok request
      | .ok (.await option given) =>
        match rest with
        | [] => .error (.missingValue option.name)
        | value :: rest =>
          if isOption value then .error (.missingValue option.name)
          else match given.setValue option value with
            | .ok given => parseFrom given rest
            | .error fault => .error fault

/-- Reads a command line. The first help or version option ends it, and so does the first
fault. -/
def parse (arguments : List String) : Except Fault Request := parseFrom {} arguments

end CommandLine

end Unscramble
