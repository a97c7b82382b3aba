import Unscramble.Document.Codec
import Unscramble.Files.Access
import Unscramble.Settings
import Unscramble.Text.Blank

/-! Parsing scripts with an outside interpreter: it is started with a script that writes the tree
of an input as a document. -/
namespace Unscramble

/-- A program and its arguments. -/
structure Invocation where
  program : String
  arguments : List String
  deriving DecidableEq

/-- An interpreter that has come to its end: its exit code, if it was not killed, what it printed,
and the document that it left. -/
structure Ended where
  status : Option Int := some 0
  output : String := ""
  diagnostics : String := ""
  document : Option String := none
  deriving DecidableEq

/-- How an invocation with the text of a script goes, or why the program does not start. -/
abbrev Interpreter := Invocation → String → Except FileFault Ended

/-- Turns scripts into trees, those in files and those in memory. -/
structure ScriptParser where
  parseFile : String → FileAccess (Except Error Tree)
  parseText : String → Except Error Tree

/-- A parser of texts that reads files for itself. A text in memory is parsed as if it came from a
file at `scratch`. -/
def ScriptParser.ofTexts (scratch : String) (parse : String → String → Except Error Tree) :
    ScriptParser where
  parseFile path := do
    match ← FileAccess.readFile path with
    | .ok text => return parse path text
    | .error fault => return .error (.file fault)
  parseText := parse scratch

namespace Interpreter

/-- The lines of a text that are not blank. A carriage return before a line break is not part of
the line. -/
def diagnosticLines (s : String) : List String :=
  let line (chars : List Char) : String :=
    String.ofList ((Text.dropEnd? ['\r'] chars).getD chars)
  let parts := Text.splitWhere (· == '\n') s.toList
  let rest := String.ofList (parts.getLast?.getD [])
  (parts.dropLast.map line ++ [rest]).filter (!Text.isBlankText ·)

/-- What is asked of an interpreter to see whether it works at all. -/
def versionRequest (program : String) : Invocation where
  program
  arguments := ["-NoProfile", "-NonInteractive", "-Command", "$PSVersionTable.PSVersion.ToString()"]

/-- What is asked of an interpreter to turn an input script into a document. -/
def treeRequest (settings : ParserSettings) (script input output : String) : Invocation where
  program := settings.program
  arguments :=
    ["-NoProfile", "-NonInteractive", "-ExecutionPolicy", "Bypass", "-File", script,
      "-ps1", input, "-xml", output] ++ if settings.sandboxed then ["-Sandbox"] else []

/-- Whether an invocation can be asked for at all: the character zero would end a text early. -/
def isSound (request : Invocation) : Bool :=
  (request.program :: request.arguments).all (!·.toList.contains '\x00')

/-- How an invocation ended if it ended well; a failure is blamed on `subject`. -/
def succeed (interpreter : Interpreter) (request : Invocation) (subject text : String) :
    Except Error Ended :=
  match if isSound request then interpreter request text else .error .zeroInArgument with
  | .error fault => .error (.parserUnavailable request.program fault)
  | .ok ended =>
    if ended.status = some 0 then .ok ended
    else .error (.parserFailed subject ended.status (diagnosticLines ended.diagnostics))

/-- Whether the interpreter starts and ends well. -/
def check (interpreter : Interpreter) (settings : ParserSettings) : Except Error Unit :=
  (interpreter.succeed (versionRequest settings.program) settings.program "").map fun _ => ()

/-- Where the program stands, and where it keeps files that nobody else sees. -/
structure Surroundings where
  directory : String
  scratch : String

/-- The document of a script with a given text, to be left at `output`. -/
def documentOf (interpreter : Interpreter) (settings : ParserSettings) (directory : String)
    (input output text : String) : Except Error String := do
  let request := treeRequest settings (Path.absolute directory settings.script) input
    (Path.absolute directory output)
  let ended ← interpreter.succeed request input text
  match ended.document with
  | some document => .ok document
  | none => .error (.document (.missing output))

/-- The document of the script in a file, which is looked for where its path leads from the
directory on. -/
def documentOfFile (interpreter : Interpreter) (settings : ParserSettings) (directory : String)
    (input output : String) : FileAccess (Except Error String) := do
  let place := Path.absolute directory input
  match ← FileAccess.readFile place with
  | .ok text => return interpreter.documentOf settings directory place output text
  | .error _ => return .error (.scriptNotFound place)

/-- The parser that an interpreter makes; its documents go to the scratch directory. -/
def parser (interpreter : Interpreter) (settings : ParserSettings) (around : Surroundings) :
    ScriptParser :=
  let output := around.scratch ++ "/tree.xml"
  { parseFile := fun path => do
      let document ← interpreter.documentOfFile settings around.directory path output
      return document.bind Document.read
    parseText := fun text =>
      (interpreter.documentOf settings around.directory (around.scratch ++ "/script.ps1") output
        text).bind Document.read }

end Interpreter

end Unscramble
