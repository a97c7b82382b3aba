/-! What can go wrong, as causes, and the wording of each. -/
namespace Unscramble

/-- Why a document with sound markup holds no tree. -/
inductive DocumentFault where
  | severalRoots
  | unexpectedClosing (tag : String)
  | textOutsideRoot
  | unclosedElements
  | empty
  | missing (path : String)
  | other (reason : String)
  deriving DecidableEq

def DocumentFault.message : DocumentFault → String
  | .severalRoots => "several root elements"
  | .unexpectedClosing tag => "unexpected closing tag </" ++ tag ++ ">"
  | .textOutsideRoot => "text outside the root element"
  | .unclosedElements => "unclosed elements at end of document"
  | .empty => "empty document"
  | .missing path => "parser did not create " ++ path
  | .other reason => reason

/-- Why a file could not be used. -/
inductive FileFault where
  | notFound
  | denied
  | isDirectory
  | notDirectory
  | nameTooLong
  | zeroInName
  | zeroInArgument
  deriving DecidableEq

def FileFault.message : FileFault → String
  | .notFound => "No such file or directory (os error 2)"
  | .denied => "Permission denied (os error 13)"
  | .isDirectory => "Is a directory (os error 21)"
  | .notDirectory => "Not a directory (os error 20)"
  | .nameTooLong => "File name too long (os error 36)"
  | .zeroInName => "file name contained an unexpected NUL byte"
  | .zeroInArgument => "nul byte found in provided data"

inductive Error where
  | file (fault : FileFault)
  | scriptNotFound (path : String)
  | markup
  | markupAttribute
  | document (fault : DocumentFault)
  | parserFailed (path : String) (status : Option Int) (diagnostics : List String)
  | parserUnavailable (program : String) (fault : FileFault)
  | settings
  | stepLimit (limit : Nat)
  | unfinished (steps : Nat)
  deriving DecidableEq

/-- The causes of an error, the outermost first, as they are chained in a report. -/
def Error.causes : Error → List String
  | .file fault => ["I/O error: " ++ fault.message, fault.message]
  | .scriptNotFound path =>
    ["I/O error: input script not found: " ++ path, "input script not found: " ++ path]
  | .markup => ["malformed tree document: invalid markup", "invalid markup"]
  | .markupAttribute => ["malformed tree attribute: invalid attribute", "invalid attribute"]
  | .document fault => ["malformed tree document: " ++ fault.message]
  | .parserFailed path status _ =>
    let code := match status with
      | some code => "Some(" ++ toString code ++ ")"
      | none => "None"
    ["parser exited with status " ++ code ++ " on " ++ path]
  | .parserUnavailable program fault =>
    ["parser '" ++ program ++ "' could not be started: " ++ fault.message, fault.message]
  | .settings => ["invalid configuration: unreadable settings", "unreadable settings"]
  | .stepLimit limit => ["optimizer exceeded " ++ toString limit ++ " steps"]
  | .unfinished steps => ["optimizer given up after " ++ toString steps ++ " steps"]

/-- An error's own wording, without the causes below it. -/
def Error.message (e : Error) : String := e.causes.headD ""

end Unscramble
