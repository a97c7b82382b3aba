import Unscramble.Path
import Unscramble.Text.Case

/-! What can be done with an input, and the files that this leaves next to it. -/
namespace Unscramble

inductive Artifact where
  | tree
  | deobfuscatedTree
  | formatted
  | deobfuscated
  deriving DecidableEq

namespace Artifact

def all : List Artifact := [.tree, .deobfuscatedTree, .formatted, .deobfuscated]

def extension : Artifact → String
  | .tree => "xml"
  | .deobfuscatedTree => "deob.xml"
  | .formatted => "formatted.ps1"
  | .deobfuscated => "deob.ps1"

def name : Artifact → String
  | .tree => "tree"
  | .deobfuscatedTree => "deobfuscated tree"
  | .formatted => "formatted script"
  | .deobfuscated => "deobfuscated script"

/-- Where the artifact of an input goes: next to it, under its own extension. -/
def path (a : Artifact) (input : String) : String := Path.withExtension a.extension input

end Artifact

inductive Task where
  | parse
  | deob
  | format
  deriving DecidableEq

namespace Task

def all : List Task := [.parse, .deob, .format]

def name : Task → String
  | .parse => "parse"
  | .deob => "deob"
  | .format => "format"

def ofName? (name : String) : Option Task := all.find? (·.name == name)

/-- What the task writes, in this order. -/
def artifacts : Task → List Artifact
  | .parse => [.tree]
  | .deob => [.deobfuscatedTree, .deobfuscated]
  | .format => [.formatted]

end Task

/-- Whether a path names a saved tree rather than a script. -/
def isTreeDocument (path : String) : Bool :=
  match Path.extension? path with
  | some extension => Text.sameIgnoringCase (String.ofList extension) "xml"
  | none => false

end Unscramble
