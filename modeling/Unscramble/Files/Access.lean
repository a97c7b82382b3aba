import Unscramble.Files.Basic

/-! Computations that read and write files one at a time. What is done next may depend on what was
read, and on whether a write was refused. -/
namespace Unscramble

inductive FileAccess (α : Type) where
  | done (value : α)
  | read (path : String) (next : Except FileFault String → FileAccess α)
  | write (path content : String) (next : Option FileFault → FileAccess α)

namespace FileAccess

def bind : FileAccess α → (α → FileAccess β) → FileAccess β
  | .done a, f => f a
  | .read path next, f => .read path fun answer => (next answer).bind f
  | .write path content next, f => .write path content fun answer => (next answer).bind f

instance : Monad FileAccess where
  pure := .done
  bind := bind

def readFile (path : String) : FileAccess (Except FileFault String) := .read path .done

def writeFile (path content : String) : FileAccess (Option FileFault) := .write path content .done

/-- Does the first access on a store; a computation that is done stays as it is. -/
def step (files : Files) : FileAccess α → FileAccess α × Files
  | .done a => (.done a, files)
  | .read path next => (next (files.read path), files)
  | .write path content next =>
    match files.refusal? path with
    | some fault => (next (some fault), files)
    | none => (next none, files.write path content)

/-- Does all accesses, with no other computation in between. -/
def run (files : Files) : FileAccess α → α × Files
  | .done a => (a, files)
  | .read path next => (next (files.read path)).run files
  | .write path content next =>
    match files.refusal? path with
    | some fault => (next (some fault)).run files
    | none => (next none).run (files.write path content)

end FileAccess

end Unscramble
