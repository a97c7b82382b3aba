import Unscramble.Session

/-! The program: accesses are done on the files of the machine, and what a run prints is
printed. No interpreter is started, so that only saved trees can be worked on. -/
namespace Unscramble

/-- The fault that an error of the machine stands for. -/
def FileFault.ofError : IO.Error → FileFault
  | .noFileOrDirectory .. => .notFound
  | .inappropriateType _ 20 _ => .notDirectory
  | .inappropriateType .. => .isDirectory
  | .invalidArgument _ 36 _ => .nameTooLong
  | .permissionDenied .. => .denied
  | _ => .notFound

def FileAccess.perform : FileAccess α → IO α
  | .done a => return a
  | .read path next => do
    let answer ← try pure (.ok (← IO.FS.readFile path))
      catch e => pure (.error (FileFault.ofError e))
    (next answer).perform
  | .write path content next => do
    let answer ← try
        IO.FS.writeFile path content
        pure none
      catch e => pure (some (FileFault.ofError e))
    (next answer).perform

def noInterpreter : Interpreter := fun _ _ => .error .notFound

end Unscramble

def main (arguments : List String) : IO UInt32 := do
  let directory ← IO.currentDir
  let around : Unscramble.Interpreter.Surroundings := ⟨directory.toString, "/tmp"⟩
  let env : Unscramble.Session.Environment :=
    { interpreter := Unscramble.noInterpreter, around, maxRun := UInt64.size }
  let exit ← (Unscramble.Session.run env arguments).perform
  for complaint in exit.complaints do
    IO.eprintln complaint
  if let some output := exit.output then
    IO.println output
  return UInt32.ofNat exit.code
