import Unscramble.Text.Split

/-! Paths as texts, with slashes between their segments. An empty segment and a lone dot name
nothing; the file name is the last segment that names something, unless that is the parent
directory. -/
namespace Unscramble.Path

def segments (path : String) : List (List Char) := Text.splitWhere (· == '/') path.toList

def isIdle (segment : List Char) : Bool := segment == [] || segment == ['.']

def parent : List Char := ['.', '.']

/-- A path cut around its file name: what stands before it, with the slash, the name, and the idle
segments after it, each with the slash before it. -/
structure Cut where
  directory : List Char
  name : List Char
  tail : List Char
  deriving DecidableEq

def cut? (path : String) : Option Cut :=
  let backwards := (segments path).reverse
  match backwards.dropWhile isIdle with
  | [] => none
  | name :: before =>
    if name = parent then none
    else some
      { directory := before.reverse.flatMap (· ++ ['/']),
        name,
        tail := (backwards.takeWhile isIdle).reverse.flatMap ('/' :: ·) }

def fileName? (path : String) : Option (List Char) := (cut? path).map (·.name)

/-- A name cut at its last point into stem and extension. A point in front is part of the stem. -/
def dotted? (name : List Char) : Option (List Char × List Char) :=
  let backwards := name.reverse
  match backwards.dropWhile (· != '.') with
  | [] => none
  | _ :: stem =>
    if stem = [] then none else some (stem.reverse, (backwards.takeWhile (· != '.')).reverse)

def extension? (path : String) : Option (List Char) :=
  ((fileName? path).bind dotted?).map (·.2)

/-- A path with the extension of its file name replaced, or added if there is none, and without
the idle segments at its end. A path without a file name stays as it is. A last name of two points
and an extension loses the extension, which leaves the parent directory and no name to extend. -/
def withExtension (extension : String) (path : String) : String :=
  match cut? path with
  | none => path
  | some cut =>
    let extend (stem : List Char) := stem ++ '.' :: extension.toList
    let name := match dotted? cut.name with
      | none => extend cut.name
      | some (stem, _) => if stem = ['.'] && cut.tail = [] then parent else extend stem
    String.ofList (cut.directory ++ name)

def isAbsolute (path : String) : Bool := path.toList.head? == some '/'

def endsWithSlash (path : String) : Bool := path.toList.getLast? == some '/'

/-- A path without the slashes at its end; the root stays as it is. -/
def withoutSlash (path : String) : String :=
  match path.toList.reverse.dropWhile (· == '/') with
  | [] => path
  | named => String.ofList named.reverse

def joinSegments (parts : List (List Char)) : List Char := Text.join ['/'] parts

/-- A path from the root on, given the directory that it starts at. Idle segments are dropped, but
not a slash at the end, nor exactly two in front. -/
def absolute (directory : String) (path : String) : String :=
  let named := joinSegments ((segments path).filter (!isIdle ·))
  let ending := if endsWithSlash path && !named.isEmpty then ['/'] else []
  match path.toList with
  | [] => path
  | '/' :: '/' :: '/' :: _ => String.ofList ('/' :: named ++ ending)
  | '/' :: '/' :: _ => String.ofList ('/' :: '/' :: named ++ ending)
  | '/' :: _ => String.ofList ('/' :: named ++ ending)
  | _ :: _ =>
    let base := directory.toList
    let slash := if base.getLast? == some '/' then [] else ['/']
    let rest := if named.isEmpty then
        (if endsWithSlash path then slash else []) else slash ++ named
    String.ofList (base ++ rest ++ ending)

end Unscramble.Path
