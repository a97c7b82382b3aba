import Unscramble.Error
import Unscramble.Path

/-! A store of text files in directories, and how a path is followed in it, one segment after the
other. Directories are there from the start; writing to a file may be refused. -/
namespace Unscramble

/-- Where a file or a directory is: the names on the way to it from the root, the last one first. -/
abbrev Location := List (List Char)

structure Files where
  /-- Where the paths start that do not start at the root. -/
  directory : Location := []
  entries : List (Location × String) := []
  directories : List Location := []
  /-- Locations that refuse to be written to. -/
  refusals : List (Location × FileFault) := []

namespace Files

def lookup (key : Location) (pairs : List (Location × α)) : Option α :=
  (pairs.find? (·.1 == key)).map (·.2)

/-- A location and all above it. -/
def above : Location → List Location
  | [] => [[]]
  | name :: outer => (name :: outer) :: above outer

/-- Where a path without parent segments leads, whatever there is. -/
def locationOf (directory : Location) (path : String) : Location :=
  ((Path.segments path).filter (!Path.isIdle ·)).reverse ++
    if Path.isAbsolute path then [] else directory

/-- The store of the files with these paths and contents, with a directory to start at. -/
def within (directory : String) (files : List (String × String)) : Files :=
  let start := locationOf [] directory
  let entries := files.map fun (path, content) => (locationOf start path, content)
  { directory := start, entries,
    directories := above start ++ entries.flatMap fun (location, _) => above location.tail }

def contentAt? (files : Files) (location : Location) : Option String :=
  lookup location files.entries

def isDirectory (files : Files) (location : Location) : Bool :=
  location == [] || files.directories.contains location

/-- The bytes that a name may have, and those that a path may have. -/
def longestName : Nat := 255

def longestPath : Nat := 4095

/-- Follows segments from a location on. Only directories lead further, even if it is no further
than to themselves. Whether there is anything at the end is left open. -/
def follow (files : Files) (location : Location) : List (List Char) → Except FileFault Location
  | [] => .ok location
  | segment :: rest =>
    if !files.isDirectory location then
      .error (if (files.contentAt? location).isSome then .notDirectory else .notFound)
    else if Path.isIdle segment then files.follow location rest
    else if segment = Path.parent then files.follow location.tail rest
    else if longestName < (String.ofList segment).utf8ByteSize then .error .nameTooLong
    else files.follow (segment :: location) rest

/-- Where a path leads. -/
def locate (files : Files) (path : String) : Except FileFault Location :=
  if path.toList.contains '\x00' then .error .zeroInName
  else if path = "" then .error .notFound
  else if longestPath < path.utf8ByteSize then .error .nameTooLong
  else files.follow (if Path.isAbsolute path then [] else files.directory) (Path.segments path)

def read (files : Files) (path : String) : Except FileFault String :=
  (files.locate path).bind fun location =>
    match files.contentAt? location with
    | some content => .ok content
    | none => .error (if files.isDirectory location then .isDirectory else .notFound)

/-- Why a path can not be written to, if it can not. A slash at the end asks for a directory, which
is none the less not looked for. -/
def refusal? (files : Files) (path : String) : Option FileFault :=
  match files.locate (Path.withoutSlash path) with
  | .error fault => some fault
  | .ok location =>
    if files.isDirectory location || Path.endsWithSlash path then some .isDirectory
    else lookup location files.refusals

def put (location : Location) (content : String) :
    List (Location × String) → List (Location × String)
  | [] => [(location, content)]
  | (l, old) :: rest =>
    if l = location then (l, content) :: rest else (l, old) :: put location content rest

/-- The store after a write that is not refused. -/
def write (files : Files) (path content : String) : Files :=
  match files.locate path with
  | .ok location => { files with entries := put location content files.entries }
  | .error _ => files

/-- The shortest path to a location below the starting directory, and to others that from
the root. -/
def pathTo (files : Files) (location : Location) : String :=
  String.ofList <|
    if files.directory.isSuffixOf location then
      Path.joinSegments (location.take (location.length - files.directory.length)).reverse
    else '/' :: Path.joinSegments location.reverse

/-- The files of a later store that are new or have changed. -/
def changes (before after : Files) : List (String × String) :=
  (after.entries.filter fun (location, content) => before.contentAt? location != some content).map
    fun (location, content) => (after.pathTo location, content)

end Files

end Unscramble
