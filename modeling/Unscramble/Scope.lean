import Unscramble.Text.Case
import Unscramble.Value.Basic

/-! Bindings of variables to known values, in nested frames. Names are kept in lower case. A write
goes to the innermost frame that binds the name, and to the innermost of all if none does. -/
namespace Unscramble

abbrev Frame := List (String × Value)

namespace Frame

def find? (frame : Frame) (key : String) : Option Value :=
  (List.find? (·.1 == key) frame).map (·.2)

def has (frame : Frame) (key : String) : Bool := List.any frame (·.1 == key)

def erase (frame : Frame) (key : String) : Frame := List.filter (·.1 != key) frame

def insert (frame : Frame) (key : String) (value : Value) : Frame :=
  (key, value) :: frame.erase key

end Frame

/-- The innermost frame, and the frames around it, nearest first. -/
structure Scope where
  inner : Frame := []
  outer : List Frame := []

namespace Scope

def frames (scope : Scope) : List Frame := scope.inner :: scope.outer

def ofFrames : List Frame → Scope
  | [] => {}
  | inner :: outer => ⟨inner, outer⟩

def enter (scope : Scope) : Scope := ⟨[], scope.frames⟩

/-- Drops the innermost frame; the global one is never dropped. -/
def leave (scope : Scope) : Scope :=
  match scope.outer with
  | [] => scope
  | inner :: outer => ⟨inner, outer⟩

def depth (scope : Scope) : Nat := scope.frames.length

def get? (scope : Scope) (name : String) : Option Value :=
  scope.frames.findSome? (·.find? (Text.lower name))

/-- Overwrites the nearest binding of a key, if there is one. -/
def overwrite? (key : String) (value : Value) : List Frame → Option (List Frame)
  | [] => none
  | frame :: frames =>
    if frame.has key then some (frame.insert key value :: frames)
    else (overwrite? key value frames).map (frame :: ·)

def set (scope : Scope) (name : String) (value : Value) : Scope :=
  let key := Text.lower name
  match overwrite? key value scope.frames with
  | some frames => ofFrames frames
  | none => ⟨scope.inner.insert key value, scope.outer⟩

/-- Forgets a name in every frame. -/
def delete (scope : Scope) (name : String) : Scope :=
  ofFrames (scope.frames.map (·.erase (Text.lower name)))

end Scope
end Unscramble
