/-! The pieces of a printed script. Only line breaks know how deep they are nested, so that the
width of the indentation is chosen after everything else, and the content does not depend on it. -/
namespace Unscramble.Script

inductive Piece where
  | text (s : String)
  | line (level : Nat)
  deriving DecidableEq

def Piece.render (width : Nat) : Piece → String
  | .text s => s
  | .line level => "\n" ++ String.ofList (List.replicate (level * width) ' ')

def render (width : Nat) (pieces : List Piece) : String :=
  String.join (pieces.map (·.render width))

/-- The first character that is printed. -/
def firstChar? : List Piece → Option Char
  | [] => none
  | .line _ :: _ => some '\n'
  | .text s :: pieces =>
    match s.toList with
    | [] => firstChar? pieces
    | c :: _ => some c

end Unscramble.Script
