import Unscramble.Text.Blank
import Unscramble.Text.Number

/-! Values that are known before a script runs: strings, whole numbers of 64 bits, and lists. -/
namespace Unscramble

inductive Value where
  | text (s : String)
  | int (n : Int64)
  | list (items : List Value)

namespace Value

mutual

def decEq : (v w : Value) → Decidable (v = w)
  | .text s, .text t =>
    if h : s = t then .isTrue (by rw [h]) else .isFalse fun eq => h (Value.text.inj eq)
  | .int m, .int n =>
    if h : m = n then .isTrue (by rw [h]) else .isFalse fun eq => h (Value.int.inj eq)
  | .list vs, .list ws =>
    match decEqList vs ws with
    | .isTrue h => .isTrue (by rw [h])
    | .isFalse h => .isFalse fun eq => h (Value.list.inj eq)
  | .text _, .int _ | .text _, .list _ | .int _, .text _ | .int _, .list _
  | .list _, .text _ | .list _, .int _ => .isFalse nofun

def decEqList : (vs ws : List Value) → Decidable (vs = ws)
  | [], [] => .isTrue rfl
  | [], _ :: _ => .isFalse nofun
  | _ :: _, [] => .isFalse nofun
  | v :: vs, w :: ws =>
    match decEq v w, decEqList vs ws with
    | .isTrue h, .isTrue k => .isTrue (by rw [h, k])
    | .isFalse h, _ => .isFalse fun eq => h (List.cons.inj eq).1
    | _, .isFalse k => .isFalse fun eq => k (List.cons.inj eq).2

end

instance : DecidableEq Value := decEq
instance : Inhabited Value := ⟨.list []⟩

def isScalar : Value → Bool
  | .list _ => false
  | _ => true

/-- A value as a condition: empty strings and lists and the number zero are false, and a list of
one item is what the item is. -/
def isTrue : Value → Bool
  | .text s => !s.isEmpty
  | .int n => n != 0
  | .list [] => false
  | .list [item] => item.isTrue
  | .list (_ :: _ :: _) => true

def intText (n : Int64) : String := toString n.toInt

mutual

/-- A value as a string; the items of a list are joined by blanks. -/
def display : Value → String
  | .text s => s
  | .int n => intText n
  | .list items => " ".intercalate (displayAll items)

def displayAll : List Value → List String
  | [] => []
  | v :: vs => v.display :: displayAll vs

end

/-- Reads a decimal or hexadecimal number between white space. After a minus sign the digits may
carry a sign of their own; the least number is its own negative. -/
def readInt? (s : String) : Option Int64 :=
  let magnitude? (digits : List Char) : Option Int64 :=
    match digits with
    | '0' :: 'x' :: digits | '0' :: 'X' :: digits => Text.integerWord? 16 digits
    | digits => Text.integerWord? 10 digits
  match Text.trimChars Text.isBlank s.toList with
  | '-' :: digits => (magnitude? digits).map (-·)
  | digits => magnitude? digits

/-- The number that a value is or spells. -/
def toInt? : Value → Option Int64
  | .int n => some n
  | .text s => readInt? s
  | .list _ => none

end Value
end Unscramble
