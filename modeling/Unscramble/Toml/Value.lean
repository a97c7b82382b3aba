/-! Values of a TOML document, and how its statements build them. A table remembers how it came
about, as that decides who may still add to it. -/
namespace Unscramble.Toml

/-- How a table came about: by a header of its own, as a parent in a longer header, by a dotted
key, or in braces. -/
inductive Origin where
  | header
  | parent
  | dotted
  | braces
  deriving DecidableEq

inductive Value where
  | text (s : String)
  | integer (n : Int)
  | decimal
  | boolean (b : Bool)
  | moment
  | list (items : List Value)
  /-- The tables of a repeated header, the last one first. -/
  | tables (items : List Value)
  | table (origin : Origin) (entries : List (String × Value))

namespace Value

def empty (origin : Origin) : Value := .table origin []

/-- The entries with the value of `key` changed in place, or added at the end. -/
def alter (key : String) (change : Option Value → Option Value) :
    List (String × Value) → Option (List (String × Value))
  | [] => (change none).map fun v => [(key, v)]
  | (k, v) :: rest =>
    if k = key then (change (some v)).map fun v => (key, v) :: rest
    else (alter key change rest).map ((k, v) :: ·)

/-- Changes the table at the end of a path. Tables missing on the way come about as `made`. A
dotted key may not lead through a table that has a header, and nothing leads into braces. -/
def within (made : Origin) (change : Value → Option Value) : List String → Value → Option Value
  | [], v => change v
  | key :: path, .table origin entries =>
    let enter : Option Value → Option Value
      | none => within made change path (empty made)
      | some (.table .braces _) => none
      | some (.table .header inner) =>
        if made = .dotted then none else within made change path (.table .header inner)
      | some (.table origin inner) => within made change path (.table origin inner)
      | some (.tables (last :: others)) =>
        (within made change path last).map fun last => .tables (last :: others)
      | some _ => none
    (alter key enter entries).map (.table origin)
  | _ :: _, _ => none

/-- Adds a value under a key that is new. -/
def add (t : Value) (key : String) (v : Value) : Option Value :=
  match t with
  | .table origin entries =>
    (alter key (fun old => if old.isSome then none else some v) entries).map (.table origin)
  | _ => none

/-- Adds a value under a dotted key; the tables on the way have to be made by dotted keys. -/
def addAt (t : Value) (path : List String) (key : String) (v : Value) : Option Value :=
  let put : Value → Option Value
    | .table .dotted entries => (Value.table .dotted entries).add key v
    | t => if path.isEmpty then t.add key v else none
  t.within .dotted put path

/-- Starts the table of a header. Only a table that is no more than a parent so far can be
started. -/
def start (key : String) : Value → Option Value
  | .table origin entries =>
    let begun : Option Value → Option Value
      | none => some (empty .header)
      | some (.table .parent inner) => some (.table .header inner)
      | some _ => none
    (alter key begun entries).map (.table origin)
  | _ => none

/-- Starts one more table of a repeated header. -/
def startAnother (key : String) : Value → Option Value
  | .table origin entries =>
    let more : Option Value → Option Value
      | none => some (.tables [empty .header])
      | some (.tables items) => some (.tables (empty .header :: items))
      | some _ => none
    (alter key more entries).map (.table origin)
  | _ => none

/-- What a table holds under a key, or a list at a position. -/
def member? (key : String) (position : Nat) : Value → Option Value
  | .table _ entries => (entries.find? (·.1 == key)).map (·.2)
  | .list items => items[position]?
  | .tables items => items.reverse[position]?
  | _ => none

end Value

end Unscramble.Toml
