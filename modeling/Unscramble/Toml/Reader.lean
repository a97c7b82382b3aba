import Unscramble.Toml.Scalar

/-! Reading TOML documents: one table of keys, below it the tables of the headers. -/
namespace Unscramble.Toml

/-- How deep lists and braces may nest, and how many parts a key may have. -/
def maxDepth : Nat := 79

/-- White space, line breaks and comments between the items of a list. -/
def skipLayout (comment : Bool) : List Char → List Char
  | [] => []
  | c :: rest =>
    if comment && isPlain c then skipLayout true rest
    else if isSpace c || c == '\n' then skipLayout false rest
    else if c == '\r' && rest.head? == some '\n' then skipLayout false rest
    else if c == '#' then skipLayout true rest
    else c :: rest

def isBareKey (c : Char) : Bool := c.isAlphanum || c == '_' || c == '-'

def keyPart : Reads String := fun s =>
  match s with
  | '"' :: _ | '\'' :: _ => (shortText s).map fun (chars, rest) => (String.ofList chars, rest)
  | _ =>
    let bare := s.takeWhile isBareKey
    if bare.isEmpty then none else some (String.ofList bare, s.drop bare.length)

def keyPiece (s : List Char) : Option (Piece String) :=
  (keyPart (skipSpace s)).map fun (part, rest) =>
    match skipSpace rest with
    | '.' :: rest => .more [part] rest
    | rest => .last [part] rest

/-- A key: parts with points between them. -/
def key : Reads (List String) := fun s =>
  (gatherAll keyPiece s).filter fun (parts, _) => parts.length ≤ maxDepth

/-- A key and its value. -/
def entry (value : Reads Value) : Reads (List String × Value) := fun s => do
  let (path, s) ← key s
  let s ← character '=' s
  let (v, s) ← value (skipSpace s)
  some ((path, v), s)

/-- An item of a list, up to the comma or the bracket behind it. -/
def itemPiece (value : Reads Value) (s : List Char) : Option (Piece Value) :=
  match skipLayout false s with
  | ']' :: rest => some (.last [] rest)
  | s =>
    (value s).bind fun (v, rest) =>
      match skipLayout false rest with
      | ',' :: rest => some (.more [v] rest)
      | ']' :: rest => some (.last [v] rest)
      | _ => none

/-- An entry in braces, up to the comma or the brace behind it. -/
def bracePiece (value : Reads Value) (s : List Char) : Option (Piece (List String × Value)) :=
  (entry value s).bind fun (e, rest) =>
    match skipSpace rest with
    | ',' :: rest => some (.more [e] rest)
    | '}' :: rest => some (.last [e] rest)
    | _ => none

def addEntry (t : Value) (e : List String × Value) : Option Value :=
  match e.1.getLast? with
  | some key => t.addAt e.1.dropLast key e.2
  | none => none

/-- A value of any kind; `depth` levels of lists and braces may be opened. -/
def value : Nat → Reads Value
  | 0, s => scalar s
  | depth + 1, '[' :: rest =>
    (gatherAll (itemPiece (value depth)) rest).map fun (items, rest) => (.list items, rest)
  | depth + 1, '{' :: rest =>
    match skipSpace rest with
    | '}' :: rest => some (.empty .braces, rest)
    | _ =>
      (gatherAll (bracePiece (value depth)) rest).bind fun (entries, rest) =>
        (entries.foldlM addEntry (.empty .braces)).map fun t => (t, rest)
  | _ + 1, s => scalar s

/-- One statement of a document. -/
inductive Statement where
  | entry (path : List String) (v : Value)
  | header (path : List String)
  | repeatedHeader (path : List String)

/-- The rest of a line after a statement: nothing but a comment. -/
def lineEnd (s : List Char) : Option (List Char) :=
  let s := match skipSpace s with
    | '#' :: rest => rest.dropWhile isPlain
    | s => s
  if s.isEmpty then some [] else lineBreak? s

def header (s : List Char) : Option (Statement × List Char) :=
  match s with
  | '[' :: rest => do
    let (path, s) ← key rest
    let s ← character ']' s
    let s ← character ']' s
    some (.repeatedHeader path, s)
  | _ => do
    let (path, s) ← key s
    let s ← character ']' s
    some (.header path, s)

/-- One line, and the statement on it if there is one. -/
def linePiece (s : List Char) : Option (Piece Statement) :=
  match skipSpace s with
  | [] => some (.last [] [])
  | '#' :: rest => (lineEnd ('#' :: rest)).map (.more [])
  | '[' :: rest => do
    let (statement, rest) ← header rest
    let rest ← lineEnd rest
    some (.more [statement] rest)
  | s =>
    match lineBreak? s with
    | some rest => some (.more [] rest)
    | none => do
      let ((path, v), rest) ← entry (value maxDepth) s
      let rest ← lineEnd rest
      some (.more [.entry path v] rest)

/-- A document half built: the outermost table, and the path of the last header. -/
structure Draft where
  root : Value := .empty .header
  current : List String := []

def Draft.add (d : Draft) : Statement → Option Draft
  | .entry path v =>
    (d.root.within .parent (addEntry · (path, v)) d.current).map fun root => { d with root }
  | .header path =>
    path.getLast?.bind fun key =>
      (d.root.within .parent (Value.start key) path.dropLast).map fun root => ⟨root, path⟩
  | .repeatedHeader path =>
    path.getLast?.bind fun key =>
      (d.root.within .parent (Value.startAnother key) path.dropLast).map fun root => ⟨root, path⟩

/-- The outermost table of a document; a byte order mark in front is skipped. -/
def read? (document : String) : Option Value :=
  let s := match document.toList with
    | '\ufeff' :: rest => rest
    | s => s
  match gatherAll linePiece s with
  | some (statements, _) => (statements.foldlM Draft.add {}).map (·.root)
  | none => none

end Unscramble.Toml
