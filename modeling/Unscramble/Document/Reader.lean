import Unscramble.Document.Markup
import Unscramble.Syntax.Tree
import Unscramble.Text.Blank

/-! Reading a tree off the events of a document. Each element becomes one node. Text in front of
the first child is kept exactly; white space between children is layout and is dropped. -/
namespace Unscramble.Document

/-- An element that has been opened, with the children closed so far, last first. -/
structure Open where
  tag : String
  attributes : Attributes
  children : List Tree
  text : String

namespace Open

def start (tag : String) (attributes : Attributes) : Open := ⟨tag, attributes, [], ""⟩

def addText (o : Open) (content : String) : Open := { o with text := o.text ++ content }

def addChild (o : Open) (child : Tree) : Open := { o with children := child :: o.children }

def close (o : Open) : Tree :=
  let text :=
    if o.children.isEmpty || !Text.isBlankText o.text then some o.text else none
  .node ⟨.ofTag o.tag, o.attributes, text⟩ o.children.reverse

end Open

/-- Where a reader is: around the root (`root` is set once that is closed), or inside elements,
the innermost first. -/
inductive Position where
  | outside (root : Option Tree)
  | inside (inner : Open) (outer : List Open)

namespace Position

def addTree (t : Tree) : List Open → Position
  | [] => .outside (some t)
  | o :: outer => .inside (o.addChild t) outer

def opened : Position → List Open
  | .outside _ => []
  | .inside inner outer => inner :: outer

def isAfterRoot : Position → Bool
  | .outside root => root.isSome
  | .inside _ _ => false

def step (p : Position) : Event → Except Error Position
  | .opening tag attributes =>
    if p.isAfterRoot then .error (.document .severalRoots)
    else attributes.map fun attributes => .inside (.start tag attributes) p.opened
  | .single tag attributes =>
    if p.isAfterRoot then .error (.document .severalRoots)
    else attributes.map fun attributes =>
      addTree (.node ⟨.ofTag tag, attributes, none⟩ []) p.opened
  | .closing tag =>
    match p with
    | .inside inner outer => .ok (addTree inner.close outer)
    | .outside _ => .error (.document (.unexpectedClosing tag))
  | .text content =>
    match p with
    | .inside inner outer =>
      if inner.children.isEmpty || !Text.isBlankText content then
        .ok (.inside (inner.addText content) outer)
      else .ok p
    | .outside _ =>
      if Text.isBlankText content then .ok p else .error (.document .textOutsideRoot)
  | .verbatim content =>
    match p with
    | .inside inner outer => .ok (.inside (inner.addText content) outer)
    | .outside _ => .ok p
  | .layout => .ok p
  | .flaw error => .error error

def finish : Position → Except Error Tree
  | .inside _ _ => .error (.document .unclosedElements)
  | .outside none => .error (.document .empty)
  | .outside (some root) => .ok root

end Position

def ofEvents (events : List Event) : Except Error Tree :=
  (events.foldlM Position.step (.outside none)).bind Position.finish

/-- The tree that a document holds. -/
def Markup.readTree (markup : Markup) (document : String) : Except Error Tree :=
  ofEvents (markup.events document)

end Unscramble.Document
