import Unscramble.Document.Markup
import Unscramble.Syntax.Tree

/-! The marks that a tree is written from. A node with neither text nor children is a single tag, and
any other one is a pair of tags around its text and its children. -/
namespace Unscramble.Document

mutual

def marks : Tree → List Mark
  | .node element children =>
    match element.text, children with
    | none, [] => [.single element.kind.tag element.attributes]
    | text, children =>
      .opening element.kind.tag element.attributes ::
        (text.toList.map .text ++ (marksAll children ++ [.closing element.kind.tag]))

def marksAll : List Tree → List Mark
  | [] => []
  | t :: ts => marks t ++ marksAll ts

end

/-- The document that holds a tree. -/
def Markup.writeTree (markup : Markup) (t : Tree) : String :=
  markup.write (.declaration :: marks t) ++ "\n"

end Unscramble.Document
