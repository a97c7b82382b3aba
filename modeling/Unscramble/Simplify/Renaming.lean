import Unscramble.Simplify.Memory
import Unscramble.Syntax.Place
import Unscramble.Vocabulary

/-! Very long names of variables and parameters are replaced by short generated ones. The same name
always gets the same replacement. -/
namespace Unscramble.Simplify

/-- The attribute that names a variable or a parameter. -/
def nameKey? (kind : Kind) : Option String :=
  match kind with
  | .variableRef => some "VariablePath"
  | .parameter => some "Name"
  | _ => none

/-- A name in two parts: the dollar sign in front of it, if there is one, and the rest. -/
def splitSigil (name : String) : String × String :=
  match name.toList with
  | '$' :: rest => ("$", String.ofList rest)
  | _ => ("", name)

def nameOf? (element : Element) : Option String := (nameKey? element.kind).bind element.attr?

/-- The names in a tree without their sigils, in pre-order. -/
def namesIn (t : Tree) : List String :=
  t.nodes.filterMap fun n => (nameOf? n.element).map fun name => (splitSigil name).2

def isLong (threshold : Nat) (name : String) : Bool :=
  threshold ≤ name.length && !Vocabulary.isQualified name

def generatedName (n : Nat) : String := "deob_" ++ toString n

/-- The first number from `next` on whose name is not taken. One of the first numbers, as many as
there are taken names and one more, will do. -/
def freeNumber (taken : List String) (next : Nat) : Nat :=
  next + ((List.range taken.length).find? fun i =>
    !taken.contains (generatedName (next + i))).getD taken.length

def replacement? (memory : Memory) (name : String) : Option String :=
  let key := Text.lower name
  (memory.renamed.find? (·.1 == key)).map (·.2)

/-- Chooses a replacement for a name that has none yet. -/
def addReplacement (taken : List String) (memory : Memory) (name : String) : Memory :=
  if (replacement? memory name).isSome then memory
  else
    let n := freeNumber taken memory.next
    { memory with
      renamed := memory.renamed ++ [(Text.lower name, generatedName n)], next := n + 1 }

def renamedElement? (threshold : Nat) (memory : Memory) (element : Element) : Option Element :=
  (nameKey? element.kind).bind fun key =>
    (element.attr? key).bind fun name =>
      let (sigil, bare) := splitSigil name
      if isLong threshold bare then
        some (element.withAttr key (sigil ++ (replacement? memory bare).getD bare))
      else none

def renameLongNames (threshold : Nat) (memory : Memory) (t : Tree) : Option Tree × Memory :=
  let names := namesIn t
  let taken := names.map Text.lower
  let memory := (names.filter (isLong threshold)).foldl (addReplacement taken) memory
  (t.respell? fun _ s => renamedElement? threshold memory s.element, memory)

end Unscramble.Simplify
