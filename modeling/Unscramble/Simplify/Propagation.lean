import Unscramble.Scope
import Unscramble.Syntax.Variables
import Unscramble.Value.Literal

/-! Constant propagation. One walk in the order of the program keeps track of the variables whose
value is a literal, and puts that literal where such a variable is read. The walk is careful:

* whatever is written by anything but a plain assignment of a literal loses its value;
* what a loop writes is not replaced inside the loop, and has no value after it;
* what an arm of a conditional writes has no value after the arm;
* bodies of functions and script blocks run at an unknown time, so what they write never has
  a value, and what they read is only replaced if it is written once in the whole script. -/
namespace Unscramble.Simplify

/-- What holds for a part of the script: names that never get a value, all writes of the script,
the names that the enclosing loops write, and whether the part runs at an unknown time. -/
structure Surroundings where
  frozen : List String
  written : List String
  looped : List String := []
  deferred : Bool := false

/-- The way in which a node is walked through. -/
inductive Flow where
  | assignment | increment | loopOver | loopFrom | loop | arms | deferred | frame | read | plain

def flowOf (e : Element) : Flow :=
  match e.kind with
  | .assignment => .assignment
  | .unaryExpression => if e.isIncrement then .increment else .plain
  | .forEach => .loopOver
  | .forLoop => .loopFrom
  | .whileLoop | .doWhile | .doUntil => .loop
  | .ifElse | .switchStatement | .tryCatch => .arms
  | .functionDefinition | .scriptBlockExpression => .deferred
  | .scriptBlock | .statementBlock => .frame
  | .variableRef => .read
  | _ => .plain

/-- What a node says to its children about where they stand: its element, the element above it,
and the number of its children. -/
structure Holder where
  element : Element
  above : Option Element
  arity : Nat

/-- Where a node stands: what holds it, and which child of that it is. -/
structure Site where
  holder : Holder
  position : Nat

def Site.holds (site : Option Site) (e : Element) (children : List Tree) : Holder :=
  ⟨e, site.map (·.holder.element), children.length⟩

namespace Site

def parentKind (site : Site) : Kind := site.holder.element.kind

def isLast (site : Site) : Bool := site.position + 1 == site.holder.arity

/-- Whether a list in this place may be changed by a method that gets it. -/
def mayMutate (site : Site) : Bool :=
  site.parentKind == .arguments || (site.parentKind == .invokeMember && !site.isLast)

/-- A member name that needs no quotes. -/
def memberQuoting? : Value → Option Quoting
  | .text name =>
    if !name.isEmpty && Quoting.bareWord.escape name.toList == name.toList then some .bareWord
    else none
  | _ => none

/-- How to quote a literal in this place; none if there can be no literal. -/
def quoting? (site : Site) (v : Value) : Option Quoting :=
  match site.parentKind with
  | .unaryExpression => if site.holder.element.isIncrement then none else some .doubleQuoted
  | .binaryExpression | .arguments | .indexExpression | .elements | .convert
  | .commandExpression => some .doubleQuoted
  | .invokeMember | .memberExpression =>
    if site.isLast then memberQuoting? v else some .doubleQuoted
  | .commandElements =>
    if site.position == 0 then
      site.holder.above.bind fun command =>
        match command.attr "InvocationOperator" with
        | "Ampersand" | "Dot" => some .doubleQuoted
        | _ => none
    else some .doubleQuoted
  | _ => none

end Site

/-- The values known at a point of the walk, and whether anything was replaced so far. -/
structure Known where
  scope : Scope := {}
  changed : Bool := false

namespace Known

def enter (known : Known) : Known := { known with scope := known.scope.enter }

def leave (known : Known) : Known := { known with scope := known.scope.leave }

def forget (known : Known) (names : List String) : Known :=
  { known with scope := names.foldl Scope.delete known.scope }

def track (known : Known) (name : String) (v : Value) : Known :=
  { known with scope := known.scope.set name v }

end Known

namespace Surroundings

def ofTree (t : Tree) : Surroundings where
  frozen := t.parameterNames ++ t.nodes.flatMap fun n =>
    match n.kind with
    | .functionDefinition | .scriptBlockExpression => n.writes
    | .forEach => (n.children.head?.bind Tree.variableKey?).toList
    | _ => []
  written := t.writes

/-- Variables that are out of reach everywhere in this part. -/
def excludes (around : Surroundings) (name : String) : Bool :=
  Vocabulary.isAmbient name || around.frozen.contains name || around.looped.contains name

def mayTrack (around : Surroundings) (name : String) : Bool :=
  !around.deferred && !around.excludes name

def mayReplace (around : Surroundings) (name : String) : Bool :=
  !around.excludes name && (!around.deferred || around.written.count name == 1)

def inLoop (around : Surroundings) (names : List String) : Surroundings :=
  { around with looped := names ++ around.looped }

def later (around : Surroundings) : Surroundings := { around with deferred := true }

end Surroundings

/-- What an assignment does to the known values, once its right side has been walked through. -/
def assign (around : Surroundings) (assignment target value : Tree) (known : Known) : Known :=
  match target.variableKey?, assignment.isPlainAssignment && !target.isSplatted with
  | some name, true =>
    match value.unwrapStatement.literal?, around.mayTrack name with
    | some v, true => known.track name v
    | _, _ => known.forget [name]
  | _, _ => known.forget target.targets

/-- A read of a variable: the literal to put there, or the variable as it is. -/
def readVariable (around : Surroundings) (site : Option Site) (t : Tree) (known : Known) :
    Known × Tree :=
  match t.variableKey?, site with
  | some name, some site =>
    if t.isSplatted || !around.mayReplace name then (known, t)
    else
      match known.scope.get? name with
      | none => (known, t)
      | some v =>
        if !v.isScalar && site.mayMutate then (known.forget [name], t)
        else
          match site.quoting? v with
          | some quoting => ({ known with changed := true }, v.toTree quoting)
          | none => (known, t)
  | _, _ => (known, t)

mutual

/-- Walks through a node: the values known afterwards, and the node with literals in it. -/
def walk (around : Surroundings) (site : Option Site) (known : Known) : Tree → Known × Tree
  | .node e children =>
    let holder := Site.holds site e children
    match flowOf e with
    | .assignment =>
      match children with
      | target :: value :: rest =>
        let (known, value') := walk around (some ⟨holder, 1⟩) known value
        (assign around (.node e children) target value known, .node e (target :: value' :: rest))
      | _ => (known, .node e children)
    | .increment => (known.forget (Tree.targetsFirst children), .node e children)
    | .loopOver =>
      let names := (Tree.node e children).writes
      match children with
      | item :: body :: more =>
        let (known, more') := walkFirst around holder 2 known more
        let (known, body') :=
          walk (around.inLoop names) (some ⟨holder, 1⟩) (known.forget names) body
        (known.forget names, .node e (item :: body' :: more'))
      | _ => (known.forget names, .node e children)
    | .loopFrom =>
      let names := (Tree.node e children).writes
      match children with
      | [] => (known.forget names, .node e children)
      | first :: rest =>
        let (known, first') := walk around (some ⟨holder, 0⟩) known first
        let (known, rest') := walkAll (around.inLoop names) holder 1 (known.forget names) rest
        (known.forget names, .node e (first' :: rest'))
    | .loop =>
      let names := (Tree.node e children).writes
      let (known, children') := walkAll (around.inLoop names) holder 0 (known.forget names) children
      (known.forget names, .node e children')
    | .arms =>
      let (known, children') := walkArms around holder 0 known children
      (known, .node e children')
    | .deferred =>
      let (known, children') := walkAll around.later holder 0 known children
      (known, .node e children')
    | .frame =>
      let (known, children') := walkAll around holder 0 known.enter children
      (known.leave, .node e children')
    | .read => readVariable around site (.node e children) known
    | .plain =>
      let (known, children') := walkAll around holder 0 known children
      (known, .node e children')
termination_by structural t => t

/-- Walks through the children of a node from a position on. -/
def walkAll (around : Surroundings) (holder : Holder) (i : Nat) (known : Known) :
    List Tree → Known × List Tree
  | [] => (known, [])
  | t :: ts =>
    let (known, t') := walk around (some ⟨holder, i⟩) known t
    let (known, ts') := walkAll around holder (i + 1) known ts
    (known, t' :: ts')
termination_by structural ts => ts

/-- Walks through the first of the trees only. -/
def walkFirst (around : Surroundings) (holder : Holder) (i : Nat) (known : Known) :
    List Tree → Known × List Tree
  | [] => (known, [])
  | t :: ts =>
    let (known, t') := walk around (some ⟨holder, i⟩) known t
    (known, t' :: ts)
termination_by structural ts => ts

/-- Walks through the parts of a conditional or of one of its clauses. What a block among them
writes has no value after the block. -/
def walkParts (around : Surroundings) (holder : Holder) (i : Nat) (known : Known) :
    List Tree → Known × List Tree
  | [] => (known, [])
  | t :: ts =>
    let (known, t') := walk around (some ⟨holder, i⟩) known t
    let known := if t.is .statementBlock then known.forget t.writes else known
    let (known, ts') := walkParts around holder (i + 1) known ts
    (known, t' :: ts')
termination_by structural ts => ts

/-- Walks through a list of clauses. -/
def walkClauses (around : Surroundings) (holder : Holder) (i : Nat) (known : Known) :
    List Tree → Known × List Tree
  | [] => (known, [])
  | .node e parts :: ts =>
    let (known, parts') :=
      walkParts around ⟨e, some holder.element, parts.length⟩ 0 known parts
    let (known, ts') := walkClauses around holder (i + 1) known ts
    (known, .node e parts' :: ts')
termination_by structural ts => ts

/-- Walks through the children of a conditional, which are parts or lists of clauses. -/
def walkArms (around : Surroundings) (holder : Holder) (i : Nat) (known : Known) :
    List Tree → Known × List Tree
  | [] => (known, [])
  | .node e children :: ts =>
    let (known, t') : Known × Tree :=
      if e.kind == .clauses || e.kind == .catchClauses then
        let (known, children') :=
          walkClauses around ⟨e, some holder.element, children.length⟩ 0 known children
        (known, .node e children')
      else
        let (known, t') := walk around (some ⟨holder, i⟩) known (.node e children)
        (if e.kind == .statementBlock then known.forget (Tree.writes (.node e children)) else known,
          t')
    let (known, ts') := walkArms around holder (i + 1) known ts
    (known, t' :: ts')
termination_by structural ts => ts

end

def propagateConstants (t : Tree) : Option Tree :=
  if t.hasDynamicVariables then none
  else
    let (known, t') := walk (.ofTree t) none {} t
    if known.changed then some t' else none

end Unscramble.Simplify
