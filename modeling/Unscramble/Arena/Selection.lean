import Unscramble.Arena.Plan
import Unscramble.Simplify.DeadBranch
import Unscramble.Simplify.DeadVariable
import Unscramble.Simplify.Grouping
import Unscramble.Simplify.Inline
import Unscramble.Simplify.ReversedArray

/-! Which nodes the rules keep. What a node looks like decides whether a rule has a match; here are the nodes
that it then moves to another place, among all those that may look the same. -/
namespace Unscramble

open Simplify

/-- What becomes of a construct: statements in its place, some of which may be new, or fewer children. -/
inductive Verdict where
  | splice (statements : List Sketch)
  | retain (children : List IdTree)

namespace IdTree

/-! ### Parts of a node -/

section
variable (element : Nat → Element)

def kind (t : IdTree) : Kind := (element t.root).kind

def is (t : IdTree) (kind : Kind) : Bool := t.kind element == kind

def onlyChild? (t : IdTree) : Option IdTree :=
  match t.children with
  | [only] => some only
  | _ => none

/-- The first child of a kind. -/
def childOf? (t : IdTree) (kind : Kind) : Option IdTree := t.children.find? (·.is element kind)

/-- The statements that a block holds. -/
def statements (t : IdTree) : List IdTree := ((t.childOf? element .statements).map children).getD []

/-- Follows wrappers of a single child down to the expression they carry. -/
def unwrapStatement : IdTree → IdTree
  | .node id [child] =>
    if Tree.isWrapper (element id).kind (child.toTree element) then child.unwrapStatement else .node id [child]
  | t => t

/-! ### Grouping nodes and arithmetic -/

/-- The node below a chain of pipeline parts with one child each. -/
def pipelineCore? : IdTree → Option IdTree
  | .node id [child] => if isPipelinePart (element id).kind then pipelineCore? child else some (.node id [child])
  | t => if isPipelinePart (t.kind element) then none else some t

def inParen? (t : IdTree) : Option IdTree :=
  if t.is element .parenExpression then
    (t.onlyChild?.bind (pipelineCore? element)).filter fun inner => isSelfDelimited (inner.kind element)
  else none

def inPipeline? (t : IdTree) : Option IdTree :=
  if t.is element .pipeline then
    t.onlyChild?.bind fun inner => if inner.is element .pipelineElements then inner.onlyChild? else some inner
  else none

/-- The item of a list of one that is only written to the output. -/
def onlyItem? (s : Seat) : Option IdTree :=
  if s.node.is element .arrayLiteral && isOutput (s.place element) then
    ((s.node.childOf? element .elements).bind onlyChild?).filter fun item => !(item.kind element).needsGrouping
  else none

/-- What arithmetic with a variable that holds nothing comes to. -/
def withoutUnassigned? (known : List String) (t : IdTree) : Option Sketch :=
  if t.is element .binaryExpression then
    match t.children with
    | left :: right :: _ =>
      let unassigned (t : IdTree) := isUnassigned known (t.toTree element)
      let integer? (t : IdTree) := Simplify.integer? (t.toTree element)
      match (element t.root).operator?, unassigned left, unassigned right with
      | some .plus, true, _ => some (.kept right)
      | some .plus, false, true => some (.kept left)
      | some .minus, _, true => some (.kept left)
      | some .minus, true, false =>
        ((integer? right).bind fun n => Text.word? (-n.toInt)).map fun n => .ofTree (intTree n)
      | some .multiply, true, false => (integer? right).map fun _ => .ofTree (intTree 0)
      | some .multiply, false, true => (integer? left).map fun _ => .ofTree (intTree 0)
      | _, _, _ => none
    | _ => none
  else none

/-! ### Control flow -/

def truth? (t : IdTree) : Option Bool := staticTruth? (t.toTree element)

/-- The statements before a final `break` that is the only exit of a loop. -/
def singlePass? (body : IdTree) : Option (List IdTree) :=
  (Simplify.singlePass? (body.toTree element)).map fun _ => (body.statements element).dropLast

/-- The pairs of a guard and a block, and the block that has no guard. -/
def arms : List IdTree → List (IdTree × IdTree) × Option IdTree
  | [] => ([], none)
  | [last] => ([], some last)
  | guard :: body :: rest =>
    let (pairs, last) := arms rest
    ((guard, body) :: pairs, last)

/-- The arms that are left when the decided ones are gone, the last block, and whether there
was anything to decide. -/
def liveArms (last : Option IdTree) : List (IdTree × IdTree) → List (IdTree × IdTree) × Option IdTree × Bool
  | [] => ([], last, false)
  | (guard, body) :: rest =>
    match guard.truth? element with
    | some true => ([], some body, true)
    | some false =>
      let (kept, last, _) := liveArms last rest
      (kept, last, true)
    | none =>
      let (kept, last, changed) := liveArms last rest
      ((guard, body) :: kept, last, changed)

def splice (statements : List IdTree) : Verdict := .splice (statements.map .kept)

def decideIf? (t : IdTree) : Option Verdict :=
  let (pairs, last) := arms t.children
  let (kept, last, changed) := liveArms element last pairs
  if !changed then none
  else if kept.isEmpty then some (splice ((last.map (statements element)).getD []))
  else some (.retain (kept.flatMap (fun (guard, body) => [guard, body]) ++ last.toList))

/-- The statements of all clauses that match; none if it is not known whether one does. -/
def matchingClauses? (subject : Value) : List IdTree → Option (List (List IdTree))
  | [] => some []
  | clause :: rest =>
    clause.children.head?.bind fun test =>
      (test.toTree element).unwrapStatement.scalar?.bind fun test =>
        (Operator.ieq.compare? subject test).bind fun hit =>
          let body? : Option (List (List IdTree)) :=
            if hit then clause.children[1]?.map ([·.statements element]) else some []
          body?.bind fun body => (matchingClauses? subject rest).map (body ++ ·)

def decideSwitch? (t : IdTree) : Option Verdict :=
  (Simplify.decideSwitch? (t.toTree element)).bind fun _ =>
    t.children.head?.bind fun subject =>
      (subject.toTree element).unwrapStatement.scalar?.bind fun subject =>
        (t.childOf? element .clauses).bind fun clauses =>
          (matchingClauses? element subject clauses.children).map fun hits =>
            splice (if hits.isEmpty then
                ((t.childOf? element .statementBlock).map (statements element)).getD []
              else hits.flatten)

/-- A conditional that is new around a guard and statements. -/
def conditional (guard : IdTree) (statements : List IdTree) : Sketch :=
  .made { kind := .ifElse } [.kept guard,
    .made { kind := .statementBlock } [.made { kind := .statements } (statements.map .kept)]]

/-- A loop that runs at most once, in front of which some statements are run. -/
def once (before : List IdTree) (guard : Option IdTree) (body : List IdTree) : Verdict :=
  .splice (before.map .kept ++
    match guard with
    | some guard => [conditional guard body]
    | none => body.map .kept)

def decideWhile? (t : IdTree) : Option Verdict :=
  match t.children with
  | guard :: body :: _ =>
    if guard.truth? element == some false then some (splice [])
    else (body.singlePass? element).map (once [] (some guard))
  | _ => none

/-- A loop that tests its condition at the end, and stops once that has the value `stop`. -/
def decideDo? (stop : Bool) (t : IdTree) : Option Verdict :=
  match t.children with
  | guard :: body :: _ =>
    if guard.truth? element == some stop then
      (loopExits? (body.toTree element)).bind fun n =>
        if n == 0 then some (splice (body.statements element)) else (body.singlePass? element).map splice
    else (body.singlePass? element).map splice
  | _ => none

def decideFor? (t : IdTree) : Option Verdict :=
  match t.children with
  | [first, test, _, body] =>
    let guard := test.children.head?
    if guard.any (·.truth? element == some false) then some (splice first.children)
    else (body.singlePass? element).map (once first.children guard)
  | _ => none

def decide? (t : IdTree) : Option Verdict :=
  match t.kind element with
  | .ifElse => t.decideIf? element
  | .switchStatement => t.decideSwitch? element
  | .whileLoop => t.decideWhile? element
  | .doWhile => t.decideDo? element false
  | .doUntil => t.decideDo? element true
  | .forLoop => t.decideFor? element
  | _ => none

end
end IdTree
end Unscramble
