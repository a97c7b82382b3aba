import Unscramble.Syntax.Place
import Unscramble.Syntax.Shape
import Unscramble.Value.Compare
import Unscramble.Value.Literal

/-! Control flow that literal conditions decide. Branches with a constant guard are dropped or
promoted, a `switch` on a literal keeps the clauses that match, loops that never start disappear,
and loops that run at most once become conditionals. -/
namespace Unscramble.Simplify

/-- What becomes of a construct: other statements in its place, or other children. -/
inductive Outcome where
  | splice (statements : List Tree)
  | retain (children : List Tree)

/-- The value of a comparison of two literals. -/
def compareLiterals? (t : Tree) : Option Bool :=
  match t.children with
  | left :: right :: _ =>
    (t.operator?.filter Operator.isComparison).bind fun operator =>
      left.unwrapStatement.scalar?.bind fun left =>
        right.unwrapStatement.scalar?.bind fun right => operator.compare? left right
  | _ => none

/-- The truth of an expression without wrappers, where negations may lead to another one. -/
def truthOfCore? (t : Tree) : Option Bool :=
  t.bool? <|>
    match t.kind with
    | .binaryExpression => compareLiterals? t
    | .unaryExpression => none
    | _ => t.scalar?.map Value.isTrue

def isNegation (t : Tree) : Bool :=
  t.is .unaryExpression && (t.token? == some .not || t.token? == some .exclaim)

/-- The truth of a condition that is built from literals. -/
def staticTruth? : Tree → Option Bool
  | .node element [child] =>
    if Tree.isWrapper element.kind child then staticTruth? child
    else if isNegation (.node element [child]) then (staticTruth? child).map (!·)
    else truthOfCore? (.node element [child])
  | .node element (child :: rest) =>
    if isNegation (.node element (child :: rest)) then (staticTruth? child).map (!·)
    else truthOfCore? (.node element (child :: rest))
  | t => truthOfCore? t

def hasLabel (t : Tree) : Bool := !(t.element.attr "Label").isEmpty || !t.children.isEmpty

def isExit (kind : Kind) : Bool := kind == .breakStatement || kind == .continueStatement

def hasExit (t : Tree) : Bool := t.nodes.any fun n => isExit n.kind

def hasLabelledExit (t : Tree) : Bool := t.nodes.any fun n => isExit n.kind && hasLabel n

mutual

/-- The number of exits from the loop that owns a node, below it; none if there is an exit whose
loop is not known, as it has a label or stands in a script block. -/
def exits? : Tree → Option Nat
  | .node element children =>
    if isExit element.kind then
      if hasLabel (.node element children) then none else some 1
    else if element.kind.isLoop || element.kind == .switchStatement then
      if hasLabelledExit (.node element children) then none else some 0
    else if element.kind == .functionDefinition then some 0
    else if element.kind == .scriptBlockExpression then
      if hasExit (.node element children) then none else some 0
    else exitsAll? children

def exitsAll? : List Tree → Option Nat
  | [] => some 0
  | t :: ts => (exits? t).bind fun n => (exitsAll? ts).map (n + ·)

end

/-- The exits from the loop with a given body. -/
def loopExits? (body : Tree) : Option Nat := exitsAll? body.children

/-- Whether the variable for the current item occurs. -/
def readsCurrentItem (t : Tree) : Bool :=
  t.nodes.any fun n => n.variablePath?.any fun path =>
    path == "_" || Text.sameIgnoringCase path "psitem"

/-- The statements before a final `break` that is the only exit of a loop. -/
def singlePass? (body : Tree) : Option (List Tree) :=
  match body.statements.getLast? with
  | none => none
  | some last =>
    if last.is .breakStatement && !hasLabel last && loopExits? body == some 1 then
      some body.statements.dropLast
    else none

/-- The pairs of a guard and a block, and the block that has no guard. -/
def arms : List Tree → List (Tree × Tree) × Option Tree
  | [] => ([], none)
  | [last] => ([], some last)
  | guard :: body :: rest =>
    let (pairs, last) := arms rest
    ((guard, body) :: pairs, last)

/-- The arms that are left when the decided ones are gone, the last block, and whether there
was anything to decide. -/
def liveArms (last : Option Tree) : List (Tree × Tree) → List (Tree × Tree) × Option Tree × Bool
  | [] => ([], last, false)
  | (guard, body) :: rest =>
    match staticTruth? guard with
    | some true => ([], some body, true)
    | some false =>
      let (kept, last, _) := liveArms last rest
      (kept, last, true)
    | none =>
      let (kept, last, changed) := liveArms last rest
      ((guard, body) :: kept, last, changed)

def decideIf? (t : Tree) : Option Outcome :=
  let (pairs, last) := arms t.children
  let (kept, last, changed) := liveArms last pairs
  if !changed then none
  else if kept.isEmpty then some (.splice ((last.map Tree.statements).getD []))
  else some (.retain (kept.flatMap (fun (guard, body) => [guard, body]) ++ last.toList))

/-- The statements of all clauses that match; none if it is not known whether one does. -/
def matchingClauses? (subject : Value) : List Tree → Option (List (List Tree))
  | [] => some []
  | clause :: rest =>
    clause.children.head?.bind fun test =>
      test.unwrapStatement.scalar?.bind fun test =>
        (Operator.ieq.compare? subject test).bind fun hit =>
          let body? : Option (List (List Tree)) :=
            if hit then (clause.child? 1).map ([·.statements]) else some []
          body?.bind fun body => (matchingClauses? subject rest).map (body ++ ·)

def decideSwitch? (t : Tree) : Option Outcome :=
  if !Text.sameIgnoringCase ((t.attr? "Flags").getD "None") "none" then none
  else
    t.children.head?.bind fun subject =>
      subject.unwrapStatement.scalar?.bind fun subject =>
        (t.childOf? .clauses).bind fun clauses =>
          let otherwise := t.childOf? .statementBlock
          let bodies := clauses.children.filterMap (·.child? 1) ++ otherwise.toList
          if bodies.any fun body => loopExits? body != some 0 || readsCurrentItem body then none
          else
            (matchingClauses? subject clauses.children).map fun hits =>
              .splice (if hits.isEmpty then (otherwise.map Tree.statements).getD []
                else hits.flatten)

def conditional (guard : Tree) (statements : List Tree) : Tree :=
  .branch .ifElse []
    [guard, .branch .statementBlock [] [.branch .statements [] statements]]

/-- A loop that runs at most once, in front of which some statements are run. -/
def once (before : List Tree) (guard : Option Tree) (body : List Tree) : Outcome :=
  .splice (before ++
    match guard with
    | some guard => [conditional guard body]
    | none => body)

def decideWhile? (t : Tree) : Option Outcome :=
  match t.children with
  | guard :: body :: _ =>
    if staticTruth? guard == some false then some (.splice [])
    else (singlePass? body).map (once [] (some guard))
  | _ => none

/-- A loop that tests its condition at the end, and stops once that has the value `stop`. -/
def decideDo? (stop : Bool) (t : Tree) : Option Outcome :=
  match t.children with
  | guard :: body :: _ =>
    if staticTruth? guard == some stop then
      (loopExits? body).bind fun n =>
        if n == 0 then some (.splice body.statements) else (singlePass? body).map .splice
    else (singlePass? body).map .splice
  | _ => none

def decideFor? (t : Tree) : Option Outcome :=
  match t.children with
  | [first, test, _, body] =>
    let guard := test.children.head?
    if guard.any (staticTruth? · == some false) then some (.splice first.children)
    else (singlePass? body).map (once first.children guard)
  | _ => none

def decide? (t : Tree) : Option Outcome :=
  match t.kind with
  | .ifElse => decideIf? t
  | .switchStatement => decideSwitch? t
  | .whileLoop => decideWhile? t
  | .doWhile => decideDo? false t
  | .doUntil => decideDo? true t
  | .forLoop => decideFor? t
  | _ => none

/-- Decides one construct in its place. Statements can only be put into a list of statements. -/
def decideAt? (p : Place) : Option Tree :=
  (decide? p.tree).bind fun
    | .retain children => some (p.update (p.tree.withChildren children))
    | .splice statements => if p.parentIs .statements then p.replace? statements else none

def deadBranches (t : Tree) : Option Tree := t.places.findSome? decideAt?

end Unscramble.Simplify
