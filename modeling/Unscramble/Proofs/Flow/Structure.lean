import Unscramble.Proofs.Flow.Meaning
import Unscramble.Proofs.Rewriting.Branches

/-! Statements that are built from the constructs which control the flow, and their meaning. What
is not such a construct is interpreted by anything that exits from loops only where it says so. -/
namespace Unscramble.Flow

open Simplify Unscramble.Tree

/-- The constructs that statements are built from. -/
def isCompound : Kind → Bool
  | .ifElse | .switchStatement | .whileLoop | .doWhile | .doUntil | .forLoop => true
  | _ => false

/-- A tree that contains none of the constructs. -/
def isFlat (t : Tree) : Bool := t.nodes.all fun u => !isCompound u.kind

mutual

/-- Whether there is an exit of some sort that is not enclosed by a node of some kind. -/
def exitsOutside (encloses : Kind → Bool) (sort : Tree → Bool) : Tree → Bool
  | .node e cs => !encloses e.kind &&
      (isExit e.kind && sort (.node e cs) || exitsOutsideAll encloses sort cs)

def exitsOutsideAll (encloses : Kind → Bool) (sort : Tree → Bool) : List Tree → Bool
  | [] => false
  | t :: ts => exitsOutside encloses sort t || exitsOutsideAll encloses sort ts

end

/-- Whether there is an exit without a label outside of functions and of loops over collections. -/
def hasBareExit : Tree → Bool :=
  exitsOutside (fun kind => kind == .functionDefinition || kind == .forEach) (!hasLabel ·)

/-- Whether there is an exit with a label outside of functions. -/
def hasFarExit : Tree → Bool := exitsOutside (· == .functionDefinition) hasLabel

/-- A block that holds one list of statements. -/
def isBlock : Tree → Bool
  | .node b [.node l _] => b.kind == .statementBlock && l.kind == .statements
  | _ => false

theorem exists_of_isBlock {t : Tree} (h : isBlock t = true) : ∃ b l ts,
    t = .node b [.node l ts] ∧ b.kind = .statementBlock ∧ l.kind = .statements ∧
      t.statements = ts := by
  unfold isBlock at h
  split at h
  next b l ts =>
    simp only [Bool.and_eq_true, beq_iff_eq] at h
    refine ⟨b, l, ts, rfl, h.1, h.2, ?_⟩
    simp [Tree.statements, listOf, childOf?, is_iff.mpr (show (node l ts).kind = .statements from h.2)]
  next => cases h

def isClause : Tree → Bool
  | .node c [test, body] => c.kind == .switchClause && isFlat test && isBlock body
  | _ => false

/-- The bodies of clauses. -/
def bodies (clauses : List Tree) : List Tree := clauses.filterMap (·.child? 1)

/-- Statements built from the constructs with the children that they are documented to have. -/
inductive Statement : Tree → Prop
  | flat {t} : isFlat t = true → Statement t
  | ifElse {e} {pairs : List (Tree × Tree)} {last : Option Tree} : e.kind = .ifElse →
      (∀ p ∈ pairs, isFlat p.1 = true) →
      (∀ body ∈ pairs.map (·.2) ++ last.toList, isBlock body = true) →
      (∀ body ∈ pairs.map (·.2) ++ last.toList, ∀ s ∈ body.statements, Statement s) →
      Statement (.node e (ofArms pairs last))
  | loop {e guard body} : e.kind = .whileLoop ∨ e.kind = .doWhile ∨ e.kind = .doUntil →
      isFlat guard = true → isBlock body = true → (∀ s ∈ body.statements, Statement s) →
      Statement (.node e [guard, body])
  | forLoop {e first test step body} : e.kind = .forLoop → first.kind = .initializer →
      test.kind = .condition → step.kind = .iterator → isFlat first = true → isFlat test = true →
      isFlat step = true → isBlock body = true → (∀ s ∈ body.statements, Statement s) →
      Statement (.node e [first, test, step, body])
  | switch {e subject c clauses} {other : Option Tree} : e.kind = .switchStatement →
      isFlat subject = true → subject.kind ≠ .clauses → subject.kind ≠ .statementBlock → c.kind = .clauses →
      (∀ clause ∈ clauses, isClause clause = true) → (∀ body ∈ other, isBlock body = true) →
      (∀ body ∈ bodies clauses ++ other.toList, ∀ s ∈ body.statements, Statement s) →
      Statement (.node e (subject :: .node c clauses :: other.toList))

/-- A list of such statements. -/
def IsProgram (t : Tree) : Prop := t.kind = .statements ∧ ∀ s ∈ t.children, Statement s

/-! ### Meanings -/

/-- The tests of clauses. -/
def tests (clauses : List Tree) : List (Option Tree) := clauses.map (·.children.head?)

/-- Whether a value passes a test, if that is a literal that the value can be compared with. -/
def hit? (subject : Value) (test : Option Tree) : Option Bool :=
  test.bind fun test =>
    test.unwrapStatement.scalar?.bind fun test => Operator.ieq.compare? subject test

/-- Which tests are passed, for a `switch` without flags over a literal whose tests are all literals
that can be compared with it. -/
def hits? (e : Element) (subject : Tree) (tests : List (Option Tree)) : Option (List Bool) :=
  if Text.sameIgnoringCase ((e.attr? "Flags").getD "None") "none" then
    subject.unwrapStatement.scalar?.bind fun subject => tests.mapM (hit? subject)
  else none

/-- What the statements of a program do that control nothing. An exit only comes from a statement
that contains one which may leave it. -/
structure Interpretation (S : Type*) where
  atom : Tree → Meaning S
  condition : Tree → Test S
  /-- The label of a loop or a `switch`. -/
  label : Element → Option String
  /-- What the label of an exit says. -/
  target : Tree → S → String
  /-- How the bodies of a `switch` are chosen that is not decided by literals, from the subject and
  the tests. -/
  select : Element → Tree → List (Option Tree) → Bool → S → Choice → S → Prop
  bare : ∀ {t σ o σ'}, atom t σ o σ' → o.isBare = true → hasBareExit t = true
  far : ∀ {t σ o σ'}, atom t σ o σ' → o.isLabelled = true → hasFarExit t = true

namespace Interpretation
variable {S : Type*} (I : Interpretation S)

/-- A condition, which has no effect if its value is known. -/
def truth (guard : Tree) : Test S :=
  match staticTruth? guard with
  | some b => constant b
  | none => I.condition guard

/-- A condition that is true if it is missing. -/
def truth? (guard : Option Tree) : Test S := (guard.map I.truth).getD (constant true)

def exit (ending : Option String → Ending) (t : Tree) : Meaning S := fun σ o σ' =>
  o = ending (if hasLabel t then some (I.target t σ) else none) ∧ σ' = σ

end Interpretation

/-- The chosen ones of some meanings, one after the other. -/
def chosen {S : Type*} : List Bool → List (Meaning S) → Meaning S
  | true :: hits, m :: ms => andThen m (chosen hits ms)
  | false :: hits, _ :: ms => chosen hits ms
  | _, _ => skip

namespace Interpretation

mutual

/-- The meaning of a statement. -/
def meaning {S : Type*} (I : Interpretation S) : Tree → Meaning S
  | .node e cs =>
    match e.kind, cs with
    | .breakStatement, cs => I.exit .broken (.node e cs)
    | .continueStatement, cs => I.exit .continued (.node e cs)
    | .ifElse, cs => I.arms cs
    | .whileLoop, [guard, body] =>
      Loop (I.label e) (I.truth guard) skip (I.block body) .testing
    | .doWhile, [guard, body] =>
      Loop (I.label e) (I.truth guard) skip (I.block body) .running
    | .doUntil, [guard, body] =>
      Loop (I.label e) (negate (I.truth guard)) skip (I.block body) .running
    | .forLoop, [.node _ first, .node _ test, .node _ step, body] =>
      andThen (I.statements first)
        (Loop (I.label e) (I.truth? test.head?) (I.statements step) (I.block body) .testing)
    | .switchStatement, subject :: .node _ clauses :: other =>
      match hits? e subject (tests clauses) with
      | some hits => catching (I.label e) <|
          if hits.any id then chosen hits (I.clauses clauses) else (I.blocks other).headD skip
      | none => Select (I.label e) (I.select e subject (tests clauses))
          (I.clauses clauses ++ I.blocks other) false
    | _, _ => I.atom (.node e cs)

/-- One statement after the other. -/
def statements {S : Type*} (I : Interpretation S) : List Tree → Meaning S
  | [] => skip
  | t :: ts => andThen (I.meaning t) (I.statements ts)

def block {S : Type*} (I : Interpretation S) : Tree → Meaning S
  | .node _ [.node _ ts] => I.statements ts
  | _ => skip

def blocks {S : Type*} (I : Interpretation S) : List Tree → List (Meaning S)
  | [] => []
  | t :: ts => I.block t :: I.blocks ts

/-- The guarded blocks of a conditional, and the block that has no guard. -/
def arms {S : Type*} (I : Interpretation S) : List Tree → Meaning S
  | [] => skip
  | [last] => I.block last
  | guard :: body :: rest => choose (I.truth guard) (I.block body) (I.arms rest)

/-- The bodies of clauses. -/
def clauses {S : Type*} (I : Interpretation S) : List Tree → List (Meaning S)
  | [] => []
  | .node _ [_, body] :: rest => I.block body :: I.clauses rest
  | _ :: rest => skip :: I.clauses rest

end

/-- What stands in the head of a loop does not exit from it. -/
def Calm {S : Type*} (I : Interpretation S) (t : Tree) : Prop :=
  ∀ u ∈ t.nodes, u.kind = .initializer ∨ u.kind = .iterator → ∀ s ∈ u.children, Quiet (I.meaning s)

theorem Calm.of_mem {I : Interpretation S} {t u : Tree} (h : I.Calm t) (hu : u ∈ t.nodes) :
    I.Calm u := fun v hv => h v (Tree.mem_nodes_trans t hu hv)

/-! ### Equations -/

variable {S : Type*} {I : Interpretation S} {e : Element} {cs : List Tree}

theorem meaning_ifElse (h : e.kind = .ifElse) : I.meaning (.node e cs) = I.arms cs := by
  obtain ⟨_, _, _⟩ := e
  cases h
  rfl

theorem meaning_while {guard body : Tree} (h : e.kind = .whileLoop) :
    I.meaning (.node e [guard, body]) =
      Loop (I.label e) (I.truth guard) skip (I.block body) .testing := by
  obtain ⟨_, _, _⟩ := e
  cases h
  rfl

theorem meaning_doWhile {guard body : Tree} (h : e.kind = .doWhile) :
    I.meaning (.node e [guard, body]) =
      Loop (I.label e) (I.truth guard) skip (I.block body) .running := by
  obtain ⟨_, _, _⟩ := e
  cases h
  rfl

theorem meaning_doUntil {guard body : Tree} (h : e.kind = .doUntil) :
    I.meaning (.node e [guard, body]) =
      Loop (I.label e) (negate (I.truth guard)) skip (I.block body) .running := by
  obtain ⟨_, _, _⟩ := e
  cases h
  rfl

theorem meaning_for {first test step body : Tree} (h : e.kind = .forLoop) :
    I.meaning (.node e [first, test, step, body]) =
      andThen (I.statements first.children) (Loop (I.label e) (I.truth? test.children.head?)
        (I.statements step.children) (I.block body) .testing) := by
  obtain ⟨_, _⟩ := first
  obtain ⟨_, _⟩ := test
  obtain ⟨_, _⟩ := step
  obtain ⟨_, _, _⟩ := e
  cases h
  rfl

theorem meaning_switch {subject : Tree} {c : Element} {clauses other : List Tree}
    (h : e.kind = .switchStatement) :
    I.meaning (.node e (subject :: .node c clauses :: other)) =
      match hits? e subject (tests clauses) with
      | some hits => catching (I.label e) <|
          if hits.any id then chosen hits (I.clauses clauses) else (I.blocks other).headD skip
      | none => Select (I.label e) (I.select e subject (tests clauses))
          (I.clauses clauses ++ I.blocks other) false := by
  obtain ⟨_, _, _⟩ := e
  cases h
  rfl

theorem meaning_break (h : e.kind = .breakStatement) :
    I.meaning (.node e cs) = I.exit .broken (.node e cs) := by
  obtain ⟨_, _, _⟩ := e
  cases h
  rfl

theorem meaning_continue (h : e.kind = .continueStatement) :
    I.meaning (.node e cs) = I.exit .continued (.node e cs) := by
  obtain ⟨_, _, _⟩ := e
  cases h
  rfl

theorem meaning_atom {t : Tree} (h : isFlat t = true) (hexit : isExit t.kind = false) :
    I.meaning t = I.atom t := by
  obtain ⟨e, cs⟩ := t
  have hkind : isCompound e.kind = false := by simpa using List.all_eq_true.mp h _ (mem_nodes_self _)
  rw [kind_node] at hexit
  rw [meaning.eq_def]
  dsimp only
  split <;> simp_all [isCompound, isExit]

/-! ### Blocks -/

theorem block_eq {b : Tree} (h : isBlock b = true) : I.block b = I.statements b.statements := by
  obtain ⟨b, l, ts, rfl, -, -, hts⟩ := exists_of_isBlock h
  rw [hts, block]

@[simp] theorem statements_append (ss ts : List Tree) :
    I.statements (ss ++ ts) = andThen (I.statements ss) (I.statements ts) := by
  induction ss with
  | nil => simp [statements]
  | cons s ss ih => rw [List.cons_append, statements, ih, statements, andThen_assoc]

theorem arms_nil (last : Option Tree) : I.arms (ofArms [] last) = (last.map I.block).getD skip := by
  cases last <;> simp [ofArms, arms]

theorem arms_cons (guard body : Tree) (pairs : List (Tree × Tree)) (last : Option Tree) :
    I.arms (ofArms ((guard, body) :: pairs) last) =
      choose (I.truth guard) (I.block body) (I.arms (ofArms pairs last)) := by
  simp [ofArms, arms]

theorem blocks_eq (ts : List Tree) : I.blocks ts = ts.map I.block := by
  induction ts with
  | nil => rfl
  | cons t ts ih => rw [blocks, ih, List.map_cons]

theorem clauses_eq {cs : List Tree} (h : ∀ clause ∈ cs, isClause clause = true) :
    I.clauses cs = (bodies cs).map I.block := by
  induction cs with
  | nil => simp [clauses, bodies]
  | cons clause cs ih =>
    obtain ⟨hclause, hcs⟩ := List.forall_mem_cons.mp h
    unfold isClause at hclause
    split at hclause
    next c test body => simp [clauses, ih hcs, bodies, child?]
    next => cases hclause

end Interpretation

theorem mem_nodes_of_statements {t b s : Tree} (hb : b ∈ t.nodes) (hs : s ∈ b.statements) :
    s ∈ t.nodes := by
  obtain ⟨list, hlist, -, -, hs⟩ := mem_statements hs
  exact mem_nodes_trans t hb (mem_nodes_of_child hlist (child_mem_nodes hs))

theorem mem_nodes_of_clause {e c : Element} {subject u : Tree} {clauses other : List Tree}
    (h : u ∈ nodesAll clauses) : u ∈ (node e (subject :: .node c clauses :: other)).nodes :=
  mem_nodes_of_child (c := .node c clauses) (by simp)
    (nodes_eq (.node c clauses) ▸ List.mem_cons_of_mem _ h)

theorem isBlock_of_mem_bodies {cs : List Tree} (h : ∀ clause ∈ cs, isClause clause = true)
    {b : Tree} (hb : b ∈ bodies cs) : isBlock b = true ∧ b ∈ nodesAll cs := by
  obtain ⟨clause, hclause, hb⟩ := List.mem_filterMap.mp hb
  refine ⟨?_, mem_nodesAll.mpr ⟨clause, hclause, child_mem_nodes (List.mem_of_getElem? hb)⟩⟩
  have h := h clause hclause
  unfold isClause at h
  split at h
  next =>
    cases hb
    simp only [Bool.and_eq_true] at h
    exact h.2
  next => cases h

end Unscramble.Flow
