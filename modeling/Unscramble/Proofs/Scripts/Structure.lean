import Unscramble.Proofs.Rewriting.Nodes
import Unscramble.Proofs.Text.Numerals
import Unscramble.Proofs.Scripts.Meaning

/-! Structured scripts: assignments, commands, conditionals, loops and exits without labels, over
literals, variables and binary operators. -/
namespace Unscramble.Scripts

open Unscramble.Tree

/-- A string, or a whole number that is read back from its literal. -/
def IsScalar (t : Tree) : Prop :=
  t.children = [] ∧ ∃ v, t.scalar? = some v ∧ v ≠ .int Int64.minValue

/-- A variable that has a name. -/
def IsVariable (t : Tree) : Prop := t.children = [] ∧ ∃ key, t.variableKey? = some key

/-- What stands after an expression or a command: nothing, or a list without redirections. -/
def IsFooter (ts : List Tree) : Prop := ∀ t ∈ ts, t.kind = .redirections ∧ t.children = []

inductive Expression : Tree → Prop
  | scalar {t} : IsScalar t → Expression t
  | array {e l items} : e.kind = .arrayLiteral → l.kind = .elements → (∀ t ∈ items, IsScalar t) →
      Expression (.node e [.node l items])
  | var {t} : IsVariable t → Expression t
  | binary {e left right} : e.kind = .binaryExpression → Expression left → Expression right →
      Expression (.node e [left, right])
  | group {e t} : isGrouping e.kind = true → Expression t → Expression (.node e [t])
  | statement {e t footer} : e.kind = .commandExpression → Expression t → IsFooter footer →
      Expression (.node e (t :: footer))

/-- Statements that control nothing. -/
inductive Simple : Tree → Prop
  | assignment {e target value} : e.isPlainAssignment = true → IsVariable target →
      Expression value → Simple (.node e [target, value])
  | command {e l name arguments footer} : e.kind = .command → l.kind = .commandElements →
      name.kind = .stringConstant → name.children = [] → (∀ t ∈ arguments, Expression t) →
      IsFooter footer → Simple (.node e (.node l (name :: arguments) :: footer))
  | pipeline {e t} : e.kind = .pipeline ∨ e.kind = .pipelineElements → Simple t →
      Simple (.node e [t])

/-- At most one part of the head of a loop, of some form. -/
def Header (kind : Kind) (P : Tree → Prop) (t : Tree) : Prop :=
  t.kind = kind ∧ t.children.length ≤ 1 ∧ ∀ s ∈ t.children, P s

mutual

inductive Statement : Tree → Prop
  | simple {t} : Simple t → Statement t
  | ifElse {e cs} : e.kind = .ifElse → Arms cs → Statement (.node e cs)
  | loop {e guard body} : e.kind = .whileLoop ∨ e.kind = .doWhile ∨ e.kind = .doUntil →
      Expression guard → Block .statementBlock body → Statement (.node e [guard, body])
  | forLoop {e first test step body} : e.kind = .forLoop → Header .initializer Simple first →
      Header .condition Expression test → Header .iterator Simple step →
      Block .statementBlock body → Statement (.node e [first, test, step, body])
  | exit {e} : e.kind = .breakStatement ∨ e.kind = .continueStatement → e.attr? "Label" = none →
      Statement (.node e [])

/-- A block that holds one list of statements. -/
inductive Block : Kind → Tree → Prop
  | mk {kind b l ts} : b.kind = kind → l.kind = .statements → (∀ t ∈ ts, Statement t) →
      Block kind (.node b [.node l ts])

/-- The arms of a conditional: blocks with guards, and at most one without. -/
inductive Arms : List Tree → Prop
  | nil : Arms []
  | last {body} : Block .statementBlock body → Arms [body]
  | cons {guard body rest} : Expression guard → Block .statementBlock body → Arms rest →
      Arms (guard :: body :: rest)

end

theorem Block.kind {kind : Kind} {b : Tree} (h : Block kind b) : b.kind = kind := by
  cases h
  assumption

/-- A script that consists of one block. -/
inductive Script : Tree → Prop
  | mk {e body} : e.kind = .scriptBlock → Block .namedBlock body → Script (.node e [body])

/-! ### What expressions and commands are made of -/

/-- Kinds of nodes in expressions and commands. -/
def isInert : Kind → Bool
  | .stringConstant | .constant | .arrayLiteral | .elements | .variableRef | .binaryExpression
  | .parenExpression | .pipeline | .pipelineElements | .commandExpression | .redirections
  | .command | .commandElements => true
  | _ => false

/-- A tree that neither writes nor controls anything. -/
def Inert (t : Tree) : Prop := ∀ u ∈ t.nodes, isInert u.kind = true

theorem IsScalar.kind {t : Tree} (h : IsScalar t) : t.kind = .stringConstant ∨ t.kind = .constant := by
  obtain ⟨-, v, hscalar, -⟩ := h
  unfold scalar? at hscalar
  split at hscalar
  next hkind => exact .inl hkind
  next hkind => exact .inr hkind
  next => cases hscalar

theorem IsVariable.kind {t : Tree} (h : IsVariable t) : t.kind = .variableRef :=
  kind_of_variableKey? h.2.choose_spec

namespace Inert

theorem node {e : Element} {cs : List Tree} (he : isInert e.kind = true) (hcs : ∀ c ∈ cs, Inert c) :
    Inert (.node e cs) := by
  intro u hu
  rcases mem_nodes_iff.mp hu with rfl | ⟨c, hc, hu⟩
  · exact he
  · exact hcs c hc u hu

theorem leaf {t : Tree} (ht : isInert t.kind = true) (hcs : t.children = []) : Inert t := by
  obtain ⟨e, cs⟩ := t
  exact node ht fun c hc => by simp_all

theorem scalar {t : Tree} (h : IsScalar t) : Inert t :=
  leaf (by rcases h.kind with h | h <;> rw [h] <;> rfl) h.1

theorem kind {t : Tree} (h : Inert t) : isInert t.kind = true := h t (mem_nodes_self t)

theorem not_assignment {t : Tree} (h : Inert t) : t.isPlainAssignment ≠ true := fun ht => by
  have hkind : t.kind = .assignment := kind_of_isPlainAssignment ht
  simpa [hkind, isInert] using h.kind

theorem not_statements {t : Tree} (h : Inert t) : ∀ u ∈ t.nodes, u.kind ≠ .statements :=
  fun u hu hkind => by simpa [hkind, isInert] using h u hu

theorem ownWrites {t : Tree} (h : Inert t) : t.ownWrites = [] := by
  have hkind := h.kind
  unfold Tree.ownWrites
  split <;> simp_all [isInert]

theorem writes {t : Tree} (h : Inert t) : t.writes = [] :=
  List.flatMap_eq_nil_iff.mpr fun _ hu =>
    ownWrites fun v hv => h v (mem_nodes_trans t hu hv)

end Inert

theorem IsFooter.inert {ts : List Tree} (h : IsFooter ts) : ∀ t ∈ ts, Inert t := fun t ht =>
  .leaf (by rw [(h t ht).1]; rfl) (h t ht).2

theorem Expression.inert {t : Tree} (h : Expression t) : Inert t := by
  induction h with
  | scalar h => exact .scalar h
  | array he hl hitems =>
    exact .node (by rw [he]; rfl) (by simpa using .node (by rw [hl]; rfl) fun t ht => .scalar (hitems t ht))
  | var h => exact .leaf (by rw [h.kind]; rfl) h.1
  | binary he _ _ hleft hright => exact .node (by rw [he]; rfl) (by simp [hleft, hright])
  | @group e t he _ ht =>
    refine .node ?_ (by simpa using ht)
    rcases isGrouping_iff.mp he with he | he | he <;> rw [he] <;> rfl
  | statement he _ hfooter ht =>
    exact .node (by rw [he]; rfl) (List.forall_mem_cons.mpr ⟨ht, hfooter.inert⟩)

theorem inert_command {e l : Element} {name : Tree} {arguments footer : List Tree}
    (he : e.kind = .command) (hl : l.kind = .commandElements) (hname : name.kind = .stringConstant)
    (hchildren : name.children = []) (harguments : ∀ t ∈ arguments, Expression t)
    (hfooter : IsFooter footer) : Inert (.node e (.node l (name :: arguments) :: footer)) := by
  have hinert : ∀ t ∈ name :: arguments, Inert t := List.forall_mem_cons.mpr
    ⟨.leaf (by rw [hname]; rfl) hchildren, fun t ht => (harguments t ht).inert⟩
  exact .node (by rw [he]; rfl)
    (List.forall_mem_cons.mpr ⟨.node (by rw [hl]; rfl) hinert, hfooter.inert⟩)

/-! ### Writes -/

theorem writes_node (e : Element) (cs : List Tree) :
    (Tree.node e cs).writes = (Tree.node e cs).ownWrites ++ cs.flatMap writes := by
  rw [writes, nodes_eq, List.flatMap_cons, children_node, nodesAll_eq_flatMap, List.flatMap_assoc]
  rfl

theorem targets_of_variableKey? {t : Tree} {key : String} (h : t.variableKey? = some key) :
    t.targets = [key] := by
  obtain ⟨e, cs⟩ := t
  have hkind : e.kind = .variableRef := kind_of_variableKey? h
  rw [Tree.targets.eq_def]
  simp only [hkind, h, Option.toList_some]

theorem mem_writes {t u : Tree} {k : String} (hu : u ∈ t.nodes) (hk : k ∈ u.ownWrites) : k ∈ t.writes :=
  List.mem_flatMap.mpr ⟨u, hu, hk⟩

end Unscramble.Scripts
