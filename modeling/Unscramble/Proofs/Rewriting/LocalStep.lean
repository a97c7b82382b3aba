import Unscramble.Proofs.Rewriting.Nodes
import Unscramble.Proofs.Rewriting.Basic
import Unscramble.Simplify.Rule

/-! What the rules that change the shape of a tree do in one place. Later properties of these rules
are read off the cases below and not off the rules themselves. -/
namespace Unscramble

open Simplify

/-- Pairwise disjoint subtrees of a forest, in order. -/
inductive Drawn : List Tree → List Tree → Prop
  | nil : Drawn [] []
  | skip {t ts new} : Drawn ts new → Drawn (t :: ts) new
  | take {t ts new} : Drawn ts new → Drawn (t :: ts) (t :: new)
  | enter {t ts inner new} : Drawn t.children inner → Drawn ts new → Drawn (t :: ts) (inner ++ new)

namespace Drawn

theorem empty (ts : List Tree) : Drawn ts [] := by
  induction ts with
  | nil => exact .nil
  | cons _ _ ih => exact .skip ih

theorem of_sublist {ts new : List Tree} (h : new.Sublist ts) : Drawn ts new := by
  induction h with
  | slnil => exact .nil
  | cons _ _ ih => exact .skip ih
  | cons_cons _ _ ih => exact .take ih

theorem of_mem {t : Tree} {ts new : List Tree} (ht : t ∈ ts) (h : Drawn t.children new) :
    Drawn ts new := by
  induction ts with
  | nil => simp at ht
  | cons u ts ih =>
    rcases List.mem_cons.mp ht with rfl | ht
    · simpa using Drawn.enter h (empty ts)
    · exact .skip (ih ht)

/-- What all trees of a forest have and hand down to their children, all trees drawn from it have. -/
theorem inherited {P : Tree → Prop} (hP : ∀ t, P t → ∀ c ∈ t.children, P c) {ts new : List Tree}
    (h : Drawn ts new) (hts : ∀ t ∈ ts, P t) : ∀ u ∈ new, P u := by
  induction h with
  | nil => exact hts
  | skip _ ih => exact ih (List.forall_mem_cons.mp hts).2
  | take _ ih =>
    obtain ⟨ht, hts⟩ := List.forall_mem_cons.mp hts
    exact List.forall_mem_cons.mpr ⟨ht, ih hts⟩
  | enter _ _ ih ih' =>
    obtain ⟨ht, hts⟩ := List.forall_mem_cons.mp hts
    exact List.forall_mem_append.mpr ⟨ih (hP _ ht), ih' hts⟩

theorem statements (t : Tree) : Drawn t.children t.statements := by
  unfold Tree.statements Tree.listOf
  cases h : t.childOf? .statements with
  | none => exact empty _
  | some list => exact of_mem (List.mem_of_find?_eq_some h) (of_sublist (List.Sublist.refl _))

end Drawn

/-- Nodes below which lists that a construct may do without are found. -/
def holdsLists : Kind → Bool
  | .paramBlock | .parameter | .command | .commandExpression | .catchClause => true
  | _ => false

/-- A node that cannot be one of those lists because of what it is, or of where it stands
in `s`. -/
inductive Plain (s u : Tree) : Prop
  | kind : isOptionalList u.kind = false → Plain s u
  | child {v} : v ∈ s.nodes → u ∈ v.children → holdsLists v.kind = false → Plain s u
  | header {v} : s.kind = .forLoop → v ∈ s.children.take 3 → u ∈ v.children → Plain s u

/-- Nodes that rules make up. -/
inductive Literal : Rule → Tree → Prop
  | value {r} (v : Value) (quoting : Quoting) : Literal r (v.toTree quoting)
  | truth (b : Bool) : Literal .foldBinary (boolTree b)
  | type (name : String) :
      Literal .foldConversions (.leaf .typeExpression [("TypeName", name)] none)

/-- The kinds of node that a rule replaces by something inside of them. -/
inductive Unwraps : Rule → Kind → Prop
  | paren : Unwraps .unwrapParen .parenExpression
  | pipeline : Unwraps .unwrapPipeline .pipeline
  | array : Unwraps .unwrapSingleArray .arrayLiteral
  | arithmetic : Unwraps .removeUnassignedUse .binaryExpression

/-- The kinds of node that a rule replaces by a literal. -/
inductive Folds : Rule → Kind → Prop
  | arithmetic : Folds .removeUnassignedUse .binaryExpression
  | binary : Folds .foldBinary .binaryExpression
  | invocation : Folds .foldInvokeMember .invokeMember
  | property : Folds .foldInvokeMember .memberExpression
  | conversion : Folds .foldConversions .convert
  | index : Folds .foldIndex .indexExpression

/-- What a rule puts in the place of a child `s` of `above`. -/
inductive Exchange : Rule → Tree → Tree → List Tree → Prop
  | emptyList {above s} : isEmptyOptional s → Exchange .removeEmptyContainers above s []
  | assignment {above s} : above.kind = .statements → s.kind = .assignment →
      Exchange .removeUnusedVariable above s []
  | inner {r above s u} : Unwraps r s.kind → u ∈ Tree.nodesAll s.children → Plain s u →
      Exchange r above s [u]
  | literal {r above s u} : Folds r s.kind → Literal r u → Exchange r above s [u]
  | decided {above s new} : above.kind = .statements → Drawn s.children new →
      (∀ u ∈ new, Plain s u) → Exchange .deadBranches above s new
  | once {above s before guard body list statements last} : above.kind = .statements →
      s.kind = .whileLoop ∨ s.kind = .forLoop → Drawn s.children (before ++ [guard, body]) →
      (∀ u ∈ guard :: before, Plain s u) → list ∈ body.children → list.kind = .statements →
      list.children = statements ++ [last] → last.kind = .breakStatement →
      Exchange .deadBranches above s (before ++ [conditional guard statements])
  | call {above s call} : above.kind = .statements → call ∈ s.nodes → call.kind = .invokeMember →
      Exchange .reverseConstArray above s []

/-- The element of a unary join, made that of a binary one. -/
def joinedElement (e : Element) : Element :=
  { e with
    kind := .binaryExpression
    attributes := ((e.attributes.erase "TokenKind").set "Operator"
      Operator.join.token).set "StaticType" "System.Object" }

/-- What a rule makes of a node that stays in its place. -/
inductive Update : Rule → Tree → Tree → Prop
  | arms {e cs cs'} : e.kind = .ifElse → cs'.Sublist cs → 2 ≤ cs'.length → cs'.length < cs.length →
      Update .deadBranches (.node e cs) (.node e cs')
  | join {e t} : e.kind = .unaryExpression →
      Update .unaryJoin (.node e [t]) (.node (joinedElement e) [t, stringTree .singleQuoted ""])
  | reversed {e cs} : e.kind = .elements →
      Update .reverseConstArray (.node e cs) (.branch .elements [] cs.reverse)
  | value {t quoting} {v : Value} : t.kind = .variableRef → Update .propagateConstants t (v.toTree quoting)

/-- What a rule does in one place. -/
inductive LocalStep (r : Rule) : Tree → Tree → Prop
  | exchange {t t'} : Splice (Exchange r) t t' → LocalStep r t t'
  | update {t t'} : Update r t t' → LocalStep r t t'

theorem Changes.exchange {r : Rule} {R : Tree → Tree → List Tree → Prop} {t t' : Tree}
    (h : Changes (Splice R) t t') (hR : ∀ above s new, R above s new → Exchange r above s new) :
    Changes (LocalStep r) t t' :=
  h.mono fun _ _ ⟨h⟩ => .exchange (.mk (hR _ _ _ h))

theorem Within.exchange {r : Rule} {R : Tree → Tree → List Tree → Prop} {t t' : Tree}
    (h : Within (Splice R) t t') (hR : ∀ above s new, R above s new → Exchange r above s new) :
    Changes (LocalStep r) t t' :=
  Changes.exchange (.single h) hR

end Unscramble
