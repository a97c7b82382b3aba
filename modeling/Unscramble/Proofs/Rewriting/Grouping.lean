import Unscramble.Proofs.ChangeFlag
import Unscramble.Proofs.Literals.Folding
import Unscramble.Proofs.Rewriting.Walk
import Unscramble.Proofs.Traces.LastWrite

/-! Grouping that the printed text needs. A number without parentheses around it is read together with a
`.` behind it, and where commands have their arguments a type, and what is done with a type or a string,
is read as a plain word. Whether a node can stand on its own depends on what it is and on where it
stands. The rules that drop grouping, and the one that puts literals where variables were, look at less
than that; they keep the grouping in all places but those that are named here. -/
namespace Unscramble

open Simplify

namespace Tree

/-- What stands before the `.` or the `::` of a member access or an invocation: the arguments are the first
child, and the name of the member is the last one. -/
def receiver? (t : Tree) : Option Tree :=
  if t.is .memberExpression || t.is .invokeMember then
    match t.children with
    | [target, _] | [_, target, _] => some target
    | _ => none
  else none

/-- Read as a plain word where it is an element of a command, unless it is in parentheses. -/
def isWord (t : Tree) : Bool :=
  t.is .typeExpression || t.is .convert ||
    t.receiver?.any fun receiver => receiver.is .typeExpression || receiver.is .stringConstant

/-- Whatever needs parentheses to be read as what it is has them. -/
structure Grouped (t : Tree) : Prop where
  receivers : ∀ n ∈ t.nodes, ∀ receiver ∈ n.receiver?, receiver.kind ≠ .constant
  elements : ∀ n ∈ t.nodes, n.kind = .commandElements → ∀ c ∈ n.children, c.isWord = false

theorem grouped_iff {t : Tree} : t.Grouped ↔
    (∀ n ∈ t.nodes, ∀ receiver ∈ n.receiver?, receiver.kind ≠ .constant) ∧
      ∀ n ∈ t.nodes, n.kind = .commandElements → ∀ c ∈ n.children, c.isWord = false :=
  ⟨fun h => ⟨h.receivers, h.elements⟩, fun h => ⟨h.1, h.2⟩⟩

instance (t : Tree) : Decidable t.Grouped := decidable_of_iff' _ grouped_iff

theorem Grouped.node {t u : Tree} (h : t.Grouped) (hu : u ∈ t.nodes) : u.Grouped :=
  ⟨fun n hn => h.receivers n (mem_nodes_trans t hu hn), fun n hn => h.elements n (mem_nodes_trans t hu hn)⟩

end Tree

open Unscramble.Tree Traces

/-- What it depends on where a node stands. -/
inductive Spot where
  | free
  /-- A name or an argument of a command. -/
  | element
  /-- Before a `.`; the access may be an element of a command itself. -/
  | receiver (ofElement : Bool)
  deriving DecidableEq

namespace Spot

/-- The spot of a child of a node that is in this spot. -/
def below (spot : Spot) (e : Element) (arity i : Nat) : Spot :=
  match e.kind with
  | .memberExpression | .invokeMember =>
    if i + 2 = arity ∧ arity ≤ 3 then .receiver (spot == .element) else .free
  | .commandElements => .element
  | _ => .free

/-- A node of this kind is read as something else in this spot, whatever its children are. -/
def forbids : Spot → Kind → Bool
  | .free, _ => false
  | .element, kind => kind == .typeExpression || kind == .convert
  | .receiver ofElement, kind =>
    kind == .constant || (ofElement && (kind == .typeExpression || kind == .stringConstant))

/-- A node is read as something else in this spot. -/
def misreads : Spot → Tree → Bool
  | .element, t => t.isWord
  | spot, t => spot.forbids t.kind

end Spot

/-! ### Nodes in their spots -/

/-- The nodes of a tree and the spots that they are in. -/
inductive Occupies (t : Tree) : Spot → Tree → Prop
  | root : Occupies t .free t
  | child {spot e cs i c} : Occupies t spot (.node e cs) → cs[i]? = some c →
      Occupies t (spot.below e cs.length i) c

/-- A tree with all the grouping it needs, in a spot where it is read as what it is. -/
structure Sits (spot : Spot) (t : Tree) : Prop where
  reads : spot.misreads t = false
  grouped : t.Grouped

section
variable {spot : Spot} {e : Element} {r t : Tree} {cs : List Tree}

theorem receiver?_access (h : e.kind = .memberExpression ∨ e.kind = .invokeMember) :
    r ∈ (node e cs).receiver? ↔ ∃ i, cs[i]? = some r ∧ i + 2 = cs.length ∧ cs.length ≤ 3 := by
  have haccess : ((node e cs).is .memberExpression || (node e cs).is .invokeMember) = true := by
    simpa [Tree.is] using h
  rw [receiver?, if_pos haccess, children_node]
  rcases cs with _ | ⟨a, _ | ⟨b, _ | ⟨c, _ | ⟨d, rest⟩⟩⟩⟩
  all_goals simp [Option.mem_def, eq_comm]

theorem receiver?_other (h : ¬ (e.kind = .memberExpression ∨ e.kind = .invokeMember)) :
    (node e cs).receiver? = none := by
  rw [receiver?, if_neg]
  simpa [Tree.is] using h

theorem grouped_node : (node e cs).Grouped ↔
    ((∀ receiver ∈ (node e cs).receiver?, receiver.kind ≠ .constant) ∧
      (e.kind = .commandElements → ∀ c ∈ cs, c.isWord = false)) ∧ ∀ c ∈ cs, c.Grouped := by
  constructor
  · intro h
    exact ⟨⟨h.receivers _ (mem_nodes_self _), h.elements _ (mem_nodes_self _)⟩,
      fun c hc => h.node (child_mem_nodes hc)⟩
  · intro ⟨⟨hreceivers, helements⟩, hbelow⟩
    refine ⟨fun n hn => ?_, fun n hn => ?_⟩
    all_goals rcases mem_nodes_iff.mp hn with rfl | ⟨c, hc, hn⟩
    · exact hreceivers
    · exact (hbelow c hc).receivers n hn
    · exact helements
    · exact (hbelow c hc).elements n hn

theorem misreads_eq_false : spot.misreads t = false ↔ spot.forbids t.kind = false ∧
    (spot = .element → ∀ r ∈ t.receiver?, r.kind ≠ .typeExpression ∧ r.kind ≠ .stringConstant) := by
  cases spot <;> simp [Spot.misreads, Spot.forbids, isWord, Tree.is, Option.any_eq_false]

theorem below_access (h : e.kind = .memberExpression ∨ e.kind = .invokeMember) (arity i : Nat) :
    spot.below e arity i = if i + 2 = arity ∧ arity ≤ 3 then .receiver (spot == .element) else .free := by
  rcases h with h | h <;> simp [Spot.below, h]

theorem forbids_receiver {ofElement : Bool} {kind : Kind} : (Spot.receiver ofElement).forbids kind = false ↔
    kind ≠ .constant ∧ (ofElement = true → kind ≠ .typeExpression ∧ kind ≠ .stringConstant) := by
  simp [Spot.forbids]

/-- Among the children of an access only its receiver can be read as something else. -/
theorem misreads_access (h : e.kind = .memberExpression ∨ e.kind = .invokeMember) :
    (∀ i c, cs[i]? = some c → (spot.below e cs.length i).misreads c = false) ↔
      ∀ r ∈ (node e cs).receiver?, (Spot.receiver (spot == .element)).forbids r.kind = false := by
  simp only [receiver?_access h, below_access h]
  constructor
  · intro hchildren r ⟨i, hr, hi⟩
    have hr := hchildren i r hr
    rwa [if_pos hi] at hr
  · intro hreceiver i c hc
    split
    next hi => exact hreceiver c ⟨i, hc, hi⟩
    next => rfl

/-- Whether a node and its children are read as what they are: its kind may stand in its spot, and what the
children are read as depends on theirs. -/
theorem misreads_node : (spot.misreads (node e cs) = false ∧
      (∀ receiver ∈ (node e cs).receiver?, receiver.kind ≠ .constant) ∧
      (e.kind = .commandElements → ∀ c ∈ cs, c.isWord = false)) ↔
    spot.forbids e.kind = false ∧
      ∀ i c, cs[i]? = some c → (spot.below e cs.length i).misreads c = false := by
  rw [misreads_eq_false, kind_node, and_assoc]
  refine and_congr_right fun _ => ?_
  by_cases haccess : e.kind = .memberExpression ∨ e.kind = .invokeMember
  · have hlist : e.kind ≠ .commandElements := by rcases haccess with h | h <;> simp [h]
    rw [misreads_access haccess]
    simp only [forbids_receiver, beq_iff_eq]
    exact ⟨fun ⟨hword, hnumber, _⟩ r hr => ⟨hnumber r hr, fun hspot => hword hspot r hr⟩,
      fun h => ⟨fun hspot r hr => (h r hr).2 hspot, fun r hr => (h r hr).1,
        fun hkind => absurd hkind hlist⟩⟩
  · rw [receiver?_other haccess]
    by_cases hlist : e.kind = .commandElements
    · have hbelow (i : Nat) : spot.below e cs.length i = .element := by simp [Spot.below, hlist]
      simp only [hbelow, Spot.misreads, hlist, List.mem_iff_getElem?, forall_exists_index]
      simp only [Option.not_mem_none, false_imp_iff, implies_true, true_and, true_imp_iff]
      exact forall_comm
    · have hbelow (i : Nat) : spot.below e cs.length i = .free := by
        unfold Spot.below
        split <;> simp_all
      simp [hbelow, hlist, Spot.misreads, Spot.forbids]

theorem sits_node : Sits spot (node e cs) ↔
    spot.forbids e.kind = false ∧ ∀ i c, cs[i]? = some c → Sits (spot.below e cs.length i) c := by
  have hlocal := @misreads_node spot e cs
  constructor
  · intro ⟨hreads, hgrouped⟩
    obtain ⟨hown, hbelow⟩ := grouped_node.mp hgrouped
    obtain ⟨hkind, hchildren⟩ := hlocal.mp ⟨hreads, hown⟩
    exact ⟨hkind, fun i c hc => ⟨hchildren i c hc, hbelow c (List.mem_of_getElem? hc)⟩⟩
  · intro ⟨hkind, hchildren⟩
    obtain ⟨hreads, hown⟩ := hlocal.mpr ⟨hkind, fun i c hc => (hchildren i c hc).reads⟩
    refine ⟨hreads, grouped_node.mpr ⟨hown, fun c hc => ?_⟩⟩
    obtain ⟨i, hi⟩ := List.getElem?_of_mem hc
    exact (hchildren i c hi).grouped

end

/-! ### Exchanges -/

/-- The same tree, but that something else stands in the place of some of its nodes; `R` relates the spot,
what stood there and what stands there now. -/
inductive Exchanged (R : Spot → Tree → Tree → Prop) : Spot → Tree → Tree → Prop
  | here {spot s u} : R spot s u → Exchanged R spot s u
  | node {spot e cs cs'} : cs'.length = cs.length →
      (∀ i c c', cs[i]? = some c → cs'[i]? = some c' →
        Exchanged R (Spot.below spot e cs.length i) c c') →
      Exchanged R spot (.node e cs) (.node e cs')

/-- The same, but nothing new is read as something else in its spot. -/
abbrev SafelyExchanged (R : Spot → Tree → Tree → Prop) : Spot → Tree → Tree → Prop :=
  Exchanged fun spot s u => R spot s u ∧ spot.misreads u = false

section
variable {R : Spot → Tree → Tree → Prop} {U : Tree → Tree → Prop} {spot : Spot} {e : Element}
  {s s' t t' t'' : Tree} {cs cs' before after : List Tree} {i : Nat}

namespace Exchanged

theorem refl (t : Tree) : ∀ spot, Exchanged R spot t t :=
  children_induction (P := fun t => ∀ spot, Exchanged R spot t t)
    (fun _ _ ih _ => .node rfl fun _ c c' hc hc' => by
      cases hc.symm.trans hc'
      exact ih c (List.mem_of_getElem? hc) _) t

/-- One more child is exchanged. -/
theorem put (hlength : cs'.length = cs.length)
    (hchildren : ∀ i c c', cs[i]? = some c → cs'[i]? = some c' →
      Exchanged R (spot.below e cs.length i) c c')
    (hput : ∀ c, cs[i]? = some c → Exchanged R (spot.below e cs.length i) c s) :
    Exchanged R spot (.node e cs) (.node e (cs'.set i s)) := by
  refine .node (by rw [List.length_set, hlength]) fun j c c' hc hc' => ?_
  rw [List.getElem?_set] at hc'
  split at hc'
  next heq =>
    subst heq
    obtain ⟨-, hs⟩ := Option.ite_none_right_eq_some.mp hc'
    cases hs
    exact hput c hc
  next => exact hchildren j c c' hc hc'

theorem inside (h : Exchanged R (spot.below e (before ++ s :: after).length before.length) s s') :
    Exchanged R spot (.node e (before ++ s :: after)) (.node e (before ++ s' :: after)) := by
  have hsame : ∀ i c c', (before ++ s :: after)[i]? = some c → (before ++ s :: after)[i]? = some c' →
      Exchanged R (spot.below e (before ++ s :: after).length i) c c' := fun i c c' hc hc' =>
    Option.some.inj (hc.symm.trans hc') ▸ refl c _
  have hput := put rfl hsame (i := before.length) (s := s') fun c hc => by
    simp only [List.getElem?_append_right, Nat.le_refl, Nat.sub_self, List.getElem?_cons_zero,
      Option.some.injEq] at hc
    exact hc ▸ h
  simpa using hput

theorem of_within (h : Within U t t') (hU : ∀ s s', U s s' → ∀ spot, Exchanged R spot s s') :
    ∀ spot, Exchanged R spot t t' := by
  induction h with
  | here h => exact hU _ _ h
  | inside _ ih => exact fun _ => inside (ih _)

/-- Grouping is kept if nothing new is read as something else. -/
theorem sits (h : SafelyExchanged R spot t t') (hR : ∀ spot s u, R spot s u → s.Grouped → u.Grouped)
    (ht : Sits spot t) : Sits spot t' := by
  induction h with
  | here h => exact ⟨h.2, hR _ _ _ h.1 ht.grouped⟩
  | @node spot e cs cs' hlength _ ih =>
    obtain ⟨hkind, hchildren⟩ := sits_node.mp ht
    refine sits_node.mpr ⟨hkind, fun i c' hc' => ?_⟩
    have hi : i < cs.length := hlength ▸ (List.getElem?_eq_some_iff.mp hc').1
    rw [hlength]
    exact ih i cs[i] c' (List.getElem?_eq_getElem hi) hc' (hchildren i _ (List.getElem?_eq_getElem hi))

theorem safely (h : Exchanged R spot t t') (ht' : Sits spot t') : SafelyExchanged R spot t t' := by
  induction h with
  | here h => exact .here ⟨h, ht'.reads⟩
  | @node spot e cs cs' hlength _ ih =>
    have hchildren := (sits_node.mp ht').2
    rw [hlength] at hchildren
    exact .node hlength fun i c c' hc hc' => ih i c c' hc hc' (hchildren i c' hc')

/-- Nothing new is read as something else if nothing that could be exchanged would be. -/
theorem safely_of_occupies {root : Tree} (h : Exchanged R spot t t') (ht : Occupies root spot t)
    (hR : ∀ spot s u, Occupies root spot s → R spot s u → spot.misreads u = false) :
    SafelyExchanged R spot t t' := by
  induction h with
  | here h => exact .here ⟨h, hR _ _ _ ht h⟩
  | node hlength _ ih => exact .node hlength fun i c c' hc hc' => ih i c c' hc hc' (ht.child hc)

end Exchanged
end

/-! ### The rules -/

/-- The rules that drop grouping or put something in its place that has none. -/
def groupingRules : List Rule :=
  [.unwrapParen, .unwrapPipeline, .unwrapSingleArray, .propagateConstants]

/-- What a rule puts in the place of a node. -/
inductive Regroups : Rule → Spot → Tree → Tree → Prop
  | paren {spot s u} : s.kind = .parenExpression → Contracts s u → Regroups .unwrapParen spot s u
  | pipeline {spot s u} : s.kind = .pipeline → Contracts s u → Regroups .unwrapPipeline spot s u
  | array {s list u} : s.kind = .arrayLiteral → s.childOf? .elements = some list → list.children = [u] →
      u.kind.needsGrouping = false → Regroups .unwrapSingleArray .free s u
  | literal {spot s u} : Replaced s u → Regroups .propagateConstants spot s u

section
variable {context : Context} {memory : Memory} {rule : Rule} {spot : Spot} {s t t' t'' u : Tree}

theorem Within.exists_mem {U : Tree → Tree → Prop} (h : Within U t t') :
    ∃ s ∈ t.nodes, ∃ u, U s u := by
  induction h with
  | here h => exact ⟨_, mem_nodes_self _, _, h⟩
  | inside _ ih =>
    obtain ⟨s, hs, hu⟩ := ih
    exact ⟨s, mem_nodes_of_child (by simp) hs, hu⟩

theorem grouped_toTree (quoting : Quoting) (v : Value) : (v.toTree quoting).Grouped := by
  have hkinds := kind_of_mem_toTree quoting v
  simp only [valueKinds, List.mem_cons, List.not_mem_nil, or_false] at hkinds
  refine ⟨fun n hn receiver hreceiver => ?_, fun n hn hkind => ?_⟩
  · obtain ⟨e, cs⟩ := n
    have haccess : ¬ (e.kind = .memberExpression ∨ e.kind = .invokeMember) := by
      rcases hkinds _ hn with h | h | h | h <;> simp [show e.kind = _ from h]
    rw [receiver?_other haccess] at hreceiver
    cases hreceiver
  · rcases hkinds _ hn with h | h | h | h <;> cases hkind.symm.trans h

theorem Contracts.mem_nodes (h : Contracts s u) (hkind : s.kind ≠ .binaryExpression) : u ∈ s.nodes := by
  cases h with
  | paren _ hlead => exact mem_nodes_of_child (by simp) hlead.mem_nodes
  | pipeline => exact child_mem_nodes (by simp)
  | element => exact mem_nodes_of_child List.mem_cons_self (child_mem_nodes List.mem_cons_self)
  | operation hbinary => exact absurd hbinary hkind

theorem Regroups.grouped (h : Regroups rule spot s u) (hs : s.Grouped) : u.Grouped := by
  cases h with
  | paren hkind h | pipeline hkind h => exact hs.node (h.mem_nodes (by simp [hkind]))
  | array _ hlist hu =>
    exact hs.node (mem_nodes_of_child (childOf?_mem hlist).1 (child_mem_nodes (by simp [hu])))
  | literal h =>
    obtain ⟨_, v, quoting, -, -, -, rfl⟩ := h
    exact grouped_toTree quoting v

theorem kind_above_output {p : Place} {above : Tree} (h : isOutput p = true)
    (habove : p.parent? = some above) : above.kind = .commandExpression := by
  obtain ⟨_ | ⟨⟨statement, i⟩, trail⟩, tree⟩ := p
  · cases habove
  · cases habove
    simp only [isOutput, Place.up?, Bool.and_eq_true] at h
    exact is_iff.mp h.1

theorem unwrapSingleArray_exchanged (h : unwrapSingleArray t = some t') :
    ∀ spot, Exchanged (Regroups .unwrapSingleArray) spot t t' := by
  have hwithin : Within (Splice fun above s new => above.kind = .commandExpression ∧
      ∃ u, new = [u] ∧ Regroups .unwrapSingleArray .free s u) t t' := by
    refine replaceFirst?_within (fun p above new _ habove hnew => ?_) h
    simp only [Option.ite_none_right_eq_some, Option.map_eq_some_iff, Option.filter_eq_some_iff,
      Option.bind_eq_some_iff, Bool.and_eq_true] at hnew
    obtain ⟨⟨hkind, houtput⟩, u, ⟨⟨list, hlist, hu⟩, hgrouping⟩, rfl⟩ := hnew
    exact ⟨kind_above_output houtput habove, u, rfl,
      .array (is_iff.mp hkind) hlist (children_of_onlyChild? hu) (by simpa using hgrouping)⟩
  refine Exchanged.of_within hwithin fun s s' hsplice spot => ?_
  obtain @⟨e, before, s, _, after, habove, u, rfl, hu⟩ := hsplice
  rw [List.append_assoc, List.singleton_append]
  have hfree : spot.below e (before ++ s :: after).length before.length = .free := by
    simp [Spot.below, show e.kind = .commandExpression from habove]
  exact .inside (hfree ▸ .here hu)

theorem not_within_toTree (quoting : Quoting) (v : Value) : ¬ Within Replaced (v.toTree quoting) t' := by
  intro h
  obtain ⟨s, hs, u, name, -, -, hname, -⟩ := h.exists_mem
  have hkind := kind_of_mem_toTree quoting v s hs
  rw [kind_of_variableKey? hname] at hkind
  simp [valueKinds] at hkind

/-- What stands in the place of a variable has no variables in it. -/
theorem Exchanged.step (h : Exchanged (Regroups .propagateConstants) spot t t')
    (hstep : Within Replaced t' t'') : Exchanged (Regroups .propagateConstants) spot t t'' := by
  induction h generalizing t'' with
  | here h =>
    obtain - | - | - | ⟨_, v, quoting, -, -, -, rfl⟩ := h
    exact absurd hstep (not_within_toTree quoting v)
  | node hlength hchildren ih =>
    cases hstep with
    | here h => exact .here (.literal h)
    | @inside _ before c c' after h =>
      have hput := put hlength hchildren (i := before.length) (s := c')
        fun d hd => ih before.length d c hd (by simp) h
      simpa using hput

theorem Rule.apply_exchanged (hrule : rule ∈ groupingRules)
    (h : (rule.apply context memory t).1 = some t') : Exchanged (Regroups rule) .free t t' := by
  simp only [groupingRules, List.mem_cons, List.not_mem_nil, or_false] at hrule
  obtain rfl | rfl | rfl | rfl := hrule
  · exact .of_within (unwrapParen_contracts h) (fun _ _ h _ => .here (.paren h.1 h.2)) _
  · exact .of_within (unwrapPipeline_contracts h) (fun _ _ h _ => .here (.pipeline h.1 h.2)) _
  · exact unwrapSingleArray_exchanged h _
  · have hchanges := propagateConstants_replaced h
    clear h
    induction hchanges with
    | single h => exact .of_within h (fun _ _ h _ => .here (.literal h)) _
    | tail _ h ih => exact ih.step h

namespace Situation

variable {s : Situation}

/-- The rules that drop grouping, and constant propagation, keep the grouping that a script needs exactly if
nothing that they put in the place of something else is read as something else there. Constants in front of
a `.`, and words among the elements of a command, are all that can go wrong, and nothing goes wrong with the
arrays of one item. -/
theorem apply_keeps_grouping (context : Context) (hrule : rule ∈ groupingRules) (h : s.tree.Grouped) :
    Exchanged (Regroups rule) .free s.tree (s.apply context rule).tree ∧
      ((s.apply context rule).tree.Grouped ↔
        SafelyExchanged (Regroups rule) .free s.tree (s.apply context rule).tree) ∧
      ((∀ spot n u, Occupies s.tree spot n → Regroups rule spot n u → spot.misreads u = false) →
        (s.apply context rule).tree.Grouped) ∧
      (rule = .unwrapSingleArray → (s.apply context rule).tree.Grouped) := by
  have hexchanged : Exchanged (Regroups rule) .free s.tree (s.apply context rule).tree := by
    cases hnew : (rule.apply context s.memory s.tree).1 with
    | none => simpa [apply, hnew] using .refl s.tree _
    | some t' => simpa [apply, hnew] using Rule.apply_exchanged hrule hnew
  have hsits {t : Tree} : Sits .free t ↔ t.Grouped := ⟨Sits.grouped, fun h => ⟨rfl, h⟩⟩
  have hsafe : (s.apply context rule).tree.Grouped ↔
      SafelyExchanged (Regroups rule) .free s.tree (s.apply context rule).tree := by
    rw [← hsits]
    exact ⟨hexchanged.safely, fun hsafely => hsafely.sits (fun _ _ _ => Regroups.grouped) (hsits.mpr h)⟩
  have hoccupies := fun hR => hsafe.mpr (hexchanged.safely_of_occupies .root hR)
  refine ⟨hexchanged, hsafe, hoccupies, fun hsingle => hoccupies fun spot n u _ hregroups => ?_⟩
  subst hsingle
  cases hregroups
  rfl

/-- `receiver.ToString()` -/
def callOn (receiver : Tree) : Tree :=
  statementOf (branch .invokeMember [] [receiver, stringTree .bareWord "ToString"])

def inParentheses (expression : Tree) : Tree := branch .parenExpression [] [statementOf expression]

/-- A string needs no parentheses in front of a `.`. -/
theorem apply_keeps_grouping_string :
    let t := scriptOf [callOn (inParentheses (stringTree .singleQuoted "a"))]
    let t' := scriptOf [callOn (stringTree .singleQuoted "a")]
    t.Grouped ∧ (apply {} .unwrapParen ⟨t, {}⟩).tree = t' ∧ t'.Grouped ∧
      SafelyExchanged (Regroups .unwrapParen) .free t t' := by
  intro t t'
  have ht : t.Grouped := by decide +kernel
  have happly : (apply {} .unwrapParen ⟨t, {}⟩).tree = t' := by decide +kernel
  have ht' : t'.Grouped := by decide +kernel
  have hrule : Rule.unwrapParen ∈ groupingRules := by decide
  have hsafe := (apply_keeps_grouping (s := ⟨t, {}⟩) {} hrule ht).2.1
  rw [happly] at hsafe
  exact ⟨ht, happly, ht', hsafe.mp ht'⟩

/-- A number does: it loses the parentheses that it has in front of a `.`, and is put there for a variable
that needs none. A type loses its own among the arguments of a command. -/
theorem apply_drops_grouping :
    let number := scriptOf [callOn (inParentheses (intTree 5))]
    let known := scriptOf [setTo "x" 5, callOn (readOf "x")]
    let word := scriptOf [branch .command [] [branch .commandElements []
      [stringTree .bareWord "Write-Host", inParentheses (leaf .typeExpression [("TypeName", "int")] none)]]]
    (number.Grouped ∧ ¬ (apply {} .unwrapParen ⟨number, {}⟩).tree.Grouped) ∧
      (known.Grouped ∧ ¬ (apply {} .propagateConstants ⟨known, {}⟩).tree.Grouped) ∧
      word.Grouped ∧ ¬ (apply {} .unwrapParen ⟨word, {}⟩).tree.Grouped := by
  decide +kernel

end Situation
end
end Unscramble
