import Unscramble.Proofs.Literals.Evaluation
import Unscramble.Proofs.Rewriting.Outermost
import Unscramble.Proofs.Traces.Known

/-! What constant propagation may put in which place. A tree is filled if some of the variables in it
are replaced by literals: only those that the walk comes to, and only where what holds in that place
allows it. What is said here of filled trees holds of the walk, whatever values it knows. -/
namespace Unscramble.Simplify

open Unscramble.Tree Scripts Traces

/-- How the walk goes on to a child of a node: with what holds there, or not at all. -/
def inward? (around : Surroundings) (t : Tree) (i : Nat) : Option Surroundings :=
  match flowOf t.element with
  | .assignment => if i = 1 then some around else none
  | .increment | .read => none
  | .loopOver =>
    if i = 1 then some (around.inLoop t.writes) else if i = 2 then some around else none
  | .loopFrom => if i = 0 then some around else some (around.inLoop t.writes)
  | .loop => some (around.inLoop t.writes)
  | .deferred => some around.later
  | .arms | .frame | .plain => some around

/-- The same tree, but for variables in places that the walk comes to. -/
inductive Filled : Surroundings → Option Site → Tree → Tree → Prop
  | literal {around site t name v quoting} : t.variableKey? = some name → t.children = [] →
      t.isSplatted = false → around.mayReplace name = true → Site.quoting? site v = some quoting →
      Filled around (some site) t (v.toTree quoting)
  | node {around site e cs cs'} : cs'.length = cs.length →
      (∀ i, inward? around (.node e cs) i = none → cs'[i]? = cs[i]?) →
      (∀ i inner c c', inward? around (.node e cs) i = some inner → cs[i]? = some c →
        cs'[i]? = some c' → Filled inner (some ⟨Site.holds site e cs, i⟩) c c') →
      Filled around site (.node e cs) (.node e cs')

variable {around inner outer : Surroundings} {site : Option Site} {known : Known} {holder : Holder}
  {e : Element} {t t' u u' : Tree} {ts ts' cs cs' : List Tree} {i : Nat} {name : String}
  {p : List Nat}

theorem Filled.refl (t : Tree) : ∀ around site, Filled around site t t :=
  children_induction (P := fun t => ∀ around site, Filled around site t t)
    (fun _ _ ih _ _ => .node rfl (fun _ _ => rfl) fun i inner c c' _ hc hc' => by
      cases hc.symm.trans hc'
      exact ih c (List.mem_of_getElem? hc) inner _) t

/-! ### The walk fills -/

/-- Nodes that the walk goes through child by child, so that it makes no difference to them whether it
goes through them or past them. -/
def goesThrough (e : Element) : Bool :=
  match flowOf e with
  | .arms | .frame | .read | .plain => true
  | _ => false

/-- Variables are leaves, and the lists of clauses of conditionals hold nothing that is walked through
in a way of its own, which the walk would not see there. -/
structure Regular (t : Tree) : Prop where
  leaves : ∀ n ∈ t.nodes, n.kind = .variableRef → n.children = []
  clauses : ∀ n ∈ t.nodes, n.kind ∈ [Kind.ifElse, .switchStatement, .tryCatch] →
    ∀ list ∈ n.children, isClauseList list.kind = true →
      ∀ clause ∈ list.children, goesThrough clause.element = true

theorem Regular.node (h : Regular t) (hu : u ∈ t.nodes) : Regular u :=
  ⟨fun n hn => h.leaves n (mem_nodes_trans t hu hn), fun n hn => h.clauses n (mem_nodes_trans t hu hn)⟩

/-- The same for trees that are children of a node, from one of them on. -/
def FilledFrom (around : Surroundings) (holder : Holder) (i : Nat) (ts ts' : List Tree) : Prop :=
  ts'.length = ts.length ∧ ∀ j c c', ts[j]? = some c → ts'[j]? = some c' →
    Filled around (some ⟨holder, i + j⟩) c c'

namespace FilledFrom

theorem nil : FilledFrom around holder i [] [] := ⟨rfl, by simp⟩

theorem cons (h : Filled around (some ⟨holder, i⟩) t t') (hrest : FilledFrom around holder (i + 1) ts ts') :
    FilledFrom around holder i (t :: ts) (t' :: ts') := by
  refine ⟨by rw [List.length_cons, List.length_cons, hrest.1], fun j c c' hc hc' => ?_⟩
  cases j with
  | zero =>
    cases hc
    cases hc'
    exact h
  | succ j =>
    rw [show i + (j + 1) = i + 1 + j by omega]
    exact hrest.2 j c c' hc hc'

theorem node (h : FilledFrom inner (Site.holds site e cs) 0 cs cs')
    (hin : ∀ i, inward? around (.node e cs) i = some inner) :
    Filled around site (.node e cs) (.node e cs') :=
  .node h.1 (fun i hi => nomatch (hin i).symm.trans hi) fun i inner' c c' hi hc hc' => by
    cases (hin i).symm.trans hi
    exact Nat.zero_add i ▸ h.2 i c c' hc hc'

end FilledFrom

/-- A tree that is filled by a walk through it, however it is come to. -/
abbrev Fills (t : Tree) : Prop := ∀ around site known, Filled around site t (walk around site known t).2

theorem kind_of_flowOf_read (h : flowOf e = .read) : e.kind = .variableRef := by
  unfold flowOf at h
  split at h <;> (try split at h) <;> first | assumption | cases h

theorem kind_of_flowOf_arms (h : flowOf e = .arms) :
    e.kind ∈ [Kind.ifElse, .switchStatement, .tryCatch] := by
  unfold flowOf at h
  split at h <;> (try split at h) <;> simp_all

theorem inward?_of_goesThrough (h : goesThrough e = true) (hcs : flowOf e = .read → cs = []) (i : Nat) :
    inward? around (.node e cs) i = some around ∨ cs = [] := by
  unfold goesThrough at h
  unfold inward?
  rw [element_node]
  split at h
  case h_3 hread => exact .inr (hcs hread)
  case h_5 => cases h
  all_goals exact .inl (by simp only [*])

theorem readVariable_filled (hleaf : t.children = []) :
    Filled around site t (readVariable around site t known).2 := by
  unfold readVariable
  split
  next name site hname =>
    split
    next => exact .refl _ _ _
    next hmay =>
      rw [Bool.or_eq_true, not_or, Bool.not_eq_true, Bool.not_eq_true', Bool.not_eq_false] at hmay
      split
      next => exact .refl _ _ _
      next v _ =>
        split
        next => exact .refl _ _ _
        next =>
          split
          next quoting hquoting => exact .literal hname hleaf hmay.1 hmay.2 hquoting
          next => exact .refl _ _ _
  next => exact .refl _ _ _

theorem walkAll_filled (h : ∀ t ∈ ts, Fills t) :
    FilledFrom around holder i ts (walkAll around holder i known ts).2 := by
  induction ts generalizing i known with
  | nil => exact .nil
  | cons t ts ih =>
    obtain ⟨ht, hts⟩ := List.forall_mem_cons.mp h
    exact .cons (ht around _ known) (ih hts)

theorem walkParts_filled (h : ∀ t ∈ ts, Fills t) :
    FilledFrom around holder i ts (walkParts around holder i known ts).2 := by
  induction ts generalizing i known with
  | nil => exact .nil
  | cons t ts ih =>
    obtain ⟨ht, hts⟩ := List.forall_mem_cons.mp h
    exact .cons (ht around _ known) (ih hts)

/-- The clauses in a list are passed over, and their parts are walked through. -/
theorem walkClauses_filled (h : ∀ u ∈ nodesAll ts, Fills u)
    (hclauses : ∀ clause ∈ ts, goesThrough clause.element = true)
    (hleaves : ∀ clause ∈ ts, clause.kind = .variableRef → clause.children = []) :
    FilledFrom around holder i ts (walkClauses around holder i known ts).2 := by
  induction ts generalizing i known with
  | nil => exact .nil
  | cons t ts ih =>
    obtain ⟨e, parts⟩ := t
    obtain ⟨hclause, hclauses⟩ := List.forall_mem_cons.mp hclauses
    obtain ⟨hleaf, hleaves⟩ := List.forall_mem_cons.mp hleaves
    have hparts : ∀ t ∈ parts, Fills t := fun t ht =>
      h t (by simp [nodesAll, nodes, child_mem_nodesAll ht])
    rw [walkClauses_cons]
    refine .cons ?_ (ih (fun u hu => h u (by simp [nodesAll, hu])) hclauses hleaves)
    have hread : flowOf e = .read → parts = [] := fun hread => hleaf (kind_of_flowOf_read hread)
    by_cases hnone : parts = []
    · subst hnone
      exact .refl _ _ _
    · have hin (i : Nat) : inward? around (.node e parts) i = some around :=
        (inward?_of_goesThrough hclause hread i).resolve_right hnone
      exact (walkParts_filled hparts).node hin

theorem isClauseList_flow (h : isClauseList e.kind = true) : flowOf e = .plain := by
  unfold isClauseList at h
  rw [Bool.or_eq_true, beq_iff_eq, beq_iff_eq] at h
  unfold flowOf
  rcases h with h | h <;> rw [h]

theorem walkArms_filled (h : ∀ u ∈ nodesAll ts, Fills u)
    (hclauses : ∀ list ∈ ts, isClauseList list.kind = true →
      ∀ clause ∈ list.children, goesThrough clause.element = true)
    (hleaves : ∀ u ∈ nodesAll ts, u.kind = .variableRef → u.children = []) :
    FilledFrom around holder i ts (walkArms around holder i known ts).2 := by
  induction ts generalizing i known with
  | nil => exact .nil
  | cons t ts ih =>
    obtain ⟨hlist, hclauses⟩ := List.forall_mem_cons.mp hclauses
    rw [walkArms_cons]
    refine .cons ?_ (ih (fun u hu => h u (by simp [nodesAll, hu])) hclauses
      fun u hu => hleaves u (by simp [nodesAll, hu]))
    obtain ⟨e, children⟩ := t
    rw [walkArm]
    split
    next hkind =>
      have hin (i : Nat) : inward? around (.node e children) i = some around := by
        simp only [inward?, element_node, isClauseList_flow hkind]
      have hbelow {P : Tree → Prop} (hP : ∀ u ∈ nodesAll (.node e children :: ts), P u) :
          ∀ u ∈ nodesAll children, P u := fun u hu => hP u (by simp [nodesAll, nodes, hu])
      exact (walkClauses_filled (hbelow h) (hlist hkind)
        fun u hu => hbelow hleaves u (child_mem_nodesAll hu)).node hin
    next => exact h _ (by simp [nodesAll, nodes]) around _ known

/-! ### One construct at a time -/

section
variable {target value value' item body body' first first' : Tree} {rest rest' more more' : List Tree}

theorem assignment_filled (hflow : flowOf e = .assignment)
    (h : Filled around (some ⟨Site.holds site e (target :: value :: rest), 1⟩) value value') :
    Filled around site (.node e (target :: value :: rest)) (.node e (target :: value' :: rest)) := by
  refine .node rfl (fun i hi => ?_) fun i inner c c' hi hc hput => ?_
  · rcases i with _ | _ | i
    · rfl
    · simp [inward?, hflow] at hi
    · rfl
  · simp only [inward?, element_node, hflow, Option.ite_none_right_eq_some, Option.some.injEq] at hi
    obtain ⟨rfl, rfl⟩ := hi
    cases hc
    cases hput
    exact h

/-- Only the first one is filled. -/
structure FirstFilled (around : Surroundings) (holder : Holder) (i : Nat) (ts ts' : List Tree) : Prop where
  length : ts'.length = ts.length
  kept : ∀ j, ts'[j + 1]? = ts[j + 1]?
  first : ∀ c c', ts[0]? = some c → ts'[0]? = some c' → Filled around (some ⟨holder, i⟩) c c'

theorem walkFirst_filled (h : ∀ t ∈ ts, Fills t) :
    FirstFilled around holder i ts (walkFirst around holder i known ts).2 := by
  cases ts with
  | nil => exact ⟨rfl, fun _ => rfl, nofun⟩
  | cons t ts =>
    refine ⟨rfl, fun _ => rfl, fun c c' hc hput => ?_⟩
    cases hc
    cases hput
    exact h t List.mem_cons_self around _ known

theorem loopOver_filled (hflow : flowOf e = .loopOver)
    (hbody : Filled (around.inLoop (Tree.node e (item :: body :: more)).writes)
      (some ⟨Site.holds site e (item :: body :: more), 1⟩) body body')
    (hmore : FirstFilled around (Site.holds site e (item :: body :: more)) 2 more more') :
    Filled around site (.node e (item :: body :: more)) (.node e (item :: body' :: more')) := by
  refine .node (by simp only [List.length_cons, hmore.length]) (fun i hi => ?_)
    fun i inner c c' hi hc hput => ?_
  · rcases i with _ | _ | _ | i
    · rfl
    · simp [inward?, hflow] at hi
    · simp [inward?, hflow] at hi
    · exact hmore.kept i
  · simp only [inward?, element_node, hflow] at hi
    rcases i with _ | _ | _ | i
    · cases hi
    · cases hi
      cases hc
      cases hput
      exact hbody
    · cases hi
      exact hmore.first c c' hc hput
    · cases hi

theorem loopFrom_filled (hflow : flowOf e = .loopFrom)
    (hfirst : Filled around (some ⟨Site.holds site e (first :: rest), 0⟩) first first')
    (hrest : FilledFrom (around.inLoop (Tree.node e (first :: rest)).writes)
      (Site.holds site e (first :: rest)) 1 rest rest') :
    Filled around site (.node e (first :: rest)) (.node e (first' :: rest')) := by
  refine .node (by rw [List.length_cons, List.length_cons, hrest.1]) (fun i hi => ?_)
    fun i inner c c' hi hc hput => ?_
  · simp only [inward?, element_node, hflow] at hi
    split at hi <;> cases hi
  · simp only [inward?, element_node, hflow] at hi
    rcases i with _ | i
    · cases hi
      cases hc
      cases hput
      exact hfirst
    · cases hi
      rw [Nat.add_comm i 1]
      exact hrest.2 i c c' hc hput

end

/-- One step of the induction over the tree. -/
theorem fills_node (hregular : Regular (.node e cs)) (h : ∀ u ∈ nodesAll cs, Fills u) :
    Fills (.node e cs) := by
  intro around site known
  have hc : ∀ t ∈ cs, Fills t := fun t ht => h t (child_mem_nodesAll ht)
  have hsame {inner : Surroundings} (hflow : ∀ i, inward? around (.node e cs) i = some inner) {known'} :
      Filled around site (.node e cs) (.node e (walkAll inner (Site.holds site e cs) 0 known' cs).2) :=
    (walkAll_filled hc).node hflow
  rw [walk.eq_def]
  simp only
  split
  next hflow =>
    split
    next target value rest => exact assignment_filled hflow (hc value (by simp) _ _ _)
    next => exact .refl _ _ _
  next => exact .refl _ _ _
  next hflow =>
    split
    next item body more =>
      exact loopOver_filled hflow (hc body (by simp) _ _ _)
        (walkFirst_filled fun t ht => hc t (by simp [ht]))
    next => exact .refl _ _ _
  next hflow =>
    split
    next => exact .refl _ _ _
    next first rest =>
      exact loopFrom_filled hflow (hc first (by simp) _ _ _)
        (walkAll_filled fun t ht => hc t (by simp [ht]))
  next hflow => exact hsame fun i => by simp only [inward?, element_node, hflow]
  next hflow =>
    have hclauses := hregular.clauses _ (mem_nodes_self _) (kind_of_flowOf_arms hflow)
    have harms : FilledFrom around (Site.holds site e cs) 0 cs
        (walkArms around (Site.holds site e cs) 0 known cs).2 :=
      walkArms_filled h hclauses fun u hu => hregular.leaves u (by simp [nodes, hu])
    exact harms.node fun i => by simp only [inward?, element_node, hflow]
  next hflow => exact hsame fun i => by simp only [inward?, element_node, hflow]
  next hflow => exact hsame fun i => by simp only [inward?, element_node, hflow]
  next hflow =>
    exact readVariable_filled (hregular.leaves _ (mem_nodes_self _) (kind_of_flowOf_read hflow))
  next hflow => exact hsame fun i => by simp only [inward?, element_node, hflow]

theorem walk_filled (t : Tree) : Regular t → Fills t :=
  nodes_induction (P := fun t => Regular t → Fills t)
    (fun _ _ ih hregular => fills_node hregular fun u hu => ih u hu (hregular.node (by simp [nodes, hu]))) t

end Unscramble.Simplify
