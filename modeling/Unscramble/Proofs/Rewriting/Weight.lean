import Mathlib.Algebra.Ring.Nat
import Unscramble.Proofs.Rewriting.LocalStep

/-! Additive measures of trees. Every element has a weight, a tree weighs what its elements weigh
together, and a rule does not make a tree heavier if the nodes it makes up are light enough. -/
namespace Unscramble

open Simplify

namespace Tree

mutual

/-- The sum of the weights of all elements of a tree. -/
def weigh (w : Element → Nat) : Tree → Nat
  | .node e cs => w e + weighAll w cs

def weighAll (w : Element → Nat) : List Tree → Nat
  | [] => 0
  | t :: ts => weigh w t + weighAll w ts

end

section
variable {w : Element → Nat} {t u : Tree} {ss ts : List Tree}

@[simp] theorem weigh_node (e : Element) (cs : List Tree) :
    weigh w (.node e cs) = w e + weighAll w cs := by rw [weigh]

@[simp] theorem weighAll_nil : weighAll w [] = 0 := by rw [weighAll]

@[simp] theorem weighAll_cons (t : Tree) (ts : List Tree) :
    weighAll w (t :: ts) = weigh w t + weighAll w ts := by rw [weighAll]

@[simp] theorem weighAll_append (ss ts : List Tree) :
    weighAll w (ss ++ ts) = weighAll w ss + weighAll w ts := by
  induction ss with
  | nil => simp
  | cons s ss ih => simp [ih, Nat.add_assoc]

theorem weigh_eq (t : Tree) : weigh w t = w t.element + weighAll w t.children := by
  rw [← node_eta t, weigh_node, element_node, children_node]

theorem weigh_le_weighAll (h : t ∈ ts) : weigh w t ≤ weighAll w ts := by
  induction ts with
  | nil => simp at h
  | cons u ts ih =>
    rw [weighAll_cons]
    rcases List.mem_cons.mp h with rfl | h
    · exact Nat.le_add_right ..
    · exact Nat.le_add_left_of_le (ih h)

theorem weighAll_reverse (ts : List Tree) : weighAll w ts.reverse = weighAll w ts := by
  induction ts with
  | nil => rfl
  | cons t ts ih => simp [ih, Nat.add_comm]

theorem weighAll_sublist (h : ss.Sublist ts) : weighAll w ss ≤ weighAll w ts := by
  induction h with
  | slnil => exact Nat.le_refl _
  | cons t _ ih => rw [weighAll_cons]; exact Nat.le_add_left_of_le ih
  | cons_cons t _ ih => simpa using ih

mutual

theorem weigh_node_mem : (t : Tree) → u ∈ t.nodes → weigh w u ≤ weigh w t
  | .node e cs, h => by
    rw [nodes, List.mem_cons] at h
    rcases h with rfl | h
    · exact Nat.le_refl _
    · rw [weigh_node]
      exact Nat.le_add_left_of_le (weighAll_node_mem cs h)

theorem weighAll_node_mem : (ts : List Tree) → u ∈ nodesAll ts → weigh w u ≤ weighAll w ts
  | [], h => by simp [nodesAll] at h
  | t :: ts, h => by
    rw [nodesAll, List.mem_append] at h
    rw [weighAll_cons]
    rcases h with h | h
    · exact Nat.le_add_right_of_le (weigh_node_mem t h)
    · exact Nat.le_add_left_of_le (weighAll_node_mem ts h)

end

mutual

theorem size_eq_weigh : (t : Tree) → t.size = weigh (fun _ => 1) t
  | .node e cs => by rw [size, weigh_node, sizeAll_eq_weighAll cs, Nat.add_comm]

theorem sizeAll_eq_weighAll : (ts : List Tree) → sizeAll ts = weighAll (fun _ => 1) ts
  | [] => rfl
  | t :: ts => by rw [sizeAll, weighAll_cons, size_eq_weigh t, sizeAll_eq_weighAll ts]

end

theorem weighAll_eq_sum (ts : List Tree) : weighAll w ts = (ts.map (weigh w)).sum := by
  induction ts with
  | nil => rfl
  | cons t ts ih => simp [ih]

mutual

/-- Weights are compared at the elements of the tree only. -/
theorem weigh_mono {w' : Element → Nat} : (t : Tree) →
    (∀ u ∈ t.nodes, w' u.element ≤ w u.element) →
    weigh w' t ≤ weigh w t ∧
      ((∃ u ∈ t.nodes, w' u.element < w u.element) → weigh w' t < weigh w t)
  | .node e cs, h => by
    have hnode : w' e ≤ w e := h (.node e cs) (mem_nodes_self _)
    obtain ⟨hle, hlt⟩ := weighAll_mono cs fun u hu =>
      h u (nodes_eq (.node e cs) ▸ List.mem_cons_of_mem _ hu)
    rw [weigh_node, weigh_node]
    refine ⟨Nat.add_le_add hnode hle, ?_⟩
    rintro ⟨u, hu, hw⟩
    rw [nodes_eq, List.mem_cons] at hu
    rcases hu with rfl | hu
    · exact Nat.add_lt_add_of_lt_of_le hw hle
    · exact Nat.add_lt_add_of_le_of_lt hnode (hlt ⟨u, hu, hw⟩)

theorem weighAll_mono {w' : Element → Nat} : (ts : List Tree) →
    (∀ u ∈ nodesAll ts, w' u.element ≤ w u.element) →
    weighAll w' ts ≤ weighAll w ts ∧
      ((∃ u ∈ nodesAll ts, w' u.element < w u.element) → weighAll w' ts < weighAll w ts)
  | [], _ => by simp [nodesAll]
  | t :: ts, h => by
    obtain ⟨hle, hlt⟩ := weigh_mono t fun u hu => h u (by simp [nodesAll, hu])
    obtain ⟨hles, hlts⟩ := weighAll_mono ts fun u hu => h u (by simp [nodesAll, hu])
    rw [weighAll_cons, weighAll_cons]
    refine ⟨Nat.add_le_add hle hles, ?_⟩
    rintro ⟨u, hu, hw⟩
    rw [nodesAll, List.mem_append] at hu
    rcases hu with hu | hu
    · exact Nat.add_lt_add_of_lt_of_le (hlt ⟨u, hu, hw⟩) hles
    · exact Nat.add_lt_add_of_le_of_lt hle (hlts ⟨u, hu, hw⟩)

end

theorem weigh_eq_zero (t : Tree) (h : ∀ u ∈ t.nodes, w u.element = 0) : weigh w t = 0 := by
  have hzero : weigh (fun _ => 0) t = 0 := by
    induction t using children_induction with
    | h e cs ih =>
      rw [weigh_node, weighAll_eq_sum, Nat.zero_add, List.sum_eq_zero_iff_forall_eq_nat]
      rintro n hn
      obtain ⟨c, hc, rfl⟩ := List.mem_map.mp hn
      exact ih c hc fun u hu => h u (mem_nodes_of_child hc hu)
  have hle : weigh w t ≤ weigh (fun _ => 0) t :=
    (weigh_mono t fun u hu => Nat.le_of_eq (h u hu)).1
  omega

theorem element_le_weigh (h : u ∈ t.nodes) : w u.element ≤ weigh w t :=
  Nat.le_trans (weigh_eq u ▸ Nat.le_add_right ..) (weigh_node_mem t h)

end
end Tree

open Unscramble.Tree

variable {w : Element → Nat}

theorem Drawn.weigh_le {ts new : List Tree} (h : Drawn ts new) : weighAll w new ≤ weighAll w ts := by
  induction h with
  | nil => exact Nat.le_refl _
  | skip _ ih => rw [weighAll_cons]; exact Nat.le_add_left_of_le ih
  | take _ ih => simpa using ih
  | @enter t ts inner new _ _ ih ih' => rw [weighAll_append, weighAll_cons, weigh_eq]; omega

/-- Weights of kinds, as weights of elements. -/
def kindWeight (w : Kind → Nat) (e : Element) : Nat := w e.kind

/-- The elements of the conditional that a loop becomes. -/
def conditionalElements : List Element :=
  [⟨.ifElse, .ofList [], none⟩, ⟨.statementBlock, .ofList [], none⟩, ⟨.statements, .ofList [], none⟩]

theorem weigh_conditional (guard : Tree) (statements : List Tree) :
    weigh w (conditional guard statements) =
      (conditionalElements.map w).sum + weigh w guard + weighAll w statements := by
  simp [conditional, branch, conditionalElements]
  omega

/-- Weights for which a rule makes up nothing that is heavier than what it takes away. -/
structure Fair (w : Element → Nat) (r : Rule) : Prop where
  literal : ∀ {e : Element} {u}, Folds r e.kind → Literal r u → weigh w u ≤ w e
  loop : ∀ {loop list last : Element}, r = .deadBranches →
    loop.kind = .whileLoop ∨ loop.kind = .forLoop → list.kind = .statements →
    last.kind = .breakStatement → (conditionalElements.map w).sum ≤ w loop + w list + w last
  join : ∀ {e : Element}, r = .unaryJoin → e.kind = .unaryExpression →
    w (joinedElement e) + weigh w (stringTree .singleQuoted "") ≤ w e
  reversed : ∀ {e : Element}, r = .reverseConstArray → e.kind = .elements →
    w ⟨.elements, .ofList [], none⟩ ≤ w e
  value : ∀ {e : Element} {v : Value} {quoting}, r = .propagateConstants →
    e.kind = .variableRef → weigh w (v.toTree quoting) ≤ w e

section
variable {r : Rule} {above s : Tree} {new : List Tree}

/-- A loop that becomes a conditional loses the element of its body. -/
theorem Exchange.once_weigh_le {before statements : List Tree} {guard body list last : Tree}
    (hw : Fair w .deadBranches) (hkind : s.kind = .whileLoop ∨ s.kind = .forLoop)
    (hdrawn : Drawn s.children (before ++ [guard, body])) (hlist : list ∈ body.children)
    (hlkind : list.kind = .statements) (hcs : list.children = statements ++ [last])
    (hlast : last.kind = .breakStatement) :
    weighAll w (before ++ [conditional guard statements]) + w body.element ≤ weigh w s := by
  have hloop := hw.loop rfl hkind hlkind hlast
  have hparts := hdrawn.weigh_le (w := w)
  have hbody := weigh_le_weighAll (w := w) hlist
  rw [weigh_eq list, hcs] at hbody
  rw [weigh_eq s]
  simp only [weighAll_append, weighAll_cons, weighAll_nil, weigh_conditional, weigh_eq body] at *
  have hbreak := weigh_eq (w := w) last
  simp only [Tree.element] at *
  omega

theorem Exchange.weigh_le (hw : Fair w r) (h : Exchange r above s new) :
    weighAll w new ≤ weigh w s := by
  cases h with
  | emptyList | assignment | call => simp
  | inner _ hu _ => simpa [weigh_eq s] using Nat.le_add_left_of_le (weighAll_node_mem _ hu)
  | literal hk hu =>
    have h := hw.literal (e := s.element) hk hu
    rw [weigh_eq s, weighAll_cons, weighAll_nil]
    omega
  | decided _ hdrawn _ => exact weigh_eq s ▸ Nat.le_add_left_of_le hdrawn.weigh_le
  | once _ hkind hdrawn _ hlist hlkind hcs hlast =>
    exact Nat.le_of_add_right_le (once_weigh_le hw hkind hdrawn hlist hlkind hcs hlast)

theorem Update.weigh_le {t t' : Tree} (hw : Fair w r) (h : Update r t t') :
    weigh w t' ≤ weigh w t := by
  cases h with
  | arms _ hsub => simpa using weighAll_sublist hsub
  | join he =>
    have h := hw.join rfl he
    simp only [weigh_node, weighAll_cons, weighAll_nil]
    omega
  | reversed he => simpa [branch, weighAll_reverse] using hw.reversed rfl he
  | value hk => exact weigh_eq t ▸ Nat.le_add_right_of_le (hw.value rfl hk)

theorem Splice.weigh_le_add {R : Tree → Tree → List Tree → Prop} {t t' : Tree} {n : Nat}
    (hR : ∀ above s new, R above s new → weighAll w new ≤ weigh w s + n) (h : Splice R t t') :
    weigh w t' ≤ weigh w t + n := by
  obtain ⟨h⟩ := h
  have h := hR _ _ _ h
  simp only [weigh_node, weighAll_append, weighAll_cons]
  omega

theorem LocalStep.weigh_le {t t' : Tree} (hw : Fair w r) (h : LocalStep r t t') :
    weigh w t' ≤ weigh w t := by
  cases h with
  | exchange h => exact h.weigh_le_add (n := 0) fun _ _ _ h => h.weigh_le hw
  | update h => exact h.weigh_le hw

end

theorem Within.weigh_le_add {U : Tree → Tree → Prop} {t t' : Tree} {n : Nat}
    (hU : ∀ s s', U s s' → weigh w s' ≤ weigh w s + n) (h : Within U t t') :
    weigh w t' ≤ weigh w t + n := by
  induction h with
  | here h => exact hU _ _ h
  | inside _ ih =>
    simp only [weigh_node, weighAll_append, weighAll_cons]
    omega

/-- A measure that no local change makes bigger. -/
theorem Within.weigh_le {U : Tree → Tree → Prop} {t t' : Tree}
    (hU : ∀ s s', U s s' → weigh w s' ≤ weigh w s) (h : Within U t t') : weigh w t' ≤ weigh w t :=
  h.weigh_le_add (n := 0) hU

theorem Within.weigh_lt {U : Tree → Tree → Prop} {t t' : Tree}
    (hU : ∀ s s', U s s' → weigh w s' < weigh w s) (h : Within U t t') : weigh w t' < weigh w t := by
  induction h with
  | here h => exact hU _ _ h
  | inside _ ih => simpa using ih

theorem Changes.weigh_le {U : Tree → Tree → Prop} {t t' : Tree}
    (hU : ∀ s s', U s s' → weigh w s' ≤ weigh w s) (h : Changes U t t') :
    weigh w t' ≤ weigh w t :=
  h.keeps (P := fun s => weigh w s ≤ weigh w t) (fun _ _ h hs => Nat.le_trans (h.weigh_le hU) hs)
    (Nat.le_refl _)

theorem Changes.weigh_lt {U : Tree → Tree → Prop} {t t' : Tree}
    (hU : ∀ s s', U s s' → weigh w s' < weigh w s) (h : Changes U t t') :
    weigh w t' < weigh w t := by
  induction h with
  | single h => exact h.weigh_lt hU
  | tail _ h ih => exact Nat.lt_trans (h.weigh_lt hU) ih

end Unscramble
