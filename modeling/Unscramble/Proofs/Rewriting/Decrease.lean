import Unscramble.Proofs.Rewriting.Statements
import Unscramble.Proofs.Rewriting.Weight

/-! What the rules that change the shape of a tree make smaller. Most of them take away an operation,
constant propagation takes away variables, and the others take away nodes. -/
namespace Unscramble

open Simplify Unscramble.Tree

/-- Literals weigh nothing, and a unary operation more than the binary one it may become. -/
def operationKind : Kind → Nat
  | .unaryExpression => 2
  | .stringConstant | .constant | .arrayLiteral | .elements | .variableRef | .typeExpression => 0
  | _ => 1

def variableKind : Kind → Nat
  | .variableRef => 1
  | _ => 0

def anyKind : Kind → Nat := fun _ => 1

/-- The kinds of node that the literal for a value is made of. -/
def valueKinds : List Kind := [.stringConstant, .constant, .arrayLiteral, .elements]

mutual

theorem weigh_toTree_eq_zero {w : Element → Nat}
    (hw : ∀ e : Element, e.kind ∈ valueKinds → w e = 0) (quoting : Quoting) :
    (v : Value) → weigh w (v.toTree quoting) = 0
  | .text _ => by
    rw [Value.toTree, stringTree, leaf, weigh_node, weighAll_nil, hw _ (by simp [valueKinds])]
  | .int _ => by
    rw [Value.toTree, intTree, leaf, weigh_node, weighAll_nil, hw _ (by simp [valueKinds])]
  | .list items => by
    rw [Value.toTree, branch, weigh_node, weighAll_cons, weighAll_nil, branch, weigh_node,
      weighAll_toTrees_eq_zero hw items, hw _ (by simp [valueKinds]), hw _ (by simp [valueKinds])]

theorem weighAll_toTrees_eq_zero {w : Element → Nat}
    (hw : ∀ e : Element, e.kind ∈ valueKinds → w e = 0) :
    (vs : List Value) → weighAll w (Value.toTrees vs) = 0
  | [] => weighAll_nil
  | v :: vs => by
    rw [Value.toTrees, weighAll_cons, weigh_toTree_eq_zero hw .singleQuoted v,
      weighAll_toTrees_eq_zero hw vs]

end

theorem weigh_toTree_kind {w : Kind → Nat} (hw : ∀ k ∈ valueKinds, w k = 0) (quoting : Quoting)
    (v : Value) : weigh (kindWeight w) (v.toTree quoting) = 0 :=
  weigh_toTree_eq_zero (fun e he => hw e.kind he) quoting v

theorem Literal.operation {r : Rule} {u : Tree} (h : Literal r u) :
    weigh (kindWeight operationKind) u = 0 := by
  cases h with
  | value v quoting => exact weigh_toTree_kind (by decide) quoting v
  | truth | type => simp [boolTree, leaf, kindWeight, operationKind]

theorem fair_operation (r : Rule) : Fair (kindWeight operationKind) r where
  literal _ hu := by simp [hu.operation]
  loop _ hloop hlist hlast := by
    rcases hloop with h | h <;>
      simp [conditionalElements, kindWeight, h, hlist, hlast, operationKind]
  join _ hkind := by simp [kindWeight, hkind, operationKind, joinedElement, stringTree, leaf]
  reversed _ hkind := by simp [kindWeight, hkind, operationKind]
  value {_ v quoting} _ _ := by
    simp [weigh_toTree_kind (w := operationKind) (by decide) quoting v]

theorem fair_variable {r : Rule} (hr : r ≠ .foldBinary) : Fair (kindWeight variableKind) r where
  literal {_ u} _ hu := by
    have hzero : weigh (kindWeight variableKind) u = 0 := by
      cases hu with
      | value v quoting => exact weigh_toTree_kind (by decide) quoting v
      | truth => exact absurd rfl hr
      | type => simp [leaf, kindWeight, variableKind]
    omega
  loop _ _ _ _ := by simp [conditionalElements, kindWeight, variableKind]
  join _ _ := by simp [kindWeight, variableKind, joinedElement, stringTree, leaf]
  reversed _ _ := by simp [kindWeight, variableKind]
  value {_ v quoting} _ _ := by
    simp [weigh_toTree_kind (w := variableKind) (by decide) quoting v]

/-- The rules that take nodes away without making up any. -/
def dropsNodes (r : Rule) : Bool := r == .unwrapSingleArray || r == .deadBranches

theorem Folds.dropsNodes {r : Rule} {k : Kind} (h : Folds r k) : dropsNodes r = false := by
  cases h <;> rfl

theorem fair_any {r : Rule} (hr : dropsNodes r = true) : Fair (kindWeight anyKind) r where
  literal hfolds _ := by simp [hfolds.dropsNodes] at hr
  loop _ _ _ _ := by simp [conditionalElements, kindWeight, anyKind]
  join hjoin _ := by subst hjoin; cases hr
  reversed hreverse _ := by subst hreverse; cases hr
  value hvalue _ := by subst hvalue; cases hr

/-! ### Strict decreases -/

section
variable {r : Rule} {above s t t' : Tree} {new : List Tree}

theorem Unwraps.operation {k : Kind} (h : Unwraps r k) (hr : dropsNodes r = false) :
    operationKind k = 1 := by
  cases h <;> first | rfl | cases hr

theorem Folds.operation {k : Kind} (h : Folds r k) : operationKind k = 1 := by
  cases h <;> rfl

theorem isOptionalList_operation {k : Kind} (h : isOptionalList k = true) : operationKind k = 1 := by
  cases k <;> first | rfl | cases h

/-- A rule that puts something in the place of an operation takes the operation away. -/
theorem Exchange.operation_lt (h : Exchange r above s new) (hr : dropsNodes r = false) :
    weighAll (kindWeight operationKind) new < weigh (kindWeight operationKind) s := by
  rw [weigh_eq s]
  cases h with
  | emptyList hs =>
    simp only [isEmptyOptional, Bool.and_eq_true] at hs
    have hone : kindWeight operationKind s.element = 1 := isOptionalList_operation hs.1
    rw [weighAll_nil]
    omega
  | assignment _ hs =>
    have hone : kindWeight operationKind s.element = 1 := by
      rw [kindWeight, show s.element.kind = .assignment from hs]; rfl
    rw [weighAll_nil]
    omega
  | inner hunwraps hu _ =>
    have hone : kindWeight operationKind s.element = 1 := hunwraps.operation hr
    have hle := weighAll_node_mem (w := kindWeight operationKind) s.children hu
    rw [weighAll_cons, weighAll_nil]
    omega
  | literal hfolds hu =>
    have hone : kindWeight operationKind s.element = 1 := hfolds.operation
    rw [weighAll_cons, weighAll_nil, hu.operation]
    omega
  | decided | once => cases hr
  | @call _ _ call _ hmem hkind =>
    have hone : kindWeight operationKind call.element = 1 := by
      rw [kindWeight, show call.element.kind = .invokeMember from hkind]; rfl
    have hle := element_le_weigh (w := kindWeight operationKind) hmem
    rw [weigh_eq s] at hle
    rw [weighAll_nil]
    omega

theorem Splice.weigh_lt {w : Element → Nat} {R : Tree → Tree → List Tree → Prop} {t t' : Tree}
    (hR : ∀ above s new, R above s new → weighAll w new < weigh w s) (h : Splice R t t') :
    weigh w t' < weigh w t := by
  obtain ⟨h⟩ := h
  have h := hR _ _ _ h
  simp only [weigh_node, weighAll_append, weighAll_cons]
  omega

theorem LocalStep.operation_lt (h : LocalStep r t t') (hr : dropsNodes r = false)
    (hreverse : r ≠ .reverseConstArray) (hpropagate : r ≠ .propagateConstants) :
    weigh (kindWeight operationKind) t' < weigh (kindWeight operationKind) t := by
  cases h with
  | exchange h => exact h.weigh_lt fun _ _ _ h => h.operation_lt hr
  | update h =>
    cases h with
    | arms => cases hr
    | join hkind => simp [kindWeight, hkind, operationKind, joinedElement, stringTree, leaf]
    | reversed => exact absurd rfl hreverse
    | value => exact absurd rfl hpropagate

/-- The reversal of an array keeps its weight, and the call has one. -/
theorem reverseConstArray_operation_lt (h : reverseConstArray t = some t') :
    weigh (kindWeight operationKind) t' < weigh (kindWeight operationKind) t := by
  obtain ⟨m, hreverse, hcall⟩ := reverseConstArray_within h
  have hle := hreverse.weigh_le fun _ _ h => h.weigh_le (fair_operation .reverseConstArray)
  have hlt := hcall.weigh_lt (w := kindWeight operationKind) fun _ _ h =>
    h.weigh_lt fun _ _ _ h => h.operation_lt rfl
  omega

/-- Every step of constant propagation puts a literal in the place of a variable. -/
theorem LocalStep.variable_lt (h : LocalStep .propagateConstants t t') :
    weigh (kindWeight variableKind) t' < weigh (kindWeight variableKind) t := by
  cases h with
  | exchange h =>
    obtain ⟨h⟩ := h
    cases h with
    | inner hunwraps => cases hunwraps
    | literal hfolds => cases hfolds
  | update h =>
    cases h with
    | @value _ quoting v hkind =>
      have hone : kindWeight variableKind t.element = 1 := by
        rw [kindWeight, show t.element.kind = .variableRef from hkind]; rfl
      rw [weigh_toTree_kind (by decide) quoting v, weigh_eq t]
      omega

theorem weighAll_sublist_any {ss ts : List Tree} (h : ss.Sublist ts) :
    weighAll (kindWeight anyKind) ss + (ts.length - ss.length) ≤ weighAll (kindWeight anyKind) ts := by
  induction h with
  | slnil => simp
  | @cons ss ts t h ih =>
    have hlength := h.length_le
    have hone : kindWeight anyKind t.element = 1 := rfl
    rw [weighAll_cons, weigh_eq t, List.length_cons]
    omega
  | @cons_cons ss ts t h ih =>
    rw [weighAll_cons, weighAll_cons, List.length_cons, List.length_cons]
    omega

theorem LocalStep.any_lt (h : LocalStep r t t') (hr : dropsNodes r = true) :
    weigh (kindWeight anyKind) t' < weigh (kindWeight anyKind) t := by
  have hone (u : Tree) : kindWeight anyKind u.element = 1 := rfl
  cases h with
  | exchange h =>
    refine h.weigh_lt fun above s new h => ?_
    cases h with
    | emptyList | assignment | call => cases hr
    | inner _ hu =>
      have hle := weighAll_node_mem (w := kindWeight anyKind) _ hu
      rw [weighAll_cons, weighAll_nil, weigh_eq s, hone]
      omega
    | literal hfolds => simp [hfolds.dropsNodes] at hr
    | decided _ hdrawn =>
      have hle := hdrawn.weigh_le (w := kindWeight anyKind)
      rw [weigh_eq s, hone]
      omega
    | @once _ _ _ _ body _ _ _ _ hkind hdrawn _ hlist hlkind hcs hlast =>
      have hle := Exchange.once_weigh_le (fair_any hr) hkind hdrawn hlist hlkind hcs hlast
      rw [hone] at hle
      omega
  | update h =>
    cases h with
    | arms _ hsub _ hless =>
      have hle := weighAll_sublist_any hsub
      rw [weigh_node, weigh_node]
      omega
    | join | reversed | value => cases hr

end
end Unscramble
