import Mathlib.Data.List.Forall2
import Unscramble.Proofs.Literals.ReadBack
import Unscramble.Proofs.NormalForm
import Unscramble.Proofs.Rewriting.Decrease

/-! Expressions of literals, and what they come to. Dropping the grouping around a literal and folding
an operation in any place leaves an expression that comes to the same value, and where nothing of the
kind is left to do the expression is a literal. -/
namespace Unscramble

open Simplify Unscramble.Tree

/-! ### Values of operations -/

section
variable {a b v : Value} {operator : Operator} {quoting : Quoting}

theorem Value.IsFlat.of_isScalar (h : v.isScalar = true) : v.IsFlat := by
  cases v with
  | text | int => simp [IsFlat, asList, isScalar]
  | list => cases h

theorem add?_flat (ha : a.IsFlat) (hb : b.IsFlat) (h : add? a b = some v) : v.IsFlat := by
  unfold add? at h
  split at h
  next => cases h; exact .of_isScalar rfl
  next =>
    obtain ⟨n, -, rfl⟩ := Option.map_eq_some_iff.mp h
    exact .of_isScalar rfl
  next =>
    obtain ⟨n, -, rfl⟩ := Option.map_eq_some_iff.mp h
    exact .of_isScalar rfl
  next => cases h
  next =>
    cases h
    exact fun item hitem => (List.mem_append.mp hitem).elim (ha item) (hb item)
  next hlist =>
    cases h
    have hscalar : b.isScalar = true := by
      cases b with
      | text | int => rfl
      | list items => exact absurd rfl (hlist items)
    intro item hitem
    rcases List.mem_append.mp hitem with hitem | hitem
    · exact ha item hitem
    · rwa [List.mem_singleton.mp hitem]

/-- Operations on scalars and lists of scalars come to such values again. -/
theorem evaluate?_flat (ha : a.IsFlat) (hb : b.IsFlat) (h : evaluate? operator a b = some v) :
    v.IsFlat := by
  unfold evaluate? at h
  split at h
  case h_1 => exact add?_flat ha hb h
  case h_11 | h_12 =>
    split at h
    next =>
      obtain ⟨parts, hparts, rfl⟩ := Option.map_eq_some_iff.mp h
      obtain ⟨-, hparts⟩ := Option.ite_none_right_eq_some.mp hparts
      cases hparts
      intro item hitem
      obtain ⟨part, -, rfl⟩ := List.mem_map.mp hitem
      rfl
    next => cases h
  case h_13 =>
    split at h
    next => cases h; exact .of_isScalar rfl
    next => cases h
  case h_14 => cases h
  all_goals
    obtain ⟨result, -, rfl⟩ := Option.map_eq_some_iff.mp h
    exact .of_isScalar rfl

theorem fold?_flat (ha : a.IsFlat) (hb : b.IsFlat)
    (h : fold? operator a b = some (.value v quoting)) : v.IsFlat := by
  unfold fold? at h
  split at h
  next =>
    obtain ⟨truth, -, heq⟩ := Option.map_eq_some_iff.mp h
    cases heq
  next =>
    obtain ⟨result, hresult, heq⟩ := Option.map_eq_some_iff.mp h
    cases heq
    exact evaluate?_flat ha hb hresult

theorem isScalar_of_mapM {ts : List Tree} {vs : List Value} (h : ts.mapM scalar? = some vs) :
    ∀ v ∈ vs, v.isScalar = true := by
  induction ts generalizing vs with
  | nil => cases h; simp
  | cons t ts ih =>
    rw [List.mapM_cons] at h
    obtain ⟨v, hv, h⟩ := Option.bind_eq_some_iff.mp h
    obtain ⟨rest, hrest, h⟩ := Option.bind_eq_some_iff.mp h
    cases h
    exact List.forall_mem_cons.mpr ⟨Scripts.isScalar_of_scalar? hv, ih hrest⟩

theorem isFlat_of_literal? {t : Tree} (h : t.literal? = some v) : v.IsFlat := by
  unfold literal? at h
  split at h
  next =>
    obtain ⟨items, hitems, rfl⟩ := Option.map_eq_some_iff.mp h
    obtain ⟨elements, -, hitems⟩ := Option.bind_eq_some_iff.mp hitems
    exact isScalar_of_mapM hitems
  next => exact .of_isScalar (Scripts.isScalar_of_scalar? h)

end

/-! ### Expressions -/

/-- An expression of literals comes to a value. Nothing on the way is a truth value or holds the least
number, which cannot be written down. -/
inductive Evaluates : Tree → Value → Prop
  | literal {t v} : (∀ s ∈ t.nodes, s.kind ∈ valueKinds) → t.literal? = some v →
      .int Int64.minValue ∉ v.asList → Evaluates t v
  | group {e c t v} : e.kind = .parenExpression → LeadsTo c t → Evaluates t v →
      Evaluates (.node e [c]) v
  | operation {e left right operator a b v quoting} : e.kind = .binaryExpression →
      e.operator? = some operator → Evaluates left a → Evaluates right b →
      fold? operator a b = some (.value v quoting) → .int Int64.minValue ∉ v.asList →
      Evaluates (.node e [left, right]) v

/-! ### Contractions -/

/-- What grouping and folding put in the place of a node. -/
inductive Contracts : Tree → Tree → Prop
  | paren {e c u} : e.kind = .parenExpression → LeadsTo c u → isSelfDelimited u.kind = true →
      Contracts (.node e [c]) u
  | pipeline {e c} : e.kind = .pipeline → c.kind ≠ .pipelineElements → Contracts (.node e [c]) c
  | element {e e' c} : e.kind = .pipeline → e'.kind = .pipelineElements →
      Contracts (.node e [.node e' [c]]) c
  | operation {e left right rest operator v w folded} : e.kind = .binaryExpression →
      e.operator? = some operator → left.literal? = some v → right.literal? = some w →
      fold? operator v w = some folded → Contracts (.node e (left :: right :: rest)) folded.toTree

/-- The kinds of node that something else is put in the place of. -/
def contractedKind : Kind → Nat
  | .parenExpression | .pipeline | .binaryExpression => 1
  | _ => 0

section
variable {s u t t' : Tree} {v : Value}

theorem LeadsTo.mem_nodes (h : LeadsTo t u) : u ∈ t.nodes := by
  induction h with
  | refl => exact mem_nodes_self _
  | step _ _ ih => exact mem_nodes_of_child (by simp) ih

theorem weigh_contractedKind_literal (folded : Folded) :
    weigh (kindWeight contractedKind) folded.toTree = 0 := by
  cases folded with
  | value v quoting => exact weigh_toTree_kind (by decide) quoting v
  | truth => simp [Folded.toTree, boolTree, leaf, kindWeight, contractedKind]

theorem Contracts.kind (h : Contracts s u) : contractedKind s.kind = 1 := by
  cases h with
  | paren hkind | pipeline hkind | element hkind | operation hkind => simp [hkind, contractedKind]

/-- Every contraction leaves fewer groupings and operations. -/
theorem Contracts.weigh_lt (h : Contracts s u) :
    weigh (kindWeight contractedKind) u < weigh (kindWeight contractedKind) s := by
  have hs : kindWeight contractedKind s.element = 1 := h.kind
  rw [weigh_eq s, hs]
  cases h with
  | @paren e c u _ hlead _ =>
    have hle : weigh (kindWeight contractedKind) u ≤ weigh (kindWeight contractedKind) c :=
      weigh_node_mem c hlead.mem_nodes
    simp only [children_node, weighAll_cons, weighAll_nil]
    omega
  | pipeline | element =>
    simp only [children_node, weigh_node, weighAll_cons, weighAll_nil]
    omega
  | operation =>
    rw [weigh_contractedKind_literal]
    omega

/-! ### Values of expressions -/

theorem kind_of_mem_toTree (quoting : Quoting) (v : Value) :
    ∀ s ∈ (v.toTree quoting).nodes, s.kind ∈ valueKinds := by
  intro s hs
  by_contra hkind
  have hzero := weigh_toTree_kind (w := fun k => if k ∈ valueKinds then 0 else 1)
    (fun k hk => if_pos hk) quoting v
  have hle := element_le_weigh (w := kindWeight fun k => if k ∈ valueKinds then 0 else 1) hs
  rw [hzero, kindWeight, if_neg (by exact hkind)] at hle
  exact absurd hle (by decide)

theorem Evaluates.of_toTree (hflat : v.IsFlat) (hmin : .int Int64.minValue ∉ v.asList)
    (quoting : Quoting) : Evaluates (v.toTree quoting) v :=
  .literal (kind_of_mem_toTree quoting v) ((Value.literal?_toTree_iff hflat quoting).mpr hmin) hmin

theorem Evaluates.isFlat (h : Evaluates t v) : v.IsFlat := by
  induction h with
  | literal _ hv _ => exact isFlat_of_literal? hv
  | group _ _ _ ih => exact ih
  | operation _ _ _ _ hfold _ iha ihb => exact fold?_flat iha ihb hfold

theorem Evaluates.not_part (h : Evaluates t v) : isPipelinePart t.kind = false := by
  cases h with
  | literal _ hv _ => obtain h | h | h := Scripts.kind_of_literal? hv <;> simp [h, isPipelinePart]
  | group hkind | operation hkind => simp [hkind, isPipelinePart]

/-- A literal that an expression is stands for the value of the expression. -/
theorem Evaluates.eq_of_literal? {w : Value} (h : Evaluates t v) (hw : t.literal? = some w) : w = v := by
  cases h with
  | literal _ hv _ => exact Option.some.inj (hw.symm.trans hv)
  | group hkind | operation hkind => obtain h | h | h := Scripts.kind_of_literal? hw <;> simp [hkind] at h

/-! ### Changes inside an expression -/

/-- A change of a node or in one of its children. -/
theorem Within.cases_node {U : Tree → Tree → Prop} {e : Element} {cs : List Tree}
    (h : Within U (.node e cs) t') : U (.node e cs) t' ∨
      ∃ cs', t' = .node e cs' ∧ List.Forall₂ (Relation.ReflGen (Within U)) cs cs' := by
  cases h with
  | here h => exact .inl h
  | inside h =>
    refine .inr ⟨_, rfl, ?_⟩
    exact List.rel_append (List.forall₂_refl _) (.cons (.single h) (List.forall₂_refl _))

theorem forall₂_singleton {α β : Type} {R : α → β → Prop} {a : α} {bs : List β}
    (h : List.Forall₂ R [a] bs) : ∃ b, R a b ∧ bs = [b] := by
  cases h with
  | cons hab hnil => cases hnil; exact ⟨_, hab, rfl⟩

/-- A chain that grouping is dropped from leads to the same expression. -/
theorem LeadsTo.within {c c' : Tree} (h : LeadsTo c t) (hpart : isPipelinePart t.kind = false)
    (hstep : Within Contracts c c') :
    ∃ t', LeadsTo c' t' ∧ Relation.ReflGen (Within Contracts) t t' := by
  induction h generalizing c' with
  | refl => exact ⟨c', .refl _, .single hstep⟩
  | @step e c t he hlead ih =>
    obtain hcontracts | ⟨cs', rfl, hcs⟩ := hstep.cases_node
    · cases hcontracts with
      | paren hkind => simp [hkind, isPipelinePart] at he
      | pipeline => exact ⟨t, hlead, .refl⟩
      | element _ hkind =>
        cases hlead with
        | refl => simp [hkind, isPipelinePart] at hpart
        | step _ hlead => exact ⟨t, hlead, .refl⟩
    · obtain ⟨c', ⟨-⟩ | hc, rfl⟩ := forall₂_singleton hcs
      · exact ⟨t, .step he hlead, .refl⟩
      · obtain ⟨t', hlead', hstep'⟩ := ih hpart hc
        exact ⟨t', .step he hlead', hstep'⟩

/-- What an expression comes to does not change while it is simplified. -/
theorem Evaluates.within (h : Evaluates t v) (hstep : Within Contracts t t') : Evaluates t' v := by
  induction h generalizing t' with
  | @literal t v hkinds _ _ =>
    have hzero : weigh (kindWeight contractedKind) t = 0 := by
      refine weigh_eq_zero t fun s hs => ?_
      have hvalue : ∀ k ∈ valueKinds, contractedKind k = 0 := by decide
      exact hvalue s.kind (hkinds s hs)
    have hlt := hstep.weigh_lt fun _ _ h => h.weigh_lt
    omega
  | @group e c t v hkind hlead ht ih =>
    obtain hcontracts | ⟨cs', rfl, hcs⟩ := hstep.cases_node
    · cases hcontracts with
      | paren _ hother hself =>
        have hcore := pipelineCore?_of_leadsTo hother (not_part_of_isSelfDelimited hself)
        rw [pipelineCore?_of_leadsTo hlead ht.not_part] at hcore
        cases hcore
        exact ht
      | pipeline hother | element hother => rw [hkind] at hother; cases hother
    · obtain ⟨c', ⟨-⟩ | hc, rfl⟩ := forall₂_singleton hcs
      · exact .group hkind hlead ht
      · obtain ⟨t', hlead', ⟨-⟩ | ht'⟩ := hlead.within ht.not_part hc
        · exact .group hkind hlead' ht
        · exact .group hkind hlead' (ih ht')
  | @operation e left right operator a b v quoting hkind hoperator ha hb hfold hmin iha ihb =>
    obtain hcontracts | ⟨cs', rfl, hcs⟩ := hstep.cases_node
    · have hflat := fold?_flat ha.isFlat hb.isFlat hfold
      cases hcontracts with
      | operation _ hoperator' ha' hb' hfold' =>
        cases hoperator.symm.trans hoperator'
        cases ha.eq_of_literal? ha'
        cases hb.eq_of_literal? hb'
        cases hfold.symm.trans hfold'
        exact .of_toTree hflat hmin quoting
    · cases hcs with
      | cons hleft hcs =>
        obtain ⟨right', hright, rfl⟩ := forall₂_singleton hcs
        refine .operation hkind hoperator ?_ ?_ hfold hmin
        · obtain ⟨-⟩ | hleft := hleft
          exacts [ha, iha hleft]
        · obtain ⟨-⟩ | hright := hright
          exacts [hb, ihb hright]

/-- An expression that cannot be simplified is a literal. -/
theorem Evaluates.literal?_of_irreducible (h : Evaluates t v)
    (hnone : ∀ s ∈ t.nodes, ∀ u, ¬ Contracts s u) : t.literal? = some v := by
  induction h with
  | literal _ hv _ => exact hv
  | @group e c t v hkind hlead _ ih =>
    have hmem : ∀ s ∈ t.nodes, s ∈ (Tree.node e [c]).nodes := fun s hs =>
      mem_nodes_of_child (by simp) (mem_nodes_trans c hlead.mem_nodes hs)
    have hliteral := ih fun s hs => hnone s (hmem s hs)
    have hself : isSelfDelimited t.kind = true := by
      obtain h | h | h := Scripts.kind_of_literal? hliteral <;> simp [h, isSelfDelimited]
    exact absurd (.paren hkind hlead hself) (hnone _ (mem_nodes_self _) t)
  | @operation e left right _ _ _ _ _ hkind hoperator _ _ hfold _ iha ihb =>
    have ha := iha fun s hs => hnone s (mem_nodes_of_child (by simp) hs)
    have hb := ihb fun s hs => hnone s (mem_nodes_of_child (by simp) hs)
    exact absurd (.operation hkind hoperator ha hb hfold) (hnone _ (mem_nodes_self _) _)

end
end Unscramble
