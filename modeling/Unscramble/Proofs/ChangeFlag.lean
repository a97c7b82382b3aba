import Unscramble.Proofs.Rewriting.Catalog
import Unscramble.Proofs.Spelling.NewNames
import Unscramble.Proofs.Termination

/-! A rule reports a change exactly if it changes the tree. What a rule about the shape of a tree does
makes one of the measures smaller, and so do the rules about spelling with a table of words. A name is
replaced by another one because no name is remembered as its own replacement. -/
namespace Unscramble

open Simplify Unscramble.Tree

/-- A tree, and what the rules remember. -/
structure Situation where
  tree : Tree
  memory : Memory := {}

namespace Situation

/-- One call of a rule. The tree stays if the rule has no match. -/
def apply (context : Context) (rule : Rule) (s : Situation) : Situation :=
  let (new, memory) := rule.apply context s.memory s.tree
  ⟨new.getD s.tree, memory⟩

/-- Whether the call reports a change. -/
def reports (context : Context) (rule : Rule) (s : Situation) : Bool :=
  (rule.apply context s.memory s.tree).1.isSome

end Situation

/-- What rules can remember: they may have been called before with any trees, settings and parsers. -/
inductive Reachable : Memory → Prop
  | start : Reachable {}
  | apply {memory} (context : Context) (rule : Rule) (t : Tree) :
      Reachable memory → Reachable (rule.apply context memory t).2

section
variable {context : Context} {memory : Memory} {rule : Rule} {t t' : Tree}

/-! ### What is remembered -/

theorem inlineFirst_renamed (parser : Parser) (candidates : List (Place × String)) :
    (inlineFirst parser memory candidates).2.renamed = memory.renamed := by
  induction candidates generalizing memory with
  | nil => rfl
  | cons candidate rest ih =>
    rw [inlineFirst]
    split
    · rfl
    · exact ih

theorem Reachable.newNames (h : Reachable memory) : NewNames memory := by
  induction h with
  | start => simp [NewNames]
  | apply context rule t _ ih =>
    cases rule with
    | inlineInvokeExpression =>
      rw [Rule.apply, inlineInvokeExpression]
      split
      · unfold NewNames
        rwa [inlineFirst_renamed]
      · exact ih
    | renameLongNames => exact ih.rename
    | _ => exact ih

/-! ### Matches -/

theorem Smaller.ne {threshold : Nat} (h : Smaller threshold t' t) : t' ≠ t := by
  rintro rfl
  exact (wellFounded_smaller threshold).asymmetric _ _ h h

/-- What a rule about spelling does does not depend on how long long names are, but for one. -/
theorem Spells.of_threshold {m n : Nat} {r : Rule} {e' : Element} (h : Spells m r t e')
    (hname : r ≠ .renameLongNames) : Spells n r t e' := by
  cases h with
  | drive hbare hnew => exact .drive hbare hnew
  | path hpath hnew => exact .path hpath hnew
  | case hbare hne => exact .case hbare hne
  | member hquoted hword => exact .member hquoted hword
  | command hquoted => exact .command hquoted
  | expand hbare htarget => exact .expand hbare htarget
  | special hpath hspecial hne => exact .special hpath hspecial hne
  | constraint => exact .constraint
  | type hkind hname hne => exact .type hkind hname hne
  | name => exact absurd rfl hname

theorem Spelled.rank_lt (h : Changes (Spelled rule) t t') (hconstraint : rule ≠ .typeConstraintFromConvert)
    (hname : rule ≠ .renameLongNames) : weigh (rank 30) t' < weigh (rank 30) t :=
  h.weigh_lt fun _ _ ⟨h⟩ => by
    simpa using (h.of_threshold hname).rank_lt (Nat.le_refl 30) hconstraint hname

mutual

/-- A respelling that gives every node it has a match for another element changes the tree. -/
theorem respellFrom?_ne {f : Respelling} {above : Option (Tree × Nat)} : (t : Tree) → {t' : Tree} →
    (∀ s ∈ t.nodes, ∀ above, f above s ≠ some s.element) → t.respellFrom? f above = some t' → t' ≠ t
  | .node e cs, t', hf, h => by
    have hcs : ∀ s ∈ nodesAll cs, ∀ above, f above s ≠ some s.element := fun s hs =>
      hf s (nodes_eq (.node e cs) ▸ List.mem_cons_of_mem _ hs)
    simp only [respellFrom?, Option.ite_none_right_eq_some, Option.some.injEq] at h
    obtain ⟨hsome, rfl⟩ := h
    rw [ne_eq, Tree.node.injEq, not_and_or]
    cases hhere : f above (.node e cs) with
    | some e' =>
      refine .inl fun heq => hf _ (mem_nodes_self _) above ?_
      rw [hhere, element_node, ← heq, Option.getD_some]
    | none =>
      cases hbelow : respellAll? f (.node e cs) 0 cs with
      | none => simp [hhere, hbelow] at hsome
      | some cs' => exact .inr (respellAll?_ne cs hcs hbelow)

theorem respellAll?_ne {f : Respelling} {above : Tree} {i : Nat} : (ts : List Tree) →
    {ts' : List Tree} → (∀ s ∈ nodesAll ts, ∀ above, f above s ≠ some s.element) →
    respellAll? f above i ts = some ts' → ts' ≠ ts
  | [], _, _, h => by simp [respellAll?] at h
  | t :: ts, ts', hf, h => by
    have ht : ∀ s ∈ t.nodes, ∀ above, f above s ≠ some s.element := fun s hs =>
      hf s (by simp [nodesAll, hs])
    have hts : ∀ s ∈ nodesAll ts, ∀ above, f above s ≠ some s.element := fun s hs =>
      hf s (by simp [nodesAll, hs])
    simp only [respellAll?, Option.ite_none_right_eq_some, Option.some.injEq] at h
    obtain ⟨hsome, rfl⟩ := h
    rw [ne_eq, List.cons.injEq, not_and_or]
    cases hhere : t.respellFrom? f (some (above, i)) with
    | some t' => exact .inl (respellFrom?_ne t ht hhere)
    | none =>
      cases hrest : respellAll? f above (i + 1) ts with
      | none => simp [hhere, hrest] at hsome
      | some ts' => exact .inr (respellAll?_ne ts hts hrest)

end

theorem renameLongNames_ne {threshold : Nat} (h : NewNames memory)
    (ht : (renameLongNames threshold memory t).1 = some t') : t' ≠ t :=
  respellFrom?_ne t (fun _ hs _ => renamedElement?_ne h hs) ht

/-- A match leads to another tree. -/
theorem Rule.apply_ne (hparser : context.parser = none) (h : Reachable memory)
    (ht : (rule.apply context memory t).1 = some t') : t' ≠ t := by
  cases Rule.apply_application ht with
  | steps hsteps =>
    by_cases hreverse : rule = .reverseConstArray
    · subst hreverse
      rintro rfl
      exact absurd (reverseConstArray_operation_lt ht) (Nat.lt_irrefl _)
    · have hsmaller : Smaller 30 t' t := smaller_of_steps hsteps hreverse
      exact hsmaller.ne
  | spelling hspelling =>
    by_cases hname : rule = .renameLongNames
    · subst hname
      exact renameLongNames_ne h.newNames ht
    by_cases hconstraint : rule = .typeConstraintFromConvert
    · subst hconstraint
      have hsmaller : Smaller 30 t' t := typeConstraintFromConvert_smaller ht
      exact hsmaller.ne
    · rintro rfl
      exact absurd (Spelled.rank_lt hspelling hconstraint hname) (Nat.lt_irrefl _)
  | graft hsome => simp [hparser] at hsome

end

end Unscramble
