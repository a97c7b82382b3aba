import Unscramble.Proofs.Rewriting.LocalStep

/-! The walk of constant propagation changes nothing, or puts literals where variables were. -/
namespace Unscramble

open Simplify

/-- Nothing was replaced and a flag stays as it was, or something was and the flag is set. -/
def Tracked (U : Tree → Tree → Prop) (before after : Bool) (t t' : Tree) : Prop :=
  (after = before ∧ t' = t) ∨ (after = true ∧ Changes U t t')

namespace Tracked
variable {U : Tree → Tree → Prop} {a b c : Bool} {t u v : Tree}

theorem refl : Tracked U a a t t := .inl ⟨rfl, rfl⟩

theorem trans (h : Tracked U a b t u) (k : Tracked U b c u v) : Tracked U a c t v := by
  rcases h with ⟨rfl, rfl⟩ | ⟨rfl, h⟩
  · exact k
  · rcases k with ⟨rfl, rfl⟩ | ⟨rfl, k⟩
    · exact .inr ⟨rfl, h⟩
    · exact .inr ⟨rfl, h.trans k⟩

theorem inside {e : Element} {before after : List Tree} (h : Tracked U a b t u) :
    Tracked U a b (.node e (before ++ t :: after)) (.node e (before ++ u :: after)) := by
  rcases h with ⟨rfl, rfl⟩ | ⟨rfl, h⟩
  · exact .refl
  · exact .inr ⟨rfl, h.inside⟩

end Tracked

/-- The same for trees that are children of a node. -/
def TrackedAll (U : Tree → Tree → Prop) (a b : Bool) (ts ts' : List Tree) : Prop :=
  ∀ e before, Tracked U a b (.node e (before ++ ts)) (.node e (before ++ ts'))

namespace TrackedAll
variable {U : Tree → Tree → Prop} {a b c : Bool} {t t' : Tree} {ts ts' : List Tree}

theorem nil : TrackedAll U a a [] [] := fun _ _ => .refl

theorem cons (h : Tracked U a b t t') (k : TrackedAll U b c ts ts') :
    TrackedAll U a c (t :: ts) (t' :: ts') := by
  intro e before
  have k := k e (before ++ [t'])
  rw [List.append_assoc, List.append_assoc] at k
  exact h.inside.trans k

theorem node {e : Element} (h : TrackedAll U a b ts ts') : Tracked U a b (.node e ts) (.node e ts') :=
  h e []

end TrackedAll

namespace Simplify

/-- A read of a variable of the script's own, with a literal in its place. -/
def Replaced (u u' : Tree) : Prop :=
  ∃ name v quoting, u.variableKey? = some name ∧ u.isSplatted = false ∧
    Vocabulary.isAmbient name = false ∧ u' = Value.toTree quoting v

theorem forget_tracked {U : Tree → Tree → Prop} {known : Known} {names : List String} {b : Bool}
    {t t' : Tree} (h : Tracked U (known.forget names).changed b t t') :
    Tracked U known.changed b t t' := h

theorem not_isAmbient_of_mayReplace {around : Surroundings} {name : String}
    (h : around.mayReplace name = true) : Vocabulary.isAmbient name = false := by
  simp only [Surroundings.mayReplace, Surroundings.excludes, Bool.and_eq_true, Bool.not_eq_true',
    Bool.or_eq_false_iff] at h
  exact h.1.1.1

theorem changed_assign (around : Surroundings) (s target value : Tree) (known : Known) :
    (assign around s target value known).changed = known.changed := by
  unfold assign
  split
  · split <;> rfl
  · rfl

theorem readVariable_tracked {around : Surroundings} {known : Known} {site : Option Site} {t : Tree} :
    Tracked Replaced known.changed (readVariable around site t known).1.changed t
      (readVariable around site t known).2 := by
  unfold readVariable
  split
  next name _ hname =>
    split
    · exact .refl
    next hmay =>
      rw [Bool.or_eq_true, not_or, Bool.not_eq_true, Bool.not_eq_true', Bool.not_eq_false] at hmay
      have hown := not_isAmbient_of_mayReplace hmay.2
      split
      · exact .refl
      next v _ =>
        split
        · exact .refl
        · split
          · exact .inr ⟨rfl, .single (.here ⟨name, v, _, hname, hmay.1, hown, rfl⟩)⟩
          · exact .refl
  next => exact .refl

mutual

theorem walk_tracked {around : Surroundings} {known : Known} {site : Option Site} : (t : Tree) →
    Tracked Replaced known.changed (walk around site known t).1.changed t
      (walk around site known t).2
  | .node e children => by
    unfold walk
    split
    case h_1 =>
      match children with
      | target :: value :: rest =>
        rw [changed_assign]
        exact @Tracked.inside _ _ _ _ _ e [target] rest (walk_tracked value)
      | [] | [_] => exact .refl
    case h_2 => exact .refl
    case h_3 =>
      match children with
      | item :: body :: more =>
        exact (walkFirst_tracked more e [item, body]).trans
          (forget_tracked (@Tracked.inside _ _ _ _ _ e [item] _ (walk_tracked body)))
      | [] | [_] => exact .refl
    case h_4 =>
      match children with
      | first :: rest =>
        exact (TrackedAll.cons (walk_tracked first) fun e before =>
          forget_tracked (walkAll_tracked rest e before)).node
      | [] => exact .refl
    case h_5 => exact forget_tracked (walkAll_tracked children).node
    case h_6 => exact (walkArms_tracked children).node
    case h_7 => exact (walkAll_tracked children).node
    case h_8 => exact (walkAll_tracked children).node
    case h_9 => exact readVariable_tracked
    case h_10 => exact (walkAll_tracked children).node

theorem walkAll_tracked {around : Surroundings} {known : Known} {holder : Holder} {i : Nat} :
    (ts : List Tree) →
    TrackedAll Replaced known.changed (walkAll around holder i known ts).1.changed ts
      (walkAll around holder i known ts).2
  | [] => .nil
  | t :: ts => .cons (walk_tracked t) (walkAll_tracked ts)

theorem walkFirst_tracked {around : Surroundings} {known : Known} {holder : Holder} {i : Nat} :
    (ts : List Tree) →
    TrackedAll Replaced known.changed (walkFirst around holder i known ts).1.changed ts
      (walkFirst around holder i known ts).2
  | [] => .nil
  | t :: _ => .cons (walk_tracked t) fun _ _ => .refl

theorem walkParts_tracked {around : Surroundings} {known : Known} {holder : Holder} {i : Nat} :
    (ts : List Tree) →
    TrackedAll Replaced known.changed (walkParts around holder i known ts).1.changed ts
      (walkParts around holder i known ts).2
  | [] => .nil
  | t :: ts => by
    unfold walkParts
    by_cases hblock : t.is .statementBlock = true
    · simp only [hblock, if_true]
      exact .cons (walk_tracked t) fun e before => forget_tracked (walkParts_tracked ts e before)
    · simp only [hblock, Bool.false_eq_true, if_false]
      exact .cons (walk_tracked t) (walkParts_tracked ts)

theorem walkClauses_tracked {around : Surroundings} {known : Known} {holder : Holder} {i : Nat} :
    (ts : List Tree) →
    TrackedAll Replaced known.changed (walkClauses around holder i known ts).1.changed ts
      (walkClauses around holder i known ts).2
  | [] => .nil
  | .node _ parts :: ts => .cons (walkParts_tracked parts).node (walkClauses_tracked ts)

theorem walkArms_tracked {around : Surroundings} {known : Known} {holder : Holder} {i : Nat} :
    (ts : List Tree) →
    TrackedAll Replaced known.changed (walkArms around holder i known ts).1.changed ts
      (walkArms around holder i known ts).2
  | [] => .nil
  | .node e children :: ts => by
    unfold walkArms
    by_cases hclauses : (e.kind == .clauses || e.kind == .catchClauses) = true
    · simp only [hclauses, if_true]
      exact .cons (walkClauses_tracked children).node (walkArms_tracked ts)
    · simp only [hclauses, Bool.false_eq_true, if_false]
      by_cases hblock : (e.kind == .statementBlock) = true
      · simp only [hblock, if_true]
        exact .cons (walk_tracked (.node e children)) fun e before =>
          forget_tracked (walkArms_tracked ts e before)
      · simp only [hblock, Bool.false_eq_true, if_false]
        exact .cons (walk_tracked (.node e children)) (walkArms_tracked ts)

end

theorem propagateConstants_replaced {t t' : Tree} (h : propagateConstants t = some t') :
    Changes Replaced t t' := by
  simp only [propagateConstants, Option.ite_none_left_eq_some, Option.ite_none_right_eq_some,
    Option.some.injEq] at h
  obtain ⟨-, hchanged, rfl⟩ := h
  obtain ⟨heq, -⟩ | ⟨-, h⟩ := @walk_tracked (.ofTree t) {} none t
  · simp [heq] at hchanged
  · exact h

theorem propagateConstants_changes {t t' : Tree} (h : propagateConstants t = some t') :
    Changes (LocalStep .propagateConstants) t t' :=
  (propagateConstants_replaced h).mono fun _ _ ⟨_, _, _, hname, _, _, hu⟩ =>
    hu ▸ .update (.value (Tree.kind_of_variableKey? hname))

end Simplify
end Unscramble
