import Unscramble.Proofs.Rewriting.Catalog
import Unscramble.Proofs.Rewriting.Decrease

/-! No rule makes up a format: those in a tree were there before, and some of them may be gone. -/
namespace Unscramble

open Simplify Unscramble.Tree

/-- Whether a node formats something, whatever its operands are. -/
def isFormat (e : Element) : Bool := e.kind == .binaryExpression && e.operator? == some .format

def formatWeight (e : Element) : Nat := if isFormat e then 1 else 0

section
variable {r : Rule} {e : Element} {t t' : Tree}

theorem formatWeight_of_kind (h : e.kind ≠ .binaryExpression) : formatWeight e = 0 := by
  simp [formatWeight, isFormat, h]

theorem formatWeight_value : ∀ e : Element, e.kind ∈ valueKinds → formatWeight e = 0 := by
  intro e he
  refine formatWeight_of_kind fun hkind => ?_
  rw [hkind] at he
  exact absurd he (by decide)

theorem Literal.formats {u : Tree} (h : Literal r u) : weigh formatWeight u = 0 := by
  cases h with
  | value v quoting => exact weigh_toTree_eq_zero formatWeight_value quoting v
  | truth | type => simp [boolTree, leaf, formatWeight, isFormat]

/-- A join is no format. -/
theorem formatWeight_joinedElement (e : Element) : formatWeight (joinedElement e) = 0 := by
  have hoperator : (joinedElement e).operator? = some .join := by
    have htoken : (joinedElement e).attr? "Operator" = some Operator.join.token := by
      simp [joinedElement, Element.attr?]
    rw [Element.operator?, htoken]
    decide
  simp [formatWeight, isFormat, hoperator]

theorem fair_formatWeight (r : Rule) : Fair formatWeight r where
  literal _ hu := by simp [hu.formats]
  loop _ _ _ _ := by simp [conditionalElements, formatWeight, isFormat]
  join {e} _ _ := by
    rw [formatWeight_joinedElement, Nat.zero_add, stringTree, leaf, weigh_node, weighAll_nil,
      formatWeight_value _ (by simp [valueKinds])]
    exact Nat.zero_le _
  reversed _ _ := by simp [formatWeight, isFormat]
  value {_ v quoting} _ _ := by simp [weigh_toTree_eq_zero formatWeight_value quoting v]

/-- No rule about spelling writes an operator. -/
theorem Spells.operator?_eq {threshold : Nat} {e' : Element} (h : Spells threshold r t e') :
    e'.operator? = t.element.operator? := by
  cases h with
  | drive | case | expand => rfl
  | path | special | constraint | type | member | command =>
    simp [Element.operator?, Element.attr?, Element.withAttr, asBareword]
  | name hkey =>
    unfold nameKey? at hkey
    split at hkey <;> cases hkey <;> simp [Element.operator?, Element.attr?, Element.withAttr]

theorem Spelled.formats (h : Spelled r t t') : weigh formatWeight t' = weigh formatWeight t := by
  obtain ⟨h⟩ := h
  have hkind := h.alike.kind
  have hoperator := h.operator?_eq
  simp_all [formatWeight, isFormat]

theorem Rule.apply_formats_le {context : Context} {memory : Memory} (hparser : context.parser = none)
    (h : (r.apply context memory t).1 = some t') : weigh formatWeight t' ≤ weigh formatWeight t := by
  cases r.apply_application h with
  | steps h => exact h.weigh_le fun _ _ h => h.weigh_le (fair_formatWeight r)
  | spelling h => exact h.weigh_le fun _ _ h => Nat.le_of_eq h.formats
  | graft hsome => rw [hparser] at hsome; cases hsome

theorem exists_isFormat (h : weigh formatWeight t ≠ 0) : ∃ s ∈ t.nodes, isFormat s.element = true := by
  by_contra hall
  refine h (weigh_eq_zero t fun s hs => ?_)
  simp only [not_exists, not_and, Bool.not_eq_true] at hall
  simp [formatWeight, hall s hs]

theorem format_of_panics {operator : Operator} {left right : Value} (h : panics operator left right = true) :
    operator = .format := by
  unfold panics at h
  split at h
  · rfl
  · cases h

/-- A node that brings the program down is a format. -/
theorem isFormat_of_binaryPanics (h : binaryPanics t = true) : isFormat t.element = true := by
  simp only [binaryPanics, Bool.and_eq_true] at h
  obtain ⟨hkind, h⟩ := h
  split at h
  next =>
    obtain ⟨operator, hoperator, left, -, right, -, hpanics⟩ : ∃ operator, t.operator? = some operator ∧
        ∃ left, _ = some left ∧ ∃ right, _ = some right ∧ panics operator left right = true := by
      simpa [Option.any_eq_true] using h
    obtain rfl := format_of_panics hpanics
    have hformat : t.element.operator? = some .format := hoperator
    have hbinary : t.element.kind = .binaryExpression := is_iff.mp hkind
    simp [isFormat, hformat, hbinary]
  next => cases h

theorem Rule.exists_binaryPanics (rule : Rule) (h : rule.panics t = true) :
    ∃ s ∈ t.nodes, binaryPanics s = true := by
  cases rule with
  | foldBinary => exact List.any_eq_true.mp h
  | _ => cases h

end

end Unscramble
