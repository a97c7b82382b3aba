import Unscramble.Proofs.Scripts.Expressions
import Unscramble.Value.Fold

/-! What literals stand for. A scalar, or a list of scalars, is read back from every literal that is
written for it, but for one number: the text of the least one has no value, as its digits are read
before its sign. -/
namespace Unscramble.Value

open Scripts Unscramble.Tree

/-- Scalars and lists of scalars. -/
def IsFlat (v : Value) : Prop := ∀ item ∈ v.asList, item.isScalar = true

theorem readInt?_intText_minValue : readInt? (intText Int64.minValue) = none := by
  decide +kernel

theorem scalar?_minValue (quoting : Quoting) :
    ((Value.int Int64.minValue).toTree quoting).scalar? = none := by
  have hread : (readInt? (intTree Int64.minValue).payload).map Value.int = none :=
    congrArg (Option.map Value.int) readInt?_intText_minValue
  simp only [Value.toTree, scalar?, show (intTree Int64.minValue).kind = .constant from rfl, hread,
    ite_self]

/-- Exactly one scalar is not read back. -/
theorem scalar?_toTree_iff {v : Value} (hscalar : v.isScalar = true) (quoting : Quoting) :
    (v.toTree quoting).scalar? = some v ↔ v ≠ .int Int64.minValue := by
  refine ⟨?_, fun hmin => scalar?_toTree hscalar hmin quoting⟩
  rintro h rfl
  rw [scalar?_minValue] at h
  cases h

theorem mapM_toTrees_iff {items : List Value} (h : ∀ item ∈ items, item.isScalar = true) :
    (Value.toTrees items).mapM scalar? = some items ↔ .int Int64.minValue ∉ items := by
  refine ⟨fun hread hmem => ?_, fun hmin => mapM_toTrees fun item hitem => ⟨h item hitem, ?_⟩⟩
  · induction items with
    | nil => cases hmem
    | cons item items ih =>
      obtain ⟨hitem, hitems⟩ := List.forall_mem_cons.mp h
      rw [Value.toTrees, List.mapM_cons] at hread
      obtain ⟨v, hv, hread⟩ := Option.bind_eq_some_iff.mp hread
      obtain ⟨vs, hvs, hread⟩ := Option.bind_eq_some_iff.mp hread
      cases hread
      rcases List.mem_cons.mp hmem with rfl | hmem
      · rw [scalar?_minValue] at hv
        cases hv
      · exact ih hitems hvs hmem
  · rintro rfl
    exact hmin hitem

/-- A flat value is read back from its literal, however strings are quoted, exactly if it does not
hold the least number. -/
theorem literal?_toTree_iff {v : Value} (hflat : v.IsFlat) (quoting : Quoting) :
    (v.toTree quoting).literal? = some v ↔ .int Int64.minValue ∉ v.asList := by
  cases v with
  | text s => exact ⟨fun _ => by simp [Value.asList], fun _ => rfl⟩
  | int n =>
    rw [show asList (.int n) = [.int n] from rfl, List.mem_singleton, eq_comm (a := Value.int _)]
    exact scalar?_toTree_iff (v := .int n) rfl quoting
  | list items =>
    have hitems : ∀ item ∈ items, item.isScalar = true := hflat
    rw [show asList (.list items) = items from rfl, ← mapM_toTrees_iff hitems]
    simp [Value.toTree, literal?, is, kind, element, branch, items?, childOf?]

/-- A list with a quoted backtick, the empty string and both ends of what is read back. -/
theorem literal?_toTree_list :
    let v : Value := .list [.text "it's `", .text "", .int Int64.maxValue, .int (Int64.minValue + 1)]
    v.IsFlat ∧ (v.toTree .doubleQuoted).literal? = some v := by
  intro v
  have hflat : v.IsFlat := by unfold IsFlat; decide
  exact ⟨hflat, (literal?_toTree_iff hflat .doubleQuoted).mpr (by decide)⟩

/-- Subtraction comes to the least number, which is lost once it is written down. -/
theorem literal?_minValue :
    evaluate? .minus (.int (-9223372036854775807)) (.int 1) = some (.int Int64.minValue) ∧
      ∀ quoting, ((Value.int Int64.minValue).toTree quoting).literal? = none :=
  ⟨by decide, scalar?_minValue⟩

end Unscramble.Value
