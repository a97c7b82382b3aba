import Unscramble.Proofs.Rewriting.Elements

/-! What the rules about spelling make of the element of a node, one case for each thing they do. -/
namespace Unscramble

open Simplify Vocabulary

/-- What a rule about spelling makes of the element of a node. Names are long from a threshold on. -/
inductive Spells (threshold : Nat) : Rule → Tree → Element → Prop
  | drive {t new} : t.isBareword = true → lowerDrive? t.payload = some new →
      Spells threshold .prefixCase t (withText t new)
  | path {t path new} : t.variablePath? = some path → lowerDrive? path = some new →
      Spells threshold .prefixCase t (t.element.withAttr "VariablePath" new)
  | case {t} : t.isBareword = true → canonicalCase t.payload ≠ t.payload →
      Spells threshold .barewordCase t (withText t (canonicalCase t.payload))
  | member {t word} : isQuoted t = true → bareword? t.payload = some word →
      Spells threshold .memberCase t { asBareword t with text := some word }
  | command {t} : isQuoted t = true → Spells threshold .commandBareword t (asBareword t)
  | expand {t target} : t.isBareword = true → aliasTarget? t.payload = some target →
      Spells threshold .aliasToCmdlet t (withText t target)
  | special {t path special} : t.variablePath? = some path → specialVariable? path = some special →
      special ≠ path →
      Spells threshold .specialVariableCase t (t.element.withAttr "VariablePath" special)
  | constraint {t type} :
      Spells threshold .typeConstraintFromConvert t (t.element.withAttr "TypeName" type)
  | type {t name} : t.kind = .typeConstraint ∨ t.kind = .typeExpression →
      t.attr? "TypeName" = some name → canonicalCase name ≠ name →
      Spells threshold .typeNameCase t (t.element.withAttr "TypeName" (canonicalCase name))
  | name {t key name new} : nameKey? t.kind = some key → t.attr? key = some name →
      isLong threshold (splitSigil name).2 = true →
      Spells threshold .renameLongNames t (t.element.withAttr key new)

/-- A respelling that does what a rule does. -/
def SpellsBy (threshold : Nat) (r : Rule) (f : Tree.Respelling) : Prop :=
  ∀ above t e', f above t = some e' → Spells threshold r t e'

theorem changed?_eq_some {old new s : String} :
    changed? old new = some s ↔ new ≠ old ∧ new = s := by
  simp [changed?]

section
variable (threshold : Nat)

theorem prefixCaseOf_spells : SpellsBy threshold .prefixCase prefixCaseOf := by
  intro above t e' h
  unfold prefixCaseOf at h
  split at h
  next hbare =>
    obtain ⟨new, hnew, rfl⟩ := Option.map_eq_some_iff.mp h
    exact .drive hbare hnew
  next =>
    obtain ⟨new, hnew, rfl⟩ := Option.map_eq_some_iff.mp h
    obtain ⟨path, hpath, hnew⟩ := Option.bind_eq_some_iff.mp hnew
    exact .path hpath hnew

theorem barewordCaseOf_spells : SpellsBy threshold .barewordCase barewordCaseOf := by
  intro above t e' h
  simp only [barewordCaseOf, Option.ite_none_right_eq_some, Option.map_eq_some_iff,
    changed?_eq_some] at h
  obtain ⟨hbare, new, ⟨hne, rfl⟩, rfl⟩ := h
  exact .case hbare hne

theorem memberCaseOf_spells : SpellsBy threshold .memberCase memberCaseOf := by
  intro above t e' h
  simp only [memberCaseOf, Option.ite_none_right_eq_some, Bool.and_eq_true,
    Option.map_eq_some_iff] at h
  obtain ⟨⟨-, hquoted⟩, word, hword, rfl⟩ := h
  exact .member hquoted hword

theorem commandBarewordOf_spells : SpellsBy threshold .commandBareword commandBarewordOf := by
  intro above t e' h
  unfold commandBarewordOf at h
  split at h
  next =>
    simp only [Option.ite_none_right_eq_some, Bool.and_eq_true, Option.some.injEq] at h
    obtain ⟨⟨⟨⟨-, hquoted⟩, -⟩, -⟩, rfl⟩ := h
    exact .command hquoted
  next => cases h

theorem aliasToCmdletOf_spells : SpellsBy threshold .aliasToCmdlet aliasToCmdletOf := by
  intro above t e' h
  simp only [aliasToCmdletOf, Option.ite_none_right_eq_some, Bool.and_eq_true,
    Option.map_eq_some_iff] at h
  obtain ⟨⟨-, hbare⟩, target, htarget, rfl⟩ := h
  exact .expand hbare htarget

theorem specialVariableCaseOf_spells :
    SpellsBy threshold .specialVariableCase specialVariableCaseOf := by
  intro above t e' h
  simp only [specialVariableCaseOf, Option.bind_eq_some_iff, Option.map_eq_some_iff,
    changed?_eq_some] at h
  obtain ⟨path, hpath, new, ⟨special, hspecial, hne, rfl⟩, rfl⟩ := h
  exact .special hpath hspecial hne

theorem typeConstraintOf_spells :
    SpellsBy threshold .typeConstraintFromConvert typeConstraintOf := by
  intro above t e' h
  obtain ⟨new, -, rfl⟩ := Option.map_eq_some_iff.mp h
  exact .constraint

theorem typeNameCaseOf_spells : SpellsBy threshold .typeNameCase typeNameCaseOf := by
  intro above t e' h
  simp only [typeNameCaseOf, Option.ite_none_right_eq_some, Option.map_eq_some_iff,
    Option.bind_eq_some_iff, changed?_eq_some, Bool.or_eq_true, Tree.is_iff] at h
  obtain ⟨hkind, new, ⟨name, hname, hne, rfl⟩, rfl⟩ := h
  exact .type hkind hname hne

theorem renamedElement?_spells (memory : Memory) : SpellsBy threshold .renameLongNames
    fun _ t => renamedElement? threshold memory t.element := by
  intro above t e' h
  simp only [renamedElement?, Option.bind_eq_some_iff, Option.ite_none_right_eq_some,
    Option.some.injEq] at h
  obtain ⟨key, hkey, name, hname, hlong, rfl⟩ := h
  exact .name hkey hname hlong

end

theorem nameKey?_mem {kind : Kind} {key : String} (h : nameKey? kind = some key) :
    key ∈ writtenKeys := by
  unfold nameKey? at h
  split at h <;> cases h <;> decide

theorem Spells.alike {threshold : Nat} {r : Rule} {t : Tree} {e' : Element}
    (h : Spells threshold r t e') : Alike t.element e' := by
  cases h with
  | drive | case | expand => exact .text _ _
  | path | special | constraint | type => exact .withAttr _ _ (by decide)
  | member => exact (Alike.withAttr _ _ (by decide)).trans (.text _ _)
  | command => exact .withAttr _ _ (by decide)
  | name hkey => exact .withAttr _ _ (nameKey?_mem hkey)

/-- A node that keeps its children and gets an element that is much the same. -/
inductive Reworded : Tree → Tree → Prop
  | mk {e e' cs} : Alike e e' → Reworded (.node e cs) (.node e' cs)

/-- A node that keeps its children and gets the element that a rule gives to a node like it. -/
inductive Spelled (r : Rule) : Tree → Tree → Prop
  | mk {threshold e e' cs cs'} : Spells threshold r (.node e cs) e' →
      Spelled r (.node e cs') (.node e' cs')

theorem Spelled.reworded {r : Rule} {t t' : Tree} (h : Spelled r t t') : Reworded t t' := by
  obtain ⟨h⟩ := h
  exact .mk h.alike

theorem SpellsBy.spelled {threshold : Nat} {r : Rule} {f : Tree.Respelling}
    (hf : SpellsBy threshold r f) {t t' : Tree} (h : t.respell? f = some t') :
    Changes (Spelled r) t t' :=
  (Tree.respell?_changes h).mono fun _ _ ⟨h⟩ => .mk (hf _ _ _ h)

theorem SpellsBy.changes {threshold : Nat} {r : Rule} {f : Tree.Respelling}
    (hf : SpellsBy threshold r f) {t t' : Tree} (h : t.respell? f = some t') :
    Changes Reworded t t' :=
  (hf.spelled h).mono fun _ _ h => h.reworded

end Unscramble
