import Mathlib.Order.RelClasses
import Unscramble.Proofs.Execution
import Unscramble.Proofs.Rewriting.Branches
import Unscramble.Proofs.Rewriting.Formats
import Unscramble.Proofs.Rewriting.Walk
import Unscramble.Proofs.Spelling.Converts
import Unscramble.Proofs.Spelling.LongNames

/-! Simplification comes to an end. Every application of a rule makes the first of five measures
smaller that it changes: operations, variables, nodes, unresolved conversions, and the distance of
all spellings from the usual ones. Only renaming could undo itself, if new names were long. They
are not, as a script has fewer than `2 ^ 63` names and names are long from 30 characters on, so
there is at most one renaming in a run. -/
namespace Unscramble

open Simplify Unscramble.Tree

/-- What gets smaller, the most important measure first. -/
def measures (threshold : Nat) (t : Tree) : Nat × Nat × Nat × Nat × Nat :=
  (weigh (kindWeight operationKind) t, weigh (kindWeight variableKind) t,
    weigh (kindWeight anyKind) t, unresolved t, weigh (rank threshold) t)

/-- The order of the measures. -/
def Smaller (threshold : Nat) (t' t : Tree) : Prop :=
  Prod.Lex (· < ·) (Prod.Lex (· < ·) (Prod.Lex (· < ·) (Prod.Lex (· < ·) (· < ·))))
    (measures threshold t') (measures threshold t)

theorem wellFounded_smaller (threshold : Nat) : WellFounded (Smaller threshold) :=
  InvImage.wf (measures threshold) <|
    WellFounded.prod_lex Nat.lt_wfRel.wf <| WellFounded.prod_lex Nat.lt_wfRel.wf <|
      WellFounded.prod_lex Nat.lt_wfRel.wf <| WellFounded.prod_lex Nat.lt_wfRel.wf Nat.lt_wfRel.wf

theorem lex_of_le {α β : Type} [PartialOrder α] {r : β → β → Prop} {m n : α} {b c : β} (h : m ≤ n)
    (hr : r b c) : Prod.Lex (· < ·) r (m, b) (n, c) := by
  rcases h.lt_or_eq with h | rfl
  · exact .left _ _ h
  · exact .right _ hr

/-- What holds during a run: there are not too many names, and unless nothing was renamed yet
there are no long ones. -/
structure Underway (threshold : Nat) (memory : Memory) (t : Tree) : Prop where
  names : weigh (kindWeight namedKind) t < 2 ^ 63
  short : (memory.renamed = [] ∧ memory.next = 0) ∨ weigh (longWeight threshold) t = 0

/-- What is simpler in one of the measures, and has no more names and no more long ones. -/
structure Simpler (threshold : Nat) (t' t : Tree) : Prop where
  smaller : Smaller threshold t' t
  names : weigh (kindWeight namedKind) t' ≤ weigh (kindWeight namedKind) t
  long : weigh (longWeight threshold) t' ≤ weigh (longWeight threshold) t

section
variable {threshold : Nat} {memory : Memory} {r : Rule} {t t' : Tree}

theorem Underway.rename (hthreshold : 30 ≤ threshold) (h : Underway threshold memory t)
    (ht : (renameLongNames threshold memory t).1 = some t') :
    weigh (longWeight threshold) t' = 0 ∧ weigh (rank threshold) t' < weigh (rank threshold) t := by
  rcases h.short with ⟨hfresh, hnext⟩ | hshort
  · have hgenerated : Generated memory := by simp [Generated, hfresh]
    exact renameLongNames_some hthreshold hgenerated
      (Nat.le_of_lt (renameLongNames_next_lt hfresh hnext h.names)) ht
  · rw [renameLongNames_short hshort] at ht
    cases ht

theorem Simpler.underway (h : Simpler threshold t' t) (ht : Underway threshold memory t) :
    Underway threshold memory t' :=
  ⟨Nat.lt_of_le_of_lt h.names ht.names,
    ht.short.imp id fun hzero => Nat.le_zero.mp (h.long.trans_eq hzero)⟩

/-! ### Local steps -/

theorem smaller_of_steps (hsteps : Changes (LocalStep r) t t') (hreverse : r ≠ .reverseConstArray) :
    Smaller threshold t' t := by
  have hoperation := hsteps.weigh_le fun _ _ h => h.weigh_le (fair_operation r)
  by_cases hpropagate : r = .propagateConstants
  · subst hpropagate
    exact lex_of_le hoperation (.left _ _ (hsteps.weigh_lt fun _ _ h => h.variable_lt))
  cases hr : dropsNodes r with
  | false =>
    exact .left _ _ (hsteps.weigh_lt fun _ _ h => h.operation_lt hr hreverse hpropagate)
  | true =>
    have hbinary : r ≠ .foldBinary := by rintro rfl; cases hr
    have hvariable := hsteps.weigh_le fun _ _ h => h.weigh_le (fair_variable hbinary)
    exact lex_of_le hoperation (lex_of_le hvariable
      (.left _ _ (hsteps.weigh_lt fun _ _ h => h.any_lt hr)))

theorem Simpler.of_steps (hthreshold : 30 ≤ threshold) (hsmaller : Smaller threshold t' t)
    (hsteps : Changes (LocalStep r) t t') : Simpler threshold t' t where
  smaller := hsmaller
  names := hsteps.weigh_le fun _ _ h => h.weigh_le (fair_named r)
  long := hsteps.weigh_le fun _ _ h => h.weigh_le (fair_long hthreshold r)

theorem simpler_of_steps (hthreshold : 30 ≤ threshold) (hreverse : r ≠ .reverseConstArray)
    (hsteps : Changes (LocalStep r) t t') : Simpler threshold t' t :=
  .of_steps hthreshold (smaller_of_steps hsteps hreverse) hsteps

/-! ### New spellings -/

theorem Reworded.weigh_le (w : Kind → Nat) (h : Changes Reworded t t') :
    weigh (kindWeight w) t' ≤ weigh (kindWeight w) t :=
  Changes.weigh_le (fun _ _ ⟨halike⟩ => by simp [kindWeight, halike.kind]) h

theorem Smaller.reworded (h : Changes Reworded t t')
    (hlast : Prod.Lex (· < ·) (· < ·) (unresolved t', weigh (rank threshold) t')
      (unresolved t, weigh (rank threshold) t)) : Smaller threshold t' t :=
  lex_of_le (Reworded.weigh_le _ h) (lex_of_le (Reworded.weigh_le _ h)
    (lex_of_le (Reworded.weigh_le _ h) hlast))

theorem SpellsBy.weigh_lt {f : Respelling} (hf : SpellsBy threshold r f) {w : Element → Nat}
    (hw : ∀ t e', Spells threshold r t e' → w e' < w t.element) (h : t.respell? f = some t') :
    weigh w t' < weigh w t :=
  (respell?_changes h).weigh_lt fun _ _ ⟨h⟩ => by simpa using hw _ _ (hf _ _ _ h)

theorem SpellsBy.weigh_le {f : Respelling} (hf : SpellsBy threshold r f) {w : Element → Nat}
    (hw : ∀ t e', Spells threshold r t e' → w e' ≤ w t.element) (h : t.respell? f = some t') :
    weigh w t' ≤ weigh w t :=
  (respell?_changes h).weigh_le fun _ _ ⟨h⟩ => by simpa using hw _ _ (hf _ _ _ h)

theorem SpellsBy.unresolved {f : Respelling} (hf : SpellsBy threshold r f)
    (hconstraint : r ≠ .typeConstraintFromConvert) (h : t.respell? f = some t') :
    unresolved t' = unresolved t := by
  rw [respelled_of_respell? h]
  exact (hf.unnoticed hconstraint).unresolved t none

theorem Simpler.of_spelling (hthreshold : 30 ≤ threshold) {f : Respelling} (hf : SpellsBy threshold r f)
    (hname : r ≠ .renameLongNames) (hsmaller : Smaller threshold t' t) (ht : t.respell? f = some t') :
    Simpler threshold t' t where
  smaller := hsmaller
  names := Reworded.weigh_le _ (hf.changes ht)
  long := hf.weigh_le (fun _ _ h => h.long_le hthreshold hname) ht

theorem SpellsBy.simpler (hthreshold : 30 ≤ threshold) {f : Respelling} (hf : SpellsBy threshold r f)
    (hr : r ≠ .typeConstraintFromConvert ∧ r ≠ .renameLongNames) (ht : t.respell? f = some t') :
    Simpler threshold t' t := by
  refine .of_spelling hthreshold hf hr.2 ?_ ht
  exact .reworded (hf.changes ht) <| lex_of_le (Nat.le_of_eq (hf.unresolved hr.1 ht)) <|
    hf.weigh_lt (fun _ _ h => h.rank_lt hthreshold hr.1 hr.2) ht

theorem typeConstraintFromConvert_smaller (h : typeConstraintFromConvert t = some t') :
    Smaller threshold t' t :=
  .reworded ((typeConstraintOf_spells threshold).changes h)
    (.left _ _ (typeConstraintFromConvert_unresolved h))

theorem Smaller.rename (hrank : weigh (rank threshold) t' < weigh (rank threshold) t)
    (h : (renameLongNames threshold memory t).1 = some t') : Smaller threshold t' t := by
  have hspells := renamedElement?_spells threshold (renameLongNames threshold memory t).2
  exact .reworded (hspells.changes h)
    (lex_of_le (Nat.le_of_eq (hspells.unresolved (by decide) h)) hrank)

/-- A run renames at most once. -/
theorem renameLongNames_smaller (hthreshold : 30 ≤ threshold) (hunderway : Underway threshold memory t)
    (h : (renameLongNames threshold memory t).1 = some t') :
    Smaller threshold t' t ∧ Underway threshold (renameLongNames threshold memory t).2 t' := by
  obtain ⟨hlong, hrank⟩ := hunderway.rename hthreshold h
  have hchanges := (renamedElement?_spells threshold (renameLongNames threshold memory t).2).changes h
  exact ⟨.rename hrank h, Nat.lt_of_le_of_lt (Reworded.weigh_le _ hchanges) hunderway.names, .inr hlong⟩

end

/-! ### One application -/

section
variable {rule : Rule} {context : Context} {memory : Memory} {t t' : Tree}

theorem inlineInvokeExpression_unparsed (h : context.parser = none) :
    inlineInvokeExpression context memory t = (none, memory) := by
  rw [inlineInvokeExpression, h]
  split
  next hparser => cases hparser
  next => rfl

/-- The rules that remember nothing make a tree simpler. -/
theorem Rule.apply_simpler (hinline : rule ≠ .inlineInvokeExpression) (hname : rule ≠ .renameLongNames)
    (hthreshold : 30 ≤ context.settings.renameThreshold)
    (ht : (rule.apply context memory t).1 = some t') :
    Simpler context.settings.renameThreshold t' t := by
  cases rule with
  | removeEmptyContainers => exact simpler_of_steps hthreshold (by decide) (removeEmptyContainers_changes ht)
  | removeUnusedVariable => exact simpler_of_steps hthreshold (by decide) (removeUnusedVariable_changes ht)
  | unwrapParen => exact simpler_of_steps hthreshold (by decide) (unwrapParen_changes ht)
  | unwrapPipeline => exact simpler_of_steps hthreshold (by decide) (unwrapPipeline_changes ht)
  | unwrapSingleArray => exact simpler_of_steps hthreshold (by decide) (unwrapSingleArray_changes ht)
  | removeUnassignedUse => exact simpler_of_steps hthreshold (by decide) (removeUnassignedUse_changes ht)
  | deadBranches => exact simpler_of_steps hthreshold (by decide) (deadBranches_changes ht)
  | unaryJoin => exact simpler_of_steps hthreshold (by decide) (unaryJoin_changes ht)
  | foldBinary => exact simpler_of_steps hthreshold (by decide) (foldBinary_changes ht)
  | foldInvokeMember => exact simpler_of_steps hthreshold (by decide) (foldInvokeMember_changes ht)
  | reverseConstArray =>
    exact .of_steps hthreshold (.left _ _ (reverseConstArray_operation_lt ht)) (reverseConstArray_changes ht)
  | inlineInvokeExpression => exact absurd rfl hinline
  | foldConversions => exact simpler_of_steps hthreshold (by decide) (foldConversions_changes ht)
  | foldIndex => exact simpler_of_steps hthreshold (by decide) (foldIndex_changes ht)
  | prefixCase => exact (prefixCaseOf_spells _).simpler hthreshold (by decide) ht
  | barewordCase => exact (barewordCaseOf_spells _).simpler hthreshold (by decide) ht
  | memberCase => exact (memberCaseOf_spells _).simpler hthreshold (by decide) ht
  | commandBareword => exact (commandBarewordOf_spells _).simpler hthreshold (by decide) ht
  | aliasToCmdlet => exact (aliasToCmdletOf_spells _).simpler hthreshold (by decide) ht
  | specialVariableCase => exact (specialVariableCaseOf_spells _).simpler hthreshold (by decide) ht
  | typeConstraintFromConvert =>
    exact .of_spelling hthreshold (typeConstraintOf_spells _) (by decide)
      (typeConstraintFromConvert_smaller ht) ht
  | typeNameCase => exact (typeNameCaseOf_spells _).simpler hthreshold (by decide) ht
  | renameLongNames => exact absurd rfl hname
  | propagateConstants => exact simpler_of_steps hthreshold (by decide) (propagateConstants_changes ht)

theorem Rule.apply_memory (hinline : rule ≠ .inlineInvokeExpression) (hname : rule ≠ .renameLongNames) :
    (rule.apply context memory t).2 = memory := by
  cases rule with
  | inlineInvokeExpression => exact absurd rfl hinline
  | renameLongNames => exact absurd rfl hname
  | _ => rfl

/-- Every rule makes one of the measures smaller. -/
theorem Rule.apply_smaller (hparser : context.parser = none)
    (hthreshold : 30 ≤ context.settings.renameThreshold)
    (h : Underway context.settings.renameThreshold memory t)
    (ht : (rule.apply context memory t).1 = some t') :
    Smaller context.settings.renameThreshold t' t ∧
      Underway context.settings.renameThreshold (rule.apply context memory t).2 t' := by
  rcases eq_or_ne rule .inlineInvokeExpression with rfl | hinline
  · rw [apply, inlineInvokeExpression_unparsed hparser] at ht
    cases ht
  rcases eq_or_ne rule .renameLongNames with rfl | hname
  · exact renameLongNames_smaller hthreshold h ht
  · have hsimpler := rule.apply_simpler hinline hname hthreshold ht
    rw [rule.apply_memory hinline hname]
    exact ⟨hsimpler.smaller, hsimpler.underway h⟩

/-- Nothing is remembered by a rule that has no match. -/
theorem Rule.apply_none (hparser : context.parser = none)
    (h : (rule.apply context memory t).1 = none) : (rule.apply context memory t).2 = memory := by
  rcases eq_or_ne rule .inlineInvokeExpression with rfl | hinline
  · rw [apply, inlineInvokeExpression_unparsed hparser]
  rcases eq_or_ne rule .renameLongNames with rfl | hname
  · exact renameLongNames_none h
  · exact rule.apply_memory hinline hname

end

/-! ### Runs -/

namespace Progress

section
variable {context : Context} {rules : List Rule} {p : Progress}

theorem tryRules_none (hparser : context.parser = none) {memory memory' : Memory} {t : Tree}
    (h : tryRules context memory t rules = (none, memory')) :
    memory' = memory ∧ ∀ rule ∈ rules, (rule.apply context memory t).1 = none := by
  induction rules with
  | nil => cases h; exact ⟨rfl, by simp⟩
  | cons rule rules ih =>
    rw [tryRules] at h
    split at h
    next => cases h
    next remembered hrule =>
      have hnone : (rule.apply context memory t).1 = none := by rw [hrule]
      have hmemory := rule.apply_none hparser hnone
      obtain rfl : remembered = memory := by rw [← hmemory, hrule]
      obtain ⟨rfl, hrules⟩ := ih h
      exact ⟨rfl, List.forall_mem_cons.mpr ⟨hnone, hrules⟩⟩

theorem tryRules_some (hparser : context.parser = none) {memory memory' : Memory} {t t' : Tree}
    {rule : Rule} (h : tryRules context memory t rules = (some (rule, t'), memory')) :
    rule.apply context memory t = (some t', memory') := by
  induction rules with
  | nil => cases h
  | cons first rules ih =>
    rw [tryRules] at h
    split at h
    next hrule => cases h; exact hrule
    next remembered hrule =>
      have hmemory := first.apply_none hparser (by rw [hrule])
      obtain rfl : remembered = memory := by rw [← hmemory, hrule]
      exact ih h

end
end Progress

section
variable {context : Context} {rules : List Rule}

/-- A run comes to its end if its steps go down in a well-founded order, or for as long as they do. -/
theorem runFrom_ends {R : Tree → Tree → Prop} {I : Memory → Tree → Prop} {Q : Memory → Prop}
    (hR : WellFounded R) (hlimit : context.settings.maxSteps = none)
    (hstep : ∀ memory t rule t' remembered, I memory t →
      Progress.tryRules context memory t rules = (some (rule, t'), remembered) →
        R t' t ∧ I remembered t' ∨ Q remembered)
    (p : Progress) (h : I p.memory p.tree) :
    (∃ n q memory, (∀ fuel, n ≤ fuel → runFrom context rules fuel p = .settled q) ∧
        Progress.tryRules context memory q.tree rules = (none, q.memory)) ∨
      ∃ fuel, Q (runFrom context rules fuel p).progress.memory := by
  obtain ⟨t, memory, applied⟩ := p
  induction t using hR.induction generalizing memory applied with
  | h t ih =>
    cases htry : Progress.tryRules context memory t rules with
    | mk found remembered =>
    cases found with
    | none =>
      refine .inl ⟨1, ⟨t, remembered, applied⟩, memory, fun fuel hfuel => ?_, htry⟩
      obtain ⟨fuel, rfl⟩ := Nat.exists_eq_add_one_of_ne_zero (Nat.ne_of_gt hfuel)
      simp [runFrom, Progress.step, htry]
    | some found =>
      obtain ⟨rule, t'⟩ := found
      have hrest (fuel : Nat) : runFrom context rules (fuel + 1) ⟨t, memory, applied⟩ =
          runFrom context rules fuel ⟨t', remembered, rule :: applied⟩ := by
        simp [runFrom, Progress.step, htry, hlimit]
      rcases hstep _ _ _ _ _ h htry with ⟨hsmaller, hnext⟩ | hstop
      · rcases ih t' hsmaller remembered (rule :: applied) hnext with ⟨n, q, last, hn, hlast⟩ | ⟨fuel, hstop⟩
        · refine .inl ⟨n + 1, q, last, fun fuel hfuel => ?_, hlast⟩
          obtain ⟨fuel, rfl⟩ := Nat.exists_eq_add_one_of_ne_zero (Nat.ne_zero_of_lt hfuel)
          rw [hrest]
          exact hn fuel (Nat.le_of_succ_le_succ hfuel)
        · exact .inr ⟨fuel + 1, hrest fuel ▸ hstop⟩
      · exact .inr ⟨1, hrest 0 ▸ hstop⟩

/-- From every state that a run can be in it comes to a fixed point of the rules. -/
theorem runFrom_settles (hparser : context.parser = none)
    (hthreshold : 30 ≤ context.settings.renameThreshold) (hlimit : context.settings.maxSteps = none)
    (p : Progress) (h : Underway context.settings.renameThreshold p.memory p.tree) :
    ∃ n q, (∀ fuel, n ≤ fuel → runFrom context rules fuel p = .settled q) ∧
      ∀ rule ∈ rules, (rule.apply context q.memory q.tree).1 = none := by
  have hstep : ∀ memory t rule t' remembered, Underway context.settings.renameThreshold memory t →
      Progress.tryRules context memory t rules = (some (rule, t'), remembered) →
        Smaller context.settings.renameThreshold t' t ∧
          Underway context.settings.renameThreshold remembered t' ∨ False := by
    intro memory t rule t' remembered h htry
    have happly := Progress.tryRules_some hparser htry
    have hsmaller := rule.apply_smaller hparser hthreshold h (by rw [happly])
    rw [happly] at hsmaller
    exact .inl hsmaller
  obtain ⟨n, q, memory, hn, hlast⟩ | ⟨-, hfalse⟩ :=
    runFrom_ends (wellFounded_smaller context.settings.renameThreshold) hlimit hstep p h
  · obtain ⟨hmemory, hrules⟩ := Progress.tryRules_none hparser hlast
    exact ⟨n, q, hn, hmemory ▸ hrules⟩
  · exact hfalse.elim

theorem namedKind_le (t : Tree) : weigh (kindWeight namedKind) t ≤ t.size := by
  have hone (u : Tree) : kindWeight namedKind u.element ≤ 1 := by
    unfold kindWeight namedKind
    split <;> decide
  rw [size_eq_weigh]
  exact (weigh_mono t fun u _ => hone u).1

/-- Without a parser and without a limit a run comes to a tree that no rule has a match in. -/
theorem optimize_settles {t : Tree} (hparser : context.parser = none)
    (hthreshold : 30 ≤ context.settings.renameThreshold) (hlimit : context.settings.maxSteps = none)
    (hsize : t.size < 2 ^ 63) :
    ∃ n p, (∀ fuel, n ≤ fuel → optimize context fuel t = .settled p) ∧
      ∀ rule ∈ Rule.catalog, (rule.apply context p.memory p.tree).1 = none :=
  runFrom_settles hparser hthreshold hlimit { tree := t }
    ⟨Nat.lt_of_le_of_lt (namedKind_le t) hsize, .inl ⟨rfl, rfl⟩⟩

/-- Executed without a parser and without a limit, the rules come to a tree that none of them has a match in,
or to one with a format that brings the program down. That only happens if there was a format from the
beginning. -/
theorem execute_settles {t : Tree} (hparser : context.parser = none)
    (hthreshold : 30 ≤ context.settings.renameThreshold) (hlimit : context.settings.maxSteps = none)
    (hsize : t.size < 2 ^ 63) :
    (∃ n p, (∀ fuel, n ≤ fuel → execute context fuel t = .ended (.settled p)) ∧
      ∀ rule ∈ Rule.catalog, (rule.apply context p.memory p.tree).1 = none) ∨
    ∃ n p, (∀ fuel, n ≤ fuel → execute context fuel t = .panicked p) ∧
      (∃ s ∈ p.tree.nodes, binaryPanics s = true) ∧ ∃ s ∈ t.nodes, isFormat s.element = true := by
  obtain ⟨n, p, hn, hidle⟩ := optimize_settles hparser hthreshold hlimit hsize
  cases hexecute : execute context n t with
  | ended run =>
    obtain rfl : run = .settled p := (runFrom_of_executeFrom hexecute).symm.trans (hn n le_rfl)
    exact .inl ⟨n, p, fun fuel hfuel => executeFrom_mono hexecute (by simp) hfuel, hidle⟩
  | panicked q =>
    have hkeeps : ∀ {rule : Rule} {memory u u'}, weigh formatWeight u ≤ weigh formatWeight t →
        (rule.apply context memory u).1 = some u' → weigh formatWeight u' ≤ weigh formatWeight t :=
      fun hle happly => (Rule.apply_formats_le hparser happly).trans hle
    obtain ⟨hle, rule, -, hpanics⟩ := exists_panics_of_executeFrom hkeeps le_rfl hexecute
    obtain ⟨s, hs, hformat⟩ := rule.exists_binaryPanics hpanics
    have hne : weigh formatWeight t ≠ 0 := by
      have hmem := weigh_node_mem (w := formatWeight) q.tree hs
      rw [weigh_eq s, formatWeight, if_pos (isFormat_of_binaryPanics hformat)] at hmem
      omega
    exact .inr ⟨n, q, fun fuel hfuel => executeFrom_mono hexecute (by simp) hfuel, ⟨s, hs, hformat⟩,
      exists_isFormat hne⟩

end

/-- A sum is worked out in one step. -/
theorem execute_settles_sum :
    let script (value : Tree) := scriptOf [branch .commandExpression [] [value]]
    let sum := branch .binaryExpression [("Operator", "Plus")] [intTree 1, intTree 2]
    let p : Progress := { tree := script (intTree 3), applied := [.foldBinary] }
    (script sum).size < 2 ^ 63 ∧ (∀ fuel, 2 ≤ fuel → execute {} fuel (script sum) = .ended (.settled p)) ∧
      ∀ rule ∈ Rule.catalog, (rule.apply {} p.memory p.tree).1 = none := by
  intro script sum p
  have hsize : (script sum).size < 2 ^ 63 := by decide
  have htwo : execute {} 2 (script sum) = .ended (.settled p) := by decide +kernel
  have hall : ∀ fuel, 2 ≤ fuel → execute {} fuel (script sum) = .ended (.settled p) :=
    fun fuel hfuel => executeFrom_mono htwo (by simp) hfuel
  obtain ⟨n, q, hn, hidle⟩ | ⟨n, q, hn, -⟩ := @execute_settles {} _ rfl (by decide) rfl hsize
  · obtain rfl : p = q := by simpa [hall _ (Nat.le_max_right n 2)] using hn _ (Nat.le_max_left n 2)
    exact ⟨hsize, hall, hidle⟩
  · have := hn _ (Nat.le_max_left n 2)
    simp [hall _ (Nat.le_max_right n 2)] at this

/-- A pattern that asks for a width of 65536 brings the program down in the first step. -/
theorem execute_panics :
    let wide := branch .binaryExpression [("Operator", "Format")]
      [stringTree .singleQuoted "\x7b0,65536\x7d", stringTree .singleQuoted "x"]
    let t := scriptOf [branch .commandExpression [] [wide]]
    let context : Context := {}
    t.size < 2 ^ 63 ∧ context.parser = none ∧ 30 ≤ context.settings.renameThreshold ∧
      context.settings.maxSteps = none ∧ ∀ fuel, 0 < fuel → execute context fuel t = .panicked { tree := t } := by
  intro wide t context
  refine ⟨by decide, rfl, by decide, rfl, fun fuel hfuel => ?_⟩
  obtain ⟨fuel, rfl⟩ := Nat.exists_eq_add_one_of_ne_zero (Nat.ne_of_gt hfuel)
  exact executeFrom_panics (by decide +kernel)

end Unscramble
