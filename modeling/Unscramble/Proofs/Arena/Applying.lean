import Unscramble.Proofs.Arena.Deciding
import Unscramble.Proofs.Arena.Extending
import Unscramble.Proofs.Arena.Inlining
import Unscramble.Proofs.Arena.Promoting
import Unscramble.Proofs.Arena.Propagating
import Unscramble.Proofs.Arena.Reversing
import Unscramble.Proofs.Arena.Storing
import Unscramble.Proofs.WellFormed

/-! One application of a rule to an arena. It leads to the tree that the rule leads to, the nodes still form a tree,
and the arena is said to have changed if there is a new tree. -/
namespace Unscramble

open IdTree Arena Simplify

/-- Every node in reach of the root stands in one place only, and no node stands below itself. -/
def Arena.TreeShaped (a : Arena) : Prop := ∃ t, a.Shape t

section
variable {a : Arena} {t : IdTree} {context : Context} {memory : Memory} {rule : Rule}

theorem Arena.Shape.plan_does (h : a.Shape t) (rule : Rule) : (rule.plan a).Does a (rule.simplify? a.toTree) := by
  cases rule with
  | removeEmptyContainers => exact h.replacingEach_does fun s => if isEmptyOptional s then some [] else none
  | foldBinary => exact h.replacingEach_does fun s => (binaryValue? s).map ([·.toTree])
  | foldInvokeMember =>
    exact h.replacingEach_does fun s => (invocationValue? s <|> propertyValue? s).map ([·.toTree .singleQuoted])
  | foldConversions => exact h.replacingEach_does fun s => (castOf? s).map ([·.toTree])
  | foldIndex => exact h.replacingEach_does fun s => (indexValue? s).map ([·.toTree .singleQuoted])
  | prefixCase | barewordCase | memberCase | commandBareword | aliasToCmdlet | specialVariableCase
  | typeConstraintFromConvert | typeNameCase => exact h.respelling_does _
  | removeUnusedVariable => exact h.removeUnusedVariable_does
  | unwrapParen => exact h.unwrapParen_does
  | unwrapPipeline => exact h.unwrapPipeline_does
  | unwrapSingleArray => exact h.unwrapSingleArray_does
  | removeUnassignedUse => exact h.removeUnassignedUse_does
  | deadBranches => exact h.deadBranches_does
  | unaryJoin => exact h.unaryJoin_does
  | reverseConstArray => exact h.reverseConstArray_does
  | propagateConstants => exact h.propagateConstants_does
  | inlineInvokeExpression | renameLongNames => exact h.does_nothing rfl

theorem Arena.Shape.planWith_does (h : a.Shape t) (context : Context) (memory : Memory) (rule : Rule) :
    (rule.planWith context memory a).1.Does a (rule.apply context memory a.toTree).1 ∧
      (rule.planWith context memory a).2 = (rule.apply context memory a.toTree).2 := by
  have hplan := h.plan_does rule
  cases rule with
  | inlineInvokeExpression => exact h.inlineInvokeExpression_does context memory
  | renameLongNames => exact h.renameLongNames_does context.settings.renameThreshold memory
  | _ => exact ⟨hplan, rfl⟩

/-- What comes of applying a rule to an arena is what comes of applying it to the tree. -/
structure Applied.Agrees (applied : Applied) (t : Tree) (new : Option Tree × Memory) : Prop where
  memory : applied.memory = new.2
  changed : applied.changed = new.1.isSome
  toTree : applied.arena.toTree = new.1.getD t
  shaped : applied.arena.TreeShaped

/-- A rule can be applied to every arena whose nodes form a tree, unless working out the operators of that tree
brings the program down. -/
theorem Rule.exists_applied (h : a.TreeShaped) (context : Context) (memory : Memory)
    (hsafe : rule.panics a.toTree = false) :
    ∃ applied, rule.applyTo? context memory a = some applied ∧
      applied.Agrees a.toTree (rule.apply context memory a.toTree) := by
  obtain ⟨t, h⟩ := h
  obtain ⟨hdoes, hmemory⟩ := h.planWith_does context memory rule
  exact ⟨_, if_neg (by simp [hsafe]), hmemory, hdoes.changed, hdoes.toTree, hdoes.shape⟩

theorem Rule.applyTo?_eq_none_iff (h : a.TreeShaped) :
    rule.applyTo? context memory a = none ↔ rule.panics a.toTree = true := by
  cases hpanics : rule.panics a.toTree with
  | true => simp [Rule.applyTo?, hpanics]
  | false =>
    obtain ⟨applied, happlied, -⟩ := Rule.exists_applied h context memory hpanics
    simp [happlied]

theorem Rule.agrees_of_applyTo? (h : a.TreeShaped) {applied : Applied}
    (happlied : rule.applyTo? context memory a = some applied) :
    applied.Agrees a.toTree (rule.apply context memory a.toTree) := by
  have hsafe : rule.panics a.toTree = false := by
    by_contra hpanics
    rw [(Rule.applyTo?_eq_none_iff h).mpr (by simpa using hpanics)] at happlied
    cases happlied
  obtain ⟨applied', happlied', hagrees⟩ := Rule.exists_applied h context memory hsafe
  obtain rfl : applied' = applied := Option.some.inj (happlied'.symm.trans happlied)
  exact hagrees

end

/-- A rule can be applied to every arena whose nodes form a well formed tree, and they form one afterwards. That an
operator brings the program down is the only way in which this can fail. -/
theorem Rule.applyTo?_wellFormed (rule : Rule) (context : Context) (memory : Memory) {a : Arena}
    (hparser : ∀ parser earlier script parsed, context.parser = some parser → parser earlier script = .ok parsed →
      WellFormed parsed)
    (hshaped : a.TreeShaped) (ht : WellFormed a.toTree) (hsafe : rule.panics a.toTree = false) :
    ∃ applied, rule.applyTo? context memory a = some applied ∧ applied.arena.TreeShaped ∧
      WellFormed applied.arena.toTree := by
  obtain ⟨applied, happlied, hagrees⟩ := Rule.exists_applied hshaped context memory hsafe
  refine ⟨applied, happlied, hagrees.shaped, ?_⟩
  rw [hagrees.toTree]
  cases hnew : (rule.apply context memory a.toTree).1 with
  | none => exact ht
  | some t' => exact (Rule.apply_application hnew).wellFormed hparser ht

/-- A script that runs `1` from a string, and a parser that knows that string. -/
theorem Rule.applyTo?_wellFormed_inlined :
    let command := .branch .command []
      [.branch .commandElements [] [stringTree .bareWord "iex", stringTree .singleQuoted "1"]]
    let parsed := .branch .scriptBlock [] [.branch .namedBlock [] [.branch .statements [] [intTree 1]]]
    let context : Context := { parser := some fun _ _ => .ok parsed }
    let a := Arena.ofTree (.branch .statements [] [command])
    a.TreeShaped ∧ WellFormed a.toTree ∧
      ∃ applied, Rule.inlineInvokeExpression.applyTo? context {} a = some applied ∧
        applied.arena.toTree = .branch .statements [] [intTree 1] ∧ applied.arena.TreeShaped ∧
          WellFormed applied.arena.toTree := by
  intro command parsed context a
  have hparser : ∀ parser earlier script tree, context.parser = some parser → parser earlier script = .ok tree →
      WellFormed tree := by
    intro parser earlier script tree h htree
    cases h
    cases htree
    exact ⟨by decide, by decide, by decide, by decide⟩
  obtain ⟨hshape, htree⟩ := Arena.shape_ofTree (.branch .statements [] [command])
  have hwell : WellFormed a.toTree := htree ▸ ⟨by decide, by decide, by decide, by decide⟩
  obtain ⟨applied, happlied, hshaped, hwell'⟩ :=
    Rule.applyTo?_wellFormed .inlineInvokeExpression context {} hparser ⟨_, hshape⟩ hwell rfl
  refine ⟨⟨_, hshape⟩, hwell, applied, happlied, ?_, hshaped, hwell'⟩
  have hresult : (Rule.inlineInvokeExpression.applyTo? context {} a).map (·.arena.toTree) =
      some (.branch .statements [] [intTree 1]) := by
    simp only [context, parsed, a, command]
    decide +kernel
  rw [happlied] at hresult
  exact Option.some.inj hresult

/-- A pattern that asks for a width of 65536 leads to no tree. -/
theorem Rule.applyTo?_panics :
    let wide := .branch .binaryExpression [("Operator", "Format")]
      [stringTree .singleQuoted "\x7b0,65536\x7d", stringTree .singleQuoted "x"]
    let a := Arena.ofTree (.branch .statements [] [.branch .commandExpression [] [wide]])
    a.TreeShaped ∧ WellFormed a.toTree ∧ ∀ context memory, Rule.foldBinary.applyTo? context memory a = none := by
  intro wide a
  obtain ⟨hshape, htree⟩ := Arena.shape_ofTree (.branch .statements [] [.branch .commandExpression [] [wide]])
  have hwell : WellFormed a.toTree := htree ▸ ⟨by decide, by decide, by decide, by decide⟩
  refine ⟨⟨_, hshape⟩, hwell, fun context memory => ?_⟩
  rw [Rule.applyTo?_eq_none_iff ⟨_, hshape⟩, htree]
  decide +kernel

/-- Nothing but an operator that brings the program down keeps a rule from saying whether it has changed the tree,
and what it says is true. Where it may consult a parser, a text may be replaced by itself. -/
theorem Rule.applyTo?_changed (rule : Rule) {context : Context} {memory : Memory} {a : Arena}
    (hshaped : a.TreeShaped) (hmemory : Reachable memory) :
    (rule.applyTo? context memory a = none ↔ rule.panics a.toTree = true) ∧
      ∀ applied ∈ rule.applyTo? context memory a,
        (applied.changed = false → applied.arena.toTree = a.toTree) ∧
          (context.parser = none → (applied.changed = true ↔ applied.arena.toTree ≠ a.toTree)) := by
  refine ⟨Rule.applyTo?_eq_none_iff hshaped, fun applied happlied => ?_⟩
  have hagrees := Rule.agrees_of_applyTo? hshaped happlied
  rw [hagrees.changed, hagrees.toTree]
  cases hnew : (rule.apply context memory a.toTree).1 with
  | none => simp
  | some t' =>
    refine ⟨by simp, fun hparser => ?_⟩
    simpa using rule.apply_ne hparser hmemory hnew

/-- A name that has just been chosen is renamed again where all names are long. -/
theorem Rule.applyTo?_changed_renamed :
    let context : Context := { settings := { renameThreshold := 0 } }
    let name := .leaf .variableRef [("VariablePath", "deob_0")] none
    let memory := (Rule.renameLongNames.apply context {} name).2
    let a := Arena.ofTree name
    a.TreeShaped ∧ Reachable memory ∧ context.parser = none ∧
      ∃ applied, Rule.renameLongNames.applyTo? context memory a = some applied ∧ applied.changed = true ∧
        applied.arena.toTree ≠ a.toTree := by
  intro context name memory a
  have hmemory : Reachable memory := .apply context .renameLongNames name .start
  obtain ⟨hshape, -⟩ := Arena.shape_ofTree name
  obtain ⟨hnone, hsome⟩ := @Rule.applyTo?_changed .renameLongNames context memory a ⟨_, hshape⟩ hmemory
  have hchanged : (Rule.renameLongNames.applyTo? context memory a).map (·.changed) = some true := by decide +kernel
  obtain ⟨applied, happlied, hchanged⟩ := Option.map_eq_some_iff.mp hchanged
  exact ⟨⟨_, hshape⟩, hmemory, rfl, applied, happlied, hchanged, ((hsome applied happlied).2 rfl).mp hchanged⟩

end Unscramble
