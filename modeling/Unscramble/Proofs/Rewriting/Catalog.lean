import Unscramble.Proofs.Rewriting.Branches
import Unscramble.Proofs.Rewriting.Spells
import Unscramble.Proofs.Rewriting.Statements
import Unscramble.Proofs.Rewriting.Walk

/-! What one application of a rule of the catalog can do. -/
namespace Unscramble

open Simplify

/-- The ways in which a rule gets from a tree to another one: a chain of its local steps, a chain
of new spellings, or the statements of a parsed script in the place of one statement. -/
inductive Application (context : Context) (rule : Rule) (t t' : Tree) : Prop
  | steps : Changes (LocalStep rule) t t' → Application context rule t t'
  | spelling : Changes (Spelled rule) t t' → Application context rule t t'
  | graft {parser earlier script parsed} : context.parser = some parser → parser earlier script = .ok parsed →
      Within (Splice (Grafted script parsed)) t t' → Application context rule t t'

theorem Rule.apply_application {rule : Rule} {context : Context} {memory : Memory} {t t' : Tree}
    (h : (rule.apply context memory t).1 = some t') : Application context rule t t' := by
  cases rule with
  | removeEmptyContainers => exact .steps (removeEmptyContainers_changes h)
  | removeUnusedVariable => exact .steps (removeUnusedVariable_changes h)
  | unwrapParen => exact .steps (unwrapParen_changes h)
  | unwrapPipeline => exact .steps (unwrapPipeline_changes h)
  | unwrapSingleArray => exact .steps (unwrapSingleArray_changes h)
  | removeUnassignedUse => exact .steps (removeUnassignedUse_changes h)
  | deadBranches => exact .steps (deadBranches_changes h)
  | unaryJoin => exact .steps (unaryJoin_changes h)
  | foldBinary => exact .steps (foldBinary_changes h)
  | foldInvokeMember => exact .steps (foldInvokeMember_changes h)
  | reverseConstArray => exact .steps (reverseConstArray_changes h)
  | inlineInvokeExpression =>
    obtain ⟨parser, earlier, script, parsed, hparser, hparsed, hwithin⟩ := inlineInvokeExpression_within h
    exact .graft hparser hparsed hwithin
  | foldConversions => exact .steps (foldConversions_changes h)
  | foldIndex => exact .steps (foldIndex_changes h)
  | prefixCase => exact .spelling ((prefixCaseOf_spells 0).spelled h)
  | barewordCase => exact .spelling ((barewordCaseOf_spells 0).spelled h)
  | memberCase => exact .spelling ((memberCaseOf_spells 0).spelled h)
  | commandBareword => exact .spelling ((commandBarewordOf_spells 0).spelled h)
  | aliasToCmdlet => exact .spelling ((aliasToCmdletOf_spells 0).spelled h)
  | specialVariableCase => exact .spelling ((specialVariableCaseOf_spells 0).spelled h)
  | typeConstraintFromConvert => exact .spelling ((typeConstraintOf_spells 0).spelled h)
  | typeNameCase => exact .spelling ((typeNameCaseOf_spells 0).spelled h)
  | renameLongNames => exact .spelling ((renamedElement?_spells _ _).spelled h)
  | propagateConstants => exact .steps (propagateConstants_changes h)

end Unscramble
