import Unscramble.Simplify.DeadBranch
import Unscramble.Simplify.DeadVariable
import Unscramble.Simplify.EmptyList
import Unscramble.Simplify.Grouping
import Unscramble.Simplify.Inline
import Unscramble.Simplify.Literals
import Unscramble.Simplify.Propagation
import Unscramble.Simplify.Renaming
import Unscramble.Simplify.ReversedArray
import Unscramble.Simplify.Spelling

/-! The catalog of rules, in the order in which they are tried. A rule answers the simplified tree,
or nothing if it has no match. -/
namespace Unscramble

inductive Rule where
  | removeEmptyContainers | removeUnusedVariable | unwrapParen | unwrapPipeline
  | unwrapSingleArray | removeUnassignedUse | deadBranches | unaryJoin | foldBinary
  | foldInvokeMember | reverseConstArray | inlineInvokeExpression | foldConversions | foldIndex
  | prefixCase | barewordCase | memberCase | commandBareword | aliasToCmdlet
  | specialVariableCase | typeConstraintFromConvert | typeNameCase | renameLongNames
  | propagateConstants
  deriving DecidableEq

/-- How many of its matches a rule takes in one application. -/
inductive Discipline where
  | firstMatch | exhaustive
  deriving DecidableEq

def Discipline.name : Discipline → String
  | .firstMatch => "FirstMatch"
  | .exhaustive => "Exhaustive"

namespace Rule

/-- All rules, in the order in which they are tried. -/
def catalog : List Rule := [
  .removeEmptyContainers, .removeUnusedVariable, .unwrapParen, .unwrapPipeline,
  .unwrapSingleArray, .removeUnassignedUse, .deadBranches, .unaryJoin, .foldBinary,
  .foldInvokeMember, .reverseConstArray, .inlineInvokeExpression, .foldConversions, .foldIndex,
  .prefixCase, .barewordCase, .memberCase, .commandBareword, .aliasToCmdlet,
  .specialVariableCase, .typeConstraintFromConvert, .typeNameCase, .renameLongNames,
  .propagateConstants]

def name : Rule → String
  | .removeEmptyContainers => "remove_empty_containers"
  | .removeUnusedVariable => "remove_unused_variable"
  | .unwrapParen => "unwrap_paren"
  | .unwrapPipeline => "unwrap_pipeline"
  | .unwrapSingleArray => "unwrap_single_array"
  | .removeUnassignedUse => "remove_unassigned_use"
  | .deadBranches => "dead_branches"
  | .unaryJoin => "unary_join"
  | .foldBinary => "fold_binary"
  | .foldInvokeMember => "fold_invoke_member"
  | .reverseConstArray => "reverse_const_array"
  | .inlineInvokeExpression => "inline_invoke_expression"
  | .foldConversions => "fold_conversions"
  | .foldIndex => "fold_index"
  | .prefixCase => "prefix_case"
  | .barewordCase => "bareword_case"
  | .memberCase => "member_case"
  | .commandBareword => "command_bareword"
  | .aliasToCmdlet => "alias_to_cmdlet"
  | .specialVariableCase => "special_variable_case"
  | .typeConstraintFromConvert => "type_constraint_from_convert"
  | .typeNameCase => "type_name_case"
  | .renameLongNames => "rename_long_names"
  | .propagateConstants => "propagate_constants"

def ofName? (name : String) : Option Rule := catalog.find? (·.name == name)

def description : Rule → String
  | .removeEmptyContainers => "Remove empty Attributes, Redirections and CatchTypes lists"
  | .removeUnusedVariable => "Delete assignments to variables that are never read"
  | .unwrapParen => "Drop parentheses around a single self-delimited expression"
  | .unwrapPipeline => "Replace a single-element pipeline by its element"
  | .unwrapSingleArray => "Replace a one-element array literal by its element"
  | .removeUnassignedUse => "Simplify arithmetic involving never-assigned variables"
  | .deadBranches => "Remove branches and loops whose guard is a compile-time constant"
  | .unaryJoin => "Rewrite unary -join as a binary join with an empty separator"
  | .foldBinary => "Evaluate arithmetic, string and comparison operators over literals"
  | .foldInvokeMember => "Evaluate member invocations whose receiver and arguments are literals"
  | .reverseConstArray => "Apply [array]::Reverse to a constant array at its assignment"
  | .inlineInvokeExpression => "Inline Invoke-Expression calls with a literal script argument"
  | .foldConversions => "Evaluate casts of literal values"
  | .foldIndex => "Evaluate indexing of literals by literal indexes"
  | .aliasToCmdlet => "Expand command aliases to full cmdlet names"
  | .renameLongNames => "Replace very long variable names by short generated ones"
  | .propagateConstants => "Replace reads of constant variables by their value"
  | .prefixCase | .barewordCase | .memberCase | .commandBareword | .specialVariableCase
  | .typeConstraintFromConvert | .typeNameCase => "No description available"

def discipline : Rule → Discipline
  | .removeUnusedVariable | .unwrapParen | .unwrapPipeline | .unwrapSingleArray
  | .removeUnassignedUse | .deadBranches | .reverseConstArray | .inlineInvokeExpression =>
    .firstMatch
  | _ => .exhaustive

/-- What a rule does that neither remembers nor consults anything. -/
def simplify? : Rule → Tree → Option Tree
  | .removeEmptyContainers => Simplify.removeEmptyContainers
  | .removeUnusedVariable => Simplify.removeUnusedVariable
  | .unwrapParen => Simplify.unwrapParen
  | .unwrapPipeline => Simplify.unwrapPipeline
  | .unwrapSingleArray => Simplify.unwrapSingleArray
  | .removeUnassignedUse => Simplify.removeUnassignedUse
  | .deadBranches => Simplify.deadBranches
  | .unaryJoin => Simplify.unaryJoin
  | .foldBinary => Simplify.foldBinary
  | .foldInvokeMember => Simplify.foldInvokeMember
  | .reverseConstArray => Simplify.reverseConstArray
  | .foldConversions => Simplify.foldConversions
  | .foldIndex => Simplify.foldIndex
  | .prefixCase => Simplify.prefixCase
  | .barewordCase => Simplify.barewordCase
  | .memberCase => Simplify.memberCase
  | .commandBareword => Simplify.commandBareword
  | .aliasToCmdlet => Simplify.aliasToCmdlet
  | .specialVariableCase => Simplify.specialVariableCase
  | .typeConstraintFromConvert => Simplify.typeConstraintFromConvert
  | .typeNameCase => Simplify.typeNameCase
  | .propagateConstants => Simplify.propagateConstants
  | .inlineInvokeExpression | .renameLongNames => fun _ => none

/-- Whether a rule brings the program down on a tree. All operators on literals are worked out before one
of them is replaced. -/
def panics (t : Tree) : Rule → Bool
  | .foldBinary => t.nodes.any Simplify.binaryPanics
  | _ => false

/-- Applies a rule once: the new tree, if the rule has a match, and what there is to remember. -/
def apply (context : Simplify.Context) (memory : Simplify.Memory) (t : Tree) :
    Rule → Option Tree × Simplify.Memory
  | .inlineInvokeExpression => Simplify.inlineInvokeExpression context memory t
  | .renameLongNames => Simplify.renameLongNames context.settings.renameThreshold memory t
  | rule => (rule.simplify? t, memory)

end Rule
end Unscramble
