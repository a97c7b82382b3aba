/-! Kinds of the nodes of a script. The set is closed but for `unsupported`, which keeps the
element name of a construct the library has no rules for. -/
namespace Unscramble

/-- The element names of the constructs that there are rules for. -/
def knownTags : List String :=
  ["ScriptBlockAst", "NamedBlockAst", "StatementBlockAst", "ParamBlockAst", "ParameterAst",
    "AttributeAst", "NamedAttributeArgumentAst", "FunctionDefinitionAst", "PipelineAst",
    "CommandAst", "CommandExpressionAst", "CommandParameterAst", "AssignmentStatementAst",
    "IfStatementAst", "WhileStatementAst", "DoWhileStatementAst", "DoUntilStatementAst",
    "ForStatementAst", "ForEachStatementAst", "SwitchStatementAst", "SwitchClause",
    "TryStatementAst", "CatchClauseAst", "ReturnStatementAst", "ExitStatementAst",
    "ThrowStatementAst", "BreakStatementAst", "ContinueStatementAst", "FileRedirectionAst",
    "MergingRedirectionAst", "ErrorStatementAst", "BinaryExpressionAst", "UnaryExpressionAst",
    "ParenExpressionAst", "SubExpressionAst", "ArrayExpressionAst", "ArrayLiteralAst",
    "HashtableAst", "KeyValuePair", "StringConstantExpressionAst", "ExpandableStringExpressionAst",
    "ConstantExpressionAst", "VariableExpressionAst", "IndexExpressionAst", "MemberExpressionAst",
    "InvokeMemberExpressionAst", "ConvertExpressionAst", "TypeConstraintAst", "TypeExpressionAst",
    "ScriptBlockExpressionAst", "ErrorExpressionAst", "Statements", "Elements", "Arguments",
    "CommandElements", "PipelineElements", "Attributes", "Redirections", "CatchTypes",
    "CatchClauses", "Parameters", "PositionalArguments", "NamedArguments", "Clauses",
    "NestedExpressions", "KeyValuePairs", "Initializer", "Condition", "Iterator", "Traps",
    "UsingStatements"]

/-- A node is only unsupported if its element name is none of the known ones. -/
inductive Kind where
  | scriptBlock | namedBlock | statementBlock | paramBlock | parameter | attributeItem
  | namedAttributeArgument | functionDefinition | pipeline | command | commandExpression
  | commandParameter | assignment | ifElse | whileLoop | doWhile | doUntil | forLoop | forEach
  | switchStatement | switchClause | tryCatch | catchClause | returnStatement | exitStatement
  | throwStatement | breakStatement | continueStatement | fileRedirection | mergingRedirection
  | errorStatement | binaryExpression | unaryExpression | parenExpression | subExpression
  | arrayExpression | arrayLiteral | hashtable | keyValuePair | stringConstant | expandableString
  | constant | variableRef | indexExpression | memberExpression | invokeMember | convert
  | typeConstraint | typeExpression | scriptBlockExpression | errorExpression | statements
  | elements | arguments | commandElements | pipelineElements | attributeList | redirections
  | catchTypes | catchClauses | parameters | positionalArguments | namedArguments | clauses
  | nestedExpressions | keyValuePairs | initializer | condition | iterator | traps
  | usingStatements
  | unsupported (tag : String) (foreign : tag ∉ knownTags := by decide)
  deriving DecidableEq, Inhabited

namespace Kind

/-- The element name of a kind in a tree document. -/
def tag : Kind → String
  | .scriptBlock => "ScriptBlockAst"
  | .namedBlock => "NamedBlockAst"
  | .statementBlock => "StatementBlockAst"
  | .paramBlock => "ParamBlockAst"
  | .parameter => "ParameterAst"
  | .attributeItem => "AttributeAst"
  | .namedAttributeArgument => "NamedAttributeArgumentAst"
  | .functionDefinition => "FunctionDefinitionAst"
  | .pipeline => "PipelineAst"
  | .command => "CommandAst"
  | .commandExpression => "CommandExpressionAst"
  | .commandParameter => "CommandParameterAst"
  | .assignment => "AssignmentStatementAst"
  | .ifElse => "IfStatementAst"
  | .whileLoop => "WhileStatementAst"
  | .doWhile => "DoWhileStatementAst"
  | .doUntil => "DoUntilStatementAst"
  | .forLoop => "ForStatementAst"
  | .forEach => "ForEachStatementAst"
  | .switchStatement => "SwitchStatementAst"
  | .switchClause => "SwitchClause"
  | .tryCatch => "TryStatementAst"
  | .catchClause => "CatchClauseAst"
  | .returnStatement => "ReturnStatementAst"
  | .exitStatement => "ExitStatementAst"
  | .throwStatement => "ThrowStatementAst"
  | .breakStatement => "BreakStatementAst"
  | .continueStatement => "ContinueStatementAst"
  | .fileRedirection => "FileRedirectionAst"
  | .mergingRedirection => "MergingRedirectionAst"
  | .errorStatement => "ErrorStatementAst"
  | .binaryExpression => "BinaryExpressionAst"
  | .unaryExpression => "UnaryExpressionAst"
  | .parenExpression => "ParenExpressionAst"
  | .subExpression => "SubExpressionAst"
  | .arrayExpression => "ArrayExpressionAst"
  | .arrayLiteral => "ArrayLiteralAst"
  | .hashtable => "HashtableAst"
  | .keyValuePair => "KeyValuePair"
  | .stringConstant => "StringConstantExpressionAst"
  | .expandableString => "ExpandableStringExpressionAst"
  | .constant => "ConstantExpressionAst"
  | .variableRef => "VariableExpressionAst"
  | .indexExpression => "IndexExpressionAst"
  | .memberExpression => "MemberExpressionAst"
  | .invokeMember => "InvokeMemberExpressionAst"
  | .convert => "ConvertExpressionAst"
  | .typeConstraint => "TypeConstraintAst"
  | .typeExpression => "TypeExpressionAst"
  | .scriptBlockExpression => "ScriptBlockExpressionAst"
  | .errorExpression => "ErrorExpressionAst"
  | .statements => "Statements"
  | .elements => "Elements"
  | .arguments => "Arguments"
  | .commandElements => "CommandElements"
  | .pipelineElements => "PipelineElements"
  | .attributeList => "Attributes"
  | .redirections => "Redirections"
  | .catchTypes => "CatchTypes"
  | .catchClauses => "CatchClauses"
  | .parameters => "Parameters"
  | .positionalArguments => "PositionalArguments"
  | .namedArguments => "NamedArguments"
  | .clauses => "Clauses"
  | .nestedExpressions => "NestedExpressions"
  | .keyValuePairs => "KeyValuePairs"
  | .initializer => "Initializer"
  | .condition => "Condition"
  | .iterator => "Iterator"
  | .traps => "Traps"
  | .usingStatements => "UsingStatements"
  | .unsupported tag _ => tag

def known : List Kind := [
    .scriptBlock, .namedBlock, .statementBlock, .paramBlock, .parameter, .attributeItem,
    .namedAttributeArgument, .functionDefinition, .pipeline, .command, .commandExpression,
    .commandParameter, .assignment, .ifElse, .whileLoop, .doWhile, .doUntil, .forLoop, .forEach,
    .switchStatement, .switchClause, .tryCatch, .catchClause, .returnStatement, .exitStatement,
    .throwStatement, .breakStatement, .continueStatement, .fileRedirection, .mergingRedirection,
    .errorStatement, .binaryExpression, .unaryExpression, .parenExpression, .subExpression,
    .arrayExpression, .arrayLiteral, .hashtable, .keyValuePair, .stringConstant,
    .expandableString, .constant, .variableRef, .indexExpression, .memberExpression, .invokeMember,
    .convert, .typeConstraint, .typeExpression, .scriptBlockExpression, .errorExpression,
    .statements, .elements, .arguments, .commandElements, .pipelineElements, .attributeList,
    .redirections, .catchTypes, .catchClauses, .parameters, .positionalArguments,
    .namedArguments, .clauses, .nestedExpressions, .keyValuePairs, .initializer, .condition,
    .iterator, .traps, .usingStatements]

def ofTag (tag : String) : Kind :=
  if h : tag ∈ knownTags then (known.find? (·.tag == tag)).getD default else .unsupported tag h

/-- The name of the kind itself, which is the same for all that is unsupported. -/
def name : Kind → String
  | .unsupported .. => "Unsupported"
  | kind => kind.tag

/-- The same kind, or two constructs that are both unsupported. -/
def alike : Kind → Kind → Bool
  | .unsupported .., .unsupported .. => true
  | a, b => a == b

/-- Statements whose body may run any number of times. -/
def isLoop : Kind → Bool
  | .whileLoop | .doWhile | .doUntil | .forLoop | .forEach => true
  | _ => false

/-- Statements that end in a block, so that no `;` follows them. -/
def isBlockStatement : Kind → Bool
  | .ifElse | .tryCatch | .switchStatement | .functionDefinition => true
  | kind => kind.isLoop

/-- Kinds that are only parsed as one operand inside a grouping node. -/
def needsGrouping : Kind → Bool
  | .command | .unaryExpression | .binaryExpression => true
  | _ => false

/-- Whether a node of the kind may have that many children. -/
def allowsArity (kind : Kind) (n : Nat) : Bool :=
  match kind with
  | .binaryExpression | .assignment | .indexExpression | .memberExpression | .convert
  | .whileLoop | .doWhile | .doUntil | .keyValuePair | .switchClause => n == 2
  | .unaryExpression | .parenExpression | .arrayLiteral | .scriptBlockExpression
  | .statementBlock => n == 1
  | .invokeMember => n == 2 || n == 3
  | .ifElse => 2 ≤ n
  | .forEach => n == 3
  | .forLoop => n == 4
  | .initializer | .condition | .iterator => n ≤ 1
  | _ => true

end Kind
end Unscramble
