import Unscramble.Script.Piece
import Unscramble.Syntax.Operator
import Unscramble.Syntax.Quoting
import Unscramble.Syntax.Tree
import Unscramble.Text.Blank
import Unscramble.Text.Letter
import Unscramble.Text.Split

/-! Printing a tree as a script. The printed form of a node is put together from the printed forms
of the nodes below it. Nothing is refused: what has no spelling is left out. -/
namespace Unscramble.Script

/-- A node with its pieces at every nesting level, over the printed forms of its children. -/
inductive Printed where
  | mk (element : Element) (pieces : Nat → List Piece) (parts : List Printed)

namespace Printed

def element : Printed → Element
  | .mk element _ _ => element

def pieces : Printed → Nat → List Piece
  | .mk _ pieces _ => pieces

def parts : Printed → List Printed
  | .mk _ _ parts => parts

def is (p : Printed) (kind : Kind) : Bool := p.element.kind == kind

end Printed

def partOf? (kind : Kind) (parts : List Printed) : Option Printed := parts.find? (·.is kind)

/-- The parts of the first part of a kind, or nothing. -/
def listOf (kind : Kind) (parts : List Printed) : List Printed :=
  ((partOf? kind parts).map Printed.parts).getD []

def word (s : String) : List Piece := [.text s]

def openBrace : List Piece := [.text "\x7b"]

def closeBrace : List Piece := [.text "\x7d"]

def emptyBraces : List Piece := [.text "\x7b\x7d"]

/-- The pieces of a part that may be missing. -/
def optional (level : Nat) (p : Option Printed) : List Piece :=
  (p.map (·.pieces level)).getD []

/-- The same behind a lead, which is missing together with the part. -/
def optionalAfter (lead : String) (level : Nat) : Option Printed → List Piece
  | some p => word lead ++ p.pieces level
  | none => []

def separated (separator : String) (level : Nat) : List Printed → List Piece
  | [] => []
  | [p] => p.pieces level
  | p :: ps => p.pieces level ++ word separator ++ separated separator level ps

/-- Statements that end in a block: a `;` behind them would be an empty statement. -/
def endsInBlock (p : Printed) : Bool :=
  p.element.kind.isBlockStatement ||
    (p.is .pipeline &&
      match (listOf .pipelineElements p.parts).getLast? with
      | none => false
      | some last =>
        let tail :=
          match last.element.kind with
          | .commandExpression => last.parts.head?
          | .command => (listOf .commandElements last.parts).getLast?
          | _ => none
        tail.any (·.is .scriptBlockExpression))

def statementLines (level : Nat) (statements : List Printed) : List Piece :=
  statements.flatMap fun p =>
    .line level :: p.pieces level ++ if endsInBlock p then [] else word ";"

def braced (level : Nat) (statements : List Printed) : List Piece :=
  if statements.isEmpty then emptyBraces
  else openBrace ++ statementLines (level + 1) statements ++ [.line level] ++ closeBrace

/-- The block whose parts are given, in braces. -/
def block (level : Nat) (parts : List Printed) : List Piece := braced level (listOf .statements parts)

def optionalBlock (level : Nat) (p : Option Printed) : List Piece :=
  (p.map fun p => block level p.parts).getD []

def namedBlock (level : Nat) (e : Element) (parts : List Printed) : List Piece :=
  let statements := listOf .statements parts
  if e.flag "Unnamed" then statementLines level statements
  else .line level :: word (Text.lower (e.attr "BlockKind") ++ " ") ++ braced level statements

/-- What stands between the braces of a script block, a line for each of its parts. -/
def scriptBody (level : Nat) (parts : List Printed) : List Piece :=
  parts.flatMap fun p =>
    if p.is .namedBlock then p.pieces level else .line level :: p.pieces level

def scriptBlock (level : Nat) (parts : List Printed) : List Piece :=
  if parts.isEmpty then emptyBraces
  else openBrace ++ scriptBody (level + 1) parts ++ [.line level] ++ closeBrace

def paramBlock (level : Nat) (parts : List Printed) : List Piece :=
  (listOf .attributeList parts).flatMap (fun p => p.pieces level ++ [.line level]) ++
    word "param(" ++ separated ", " level (listOf .parameters parts) ++ word ")"

def parameter (level : Nat) (parts : List Printed) : List Piece :=
  let rest := parts.filter (!·.is .attributeList)
  (listOf .attributeList parts).flatMap (·.pieces level) ++ optional level rest[0]? ++
    optionalAfter " = " level rest[1]?

def attributeItem (level : Nat) (e : Element) (parts : List Printed) : List Piece :=
  let positional := listOf .positionalArguments parts
  let named := listOf .namedArguments parts
  word ("[" ++ e.attr "TypeName" ++ "(") ++ separated ", " level positional ++
    (if !positional.isEmpty && !named.isEmpty then word ", " else []) ++
    separated ", " level named ++ word ")]"

def functionDefinition (level : Nat) (e : Element) (parts : List Printed) : List Piece :=
  let parameters := listOf .parameters parts
  word ((if e.flag "IsFilter" then "filter " else "function ") ++ e.attr "Name") ++
    (if parameters.isEmpty then []
      else word "(" ++ separated ", " level parameters ++ word ")") ++
    word " " ++
    match partOf? .scriptBlock parts with
    | some body => scriptBlock level body.parts
    | none => emptyBraces

/-- The branches of a conditional after `lead`; the last part is the alternative if it has
no partner. -/
def branches (lead : String) (level : Nat) : List Printed → List Piece
  | [] => []
  | [otherwise] => word " else " ++ block level otherwise.parts
  | test :: body :: rest =>
    word lead ++ test.pieces level ++ word ") " ++ block level body.parts ++
      branches " elseif (" level rest

def loopStatement (level : Nat) (kind : Kind) : List Printed → List Piece
  | condition :: body :: _ =>
    match kind with
    | .whileLoop =>
      word "while (" ++ condition.pieces level ++ word ") " ++ block level body.parts
    | kind =>
      word "do " ++ block level body.parts ++
        word (if kind == .doUntil then " until (" else " while (") ++
        condition.pieces level ++ word ")"
  | _ => []

def forLoop (level : Nat) (parts : List Printed) : List Piece :=
  let part (kind : Kind) : List Piece := separated "; " level (listOf kind parts)
  word "for (" ++ part .initializer ++ word "; " ++ part .condition ++ word "; " ++
    part .iterator ++ word ") " ++ optionalBlock level (partOf? .statementBlock parts)

def forEach (level : Nat) : List Printed → List Piece
  | [item, body, collection] =>
    word "foreach (" ++ item.pieces level ++ word " in " ++ collection.pieces level ++
      word ") " ++ block level body.parts
  | _ => []

def switchFlags (e : Element) : List Piece :=
  (Text.splitWhere (· == ',') (e.attr "Flags").toList).flatMap fun flag =>
    let flag := Text.trim (String.ofList flag)
    if flag.isEmpty || Text.sameIgnoringCase flag "none" then []
    else word ("-" ++ Text.lower flag ++ " ")

def switchStatement (level : Nat) (e : Element) (parts : List Printed) : List Piece :=
  word "switch " ++ switchFlags e ++ word "(" ++ optional level parts.head? ++ word ") \x7b" ++
    (listOf .clauses parts).flatMap (fun p => .line (level + 1) :: p.pieces (level + 1)) ++
    (match partOf? .statementBlock (parts.drop 1) with
      | some otherwise => .line (level + 1) :: word "default " ++ block (level + 1) otherwise.parts
      | none => []) ++
    [.line level] ++ closeBrace

def tryCatch (level : Nat) (parts : List Printed) : List Piece :=
  word "try " ++ optionalBlock level parts.head? ++
    (listOf .catchClauses parts).flatMap (fun p => word " " ++ p.pieces level) ++
    match partOf? .statementBlock (parts.drop 1) with
    | some last => word " finally " ++ block level last.parts
    | none => []

def catchClause (level : Nat) (parts : List Printed) : List Piece :=
  let types := listOf .catchTypes parts
  word "catch " ++ (if types.isEmpty then [] else separated ", " level types ++ word " ") ++
    optionalBlock level (partOf? .statementBlock parts)

/-- A statement that leaves a block, with its label and its operand. -/
def keyword (name : String) (level : Nat) (e : Element) (parts : List Printed) : List Piece :=
  let label := e.attr "Label"
  word name ++ (if label.isEmpty then [] else word (" " ++ label)) ++
    optionalAfter " " level parts.head?

def redirections (level : Nat) (parts : List Printed) : List Piece :=
  (listOf .redirections parts).flatMap fun p => word " " ++ p.pieces level

def command (level : Nat) (e : Element) (parts : List Printed) : List Piece :=
  (match e.attr "InvocationOperator" with
    | "Ampersand" => word "& "
    | "Dot" => word ". "
    | _ => []) ++
    separated " " level (listOf .commandElements parts) ++ redirections level parts

/-- The number of an output stream; `output` is that of the main one. -/
def streamNumber (output : String) : String → String
  | "Error" => "2"
  | "Warning" => "3"
  | "Verbose" => "4"
  | "Debug" => "5"
  | "Information" => "6"
  | "All" => "*"
  | _ => output

def fileRedirection (level : Nat) (e : Element) (parts : List Printed) : List Piece :=
  word (streamNumber "" (e.attr "FromStream") ++ if e.flag "Append" then ">>" else ">") ++
    optionalAfter " " level parts.head?

def mergingRedirection (e : Element) : List Piece :=
  word (streamNumber "1" (e.attr "FromStream") ++ ">&" ++ streamNumber "1" (e.attr "ToStream"))

def binary (level : Nat) (e : Element) : List Printed → List Piece
  | left :: right :: _ =>
    let operator := (Operator.ofToken? (e.attr "Operator")).bind Operator.binaryText?
    left.pieces level ++ word (operator.getD " ") ++ right.pieces level
  | _ => []

def isSign (c : Char) : Bool := c == '-' || c == '+'

/-- Two signs in a row would be read as one operator, so parentheses keep them apart. -/
def unary (level : Nat) (e : Element) : List Printed → List Piece
  | [] => []
  | operand :: _ =>
    let operand := operand.pieces level
    match (Operator.ofToken? (e.attr "TokenKind")).bind Operator.unaryText? with
    | some (spelling, true) => operand ++ word spelling
    | some (spelling, false) =>
      if spelling.toList.getLast?.any isSign && (firstChar? operand).any isSign then
        word spelling ++ word "(" ++ operand ++ word ")"
      else word spelling ++ operand
    | none => operand

/-- The delimiters of a here-string. Only text of several lines keeps that form, and only when none
of its lines would close it. -/
def hereStringDelimiters? (quoting : Quoting) (s : List Char) : Option (String × String) :=
  let delimiters? : Option (String × String) :=
    match quoting with
    | .singleQuotedHere => some ("@'", "'@")
    | .doubleQuotedHere => some ("@\"", "\"@")
    | _ => none
  delimiters?.filter fun (_, close) =>
    s.contains '\n' && !s.contains '\r' &&
      !(Text.splitWhere (· == '\n') s).any close.toList.isPrefixOf

def stringConstant (e : Element) : String :=
  let quoting := ((e.attr? "StringConstantType").bind Quoting.ofName?).getD .singleQuoted
  let escaped (quoting : Quoting) : String := String.ofList (quoting.escape e.payload.toList)
  match hereStringDelimiters? quoting e.payload.toList with
  | some (start, close) => start ++ "\n" ++ escaped quoting ++ "\n" ++ close
  | none =>
    match quoting with
    | .bareWord => escaped .bareWord
    | .singleQuoted | .singleQuotedHere => "'" ++ escaped .singleQuoted ++ "'"
    | .doubleQuoted | .doubleQuotedHere => "\"" ++ escaped .doubleQuoted ++ "\""

def isNameChar (c : Char) : Bool := Text.isLetterOrNumber c || c == '_' || c == '?'

/-- Names that are read as a whole without braces around them. -/
def isPlainName (path : List Char) : Bool :=
  [['$'], ['^'], ['?']].contains path ||
    match path.span (· != ':') with
    | (name, []) => !name.isEmpty && name.all isNameChar
    | (scope, _ :: name) =>
      !scope.isEmpty && scope.all Text.isLetterOrNumber && !name.isEmpty && name.all isNameChar

def variableName (e : Element) : String :=
  let sigil := if e.flag "Splatted" then "@" else "$"
  let path := e.attr "VariablePath"
  if isPlainName path.toList then sigil ++ path
  else
    let braced := path.toList.flatMap fun c => if c == '}' || c == '`' then ['`', c] else [c]
    sigil ++ "\x7b" ++ String.ofList braced ++ "\x7d"

def memberAccess (level : Nat) (e : Element) (arguments : Option (List Printed))
    (target name : Printed) : List Piece :=
  target.pieces level ++ word (if e.flag "Static" then "::" else ".") ++ name.pieces level ++
    match arguments with
    | some arguments => word "(" ++ separated ", " level arguments ++ word ")"
    | none => []

def member (level : Nat) (e : Element) (parts : List Printed) : List Piece :=
  let invoked := e.kind == .invokeMember
  match parts with
  | [arguments, target, name] =>
    if arguments.is .arguments then
      memberAccess level e (if invoked then some arguments.parts else none) target name
    else []
  | [target, name] => memberAccess level e (if invoked then some [] else none) target name
  | _ => []

def hashtable (level : Nat) (parts : List Printed) : List Piece :=
  let pairs := listOf .keyValuePairs parts
  if pairs.isEmpty then word "@\x7b\x7d"
  else
    word "@\x7b" ++ pairs.flatMap (fun p => .line (level + 1) :: p.pieces (level + 1)) ++
      [.line level] ++ closeBrace

/-- The statements of a block on one line. -/
def inlineStatements (level : Nat) (p : Printed) : List Piece :=
  if p.is .statementBlock then separated "; " level (listOf .statements p.parts)
  else p.pieces level

/-- The pieces of a node at a nesting level, from its element and the printed forms below it. -/
def pieces (e : Element) (parts : List Printed) (level : Nat) : List Piece :=
  match e.kind with
  | .scriptBlock => scriptBlock level parts
  | .namedBlock => namedBlock level e parts
  | .statementBlock => block level parts
  | .paramBlock => paramBlock level parts
  | .parameter => parameter level parts
  | .attributeItem => attributeItem level e parts
  | .namedAttributeArgument =>
    word (e.attr "ArgumentName") ++
      if e.flag "ExpressionOmitted" then [] else optionalAfter " = " level parts.head?
  | .functionDefinition => functionDefinition level e parts
  | .pipeline => separated " | " level (listOf .pipelineElements parts)
  | .command => command level e parts
  | .commandExpression => optional level parts.head? ++ redirections level parts
  | .commandParameter =>
    word ("-" ++ e.attr "ParameterName") ++ optionalAfter ":" level parts.head?
  | .assignment | .binaryExpression => binary level e parts
  | .ifElse => branches "if (" level parts
  | .whileLoop | .doWhile | .doUntil => loopStatement level e.kind parts
  | .forLoop => forLoop level parts
  | .forEach => forEach level parts
  | .switchStatement => switchStatement level e parts
  | .switchClause =>
    match parts with
    | [test, body] => test.pieces level ++ word " " ++ block level body.parts
    | _ => []
  | .tryCatch => tryCatch level parts
  | .catchClause => catchClause level parts
  | .returnStatement => keyword "return" level e parts
  | .exitStatement => keyword "exit" level e parts
  | .throwStatement => keyword "throw" level e parts
  | .breakStatement => keyword "break" level e parts
  | .continueStatement => keyword "continue" level e parts
  | .fileRedirection => fileRedirection level e parts
  | .mergingRedirection => mergingRedirection e
  | .unaryExpression => unary level e parts
  | .parenExpression => word "(" ++ separated "; " level parts ++ word ")"
  | .subExpression =>
    word "$(" ++ ((parts.head?.map (inlineStatements level)).getD []) ++ word ")"
  | .arrayExpression =>
    word "@(" ++ ((parts.head?.map (inlineStatements level)).getD []) ++ word ")"
  | .arrayLiteral => word "@(" ++ separated ", " level (listOf .elements parts) ++ word ")"
  | .hashtable => hashtable level parts
  | .keyValuePair =>
    match parts with
    | [key, value] => key.pieces level ++ word " = " ++ value.pieces level
    | _ => []
  | .stringConstant => word (stringConstant e)
  | .expandableString =>
    word ("\"" ++ String.ofList (Quoting.escapeExpandable e.payload.toList) ++ "\"")
  | .constant => word e.payload
  | .variableRef => word (variableName e)
  | .indexExpression =>
    match parts with
    | [target, index] => target.pieces level ++ word "[" ++ index.pieces level ++ word "]"
    | _ => []
  | .memberExpression | .invokeMember => member level e parts
  | .convert | .attributeList | .catchClauses => parts.flatMap (·.pieces level)
  | .typeConstraint | .typeExpression => word ("[" ++ e.attr "TypeName" ++ "]")
  | .scriptBlockExpression =>
    (parts.head?.map fun p => scriptBlock level p.parts).getD []
  | .statements => statementLines level parts
  | .commandElements | .redirections => separated " " level parts
  | .pipelineElements => separated " | " level parts
  | .initializer | .condition | .iterator => separated "; " level parts
  | .elements | .arguments | .catchTypes | .parameters | .positionalArguments | .namedArguments
  | .clauses | .nestedExpressions | .keyValuePairs | .traps | .usingStatements =>
    separated ", " level parts
  | .errorStatement | .errorExpression | .unsupported .. => []

mutual

def printed : Tree → Printed
  | .node element children =>
    let parts := printedAll children
    .mk element (pieces element parts) parts

def printedAll : List Tree → List Printed
  | [] => []
  | t :: ts => printed t :: printedAll ts

end

/-- The pieces of a whole script: the outermost script block has no braces. -/
def scriptPieces (t : Tree) : List Piece := scriptBody 0 (printed t).parts

/-- The text of a whole script. -/
def print (width : Nat) (t : Tree) : String :=
  String.ofList ((render width (scriptPieces t)).toList.dropWhile (· == '\n')) ++ "\n"

/-- The text of one node, as it stands inside a statement. -/
def printNode (width : Nat) (t : Tree) : String := render width ((printed t).pieces 0)

/-! ### Printing from the leaves up -/

mutual

/-- A tree is printed in another way here: what is printed of a node is finished text, and what stands above the node
is put around that text. -/
def typeset (width : Nat) : Tree → Printed
  | .node e cs =>
    let parts := typesetAll width cs
    .mk e (fun level => word (render width (pieces e parts level))) parts

def typesetAll (width : Nat) : List Tree → List Printed
  | [] => []
  | t :: ts => typeset width t :: typesetAll width ts

end

/-- The text of a whole script that is printed from the leaves up. -/
def typesetScript (width : Nat) (t : Tree) : String :=
  String.ofList ((render width (scriptBody 0 (typeset width t).parts)).toList.dropWhile (· == '\n')) ++ "\n"

end Unscramble.Script
