/-! Operators: the tokens that name them in a tree, and their spelling in a script. -/
namespace Unscramble

inductive Operator where
  | equals | plusEquals | minusEquals | multiplyEquals | divideEquals | remainderEquals | plus
  | minus | multiply | divide | rem | format | range | join | isplit | csplit | ireplace
  | creplace | imatch | cmatch | inotmatch | cnotmatch | ilike | clike | inotlike | cnotlike | ieq
  | ceq | ine | cne | ige | cge | igt | cgt | ile | cle | ilt | clt | icontains | ccontains
  | inotcontains | cnotcontains | iin | cin | inotin | cnotin | isType | isNotType | asType | and
  | or | xor | band | bor | bxor | bnot | not | exclaim | shl | shr | plusPlus | minusMinus
  | postfixPlusPlus | postfixMinusMinus | comma
  deriving DecidableEq

namespace Operator

def token : Operator → String
  | .equals => "Equals"
  | .plusEquals => "PlusEquals"
  | .minusEquals => "MinusEquals"
  | .multiplyEquals => "MultiplyEquals"
  | .divideEquals => "DivideEquals"
  | .remainderEquals => "RemainderEquals"
  | .plus => "Plus"
  | .minus => "Minus"
  | .multiply => "Multiply"
  | .divide => "Divide"
  | .rem => "Rem"
  | .format => "Format"
  | .range => "DotDot"
  | .join => "Join"
  | .isplit => "Isplit"
  | .csplit => "Csplit"
  | .ireplace => "Ireplace"
  | .creplace => "Creplace"
  | .imatch => "Imatch"
  | .cmatch => "Cmatch"
  | .inotmatch => "Inotmatch"
  | .cnotmatch => "Cnotmatch"
  | .ilike => "Ilike"
  | .clike => "Clike"
  | .inotlike => "Inotlike"
  | .cnotlike => "Cnotlike"
  | .ieq => "Ieq"
  | .ceq => "Ceq"
  | .ine => "Ine"
  | .cne => "Cne"
  | .ige => "Ige"
  | .cge => "Cge"
  | .igt => "Igt"
  | .cgt => "Cgt"
  | .ile => "Ile"
  | .cle => "Cle"
  | .ilt => "Ilt"
  | .clt => "Clt"
  | .icontains => "Icontains"
  | .ccontains => "Ccontains"
  | .inotcontains => "Inotcontains"
  | .cnotcontains => "Cnotcontains"
  | .iin => "Iin"
  | .cin => "Cin"
  | .inotin => "Inotin"
  | .cnotin => "Cnotin"
  | .isType => "Is"
  | .isNotType => "IsNot"
  | .asType => "As"
  | .and => "And"
  | .or => "Or"
  | .xor => "Xor"
  | .band => "Band"
  | .bor => "Bor"
  | .bxor => "Bxor"
  | .bnot => "Bnot"
  | .not => "Not"
  | .exclaim => "Exclaim"
  | .shl => "Shl"
  | .shr => "Shr"
  | .plusPlus => "PlusPlus"
  | .minusMinus => "MinusMinus"
  | .postfixPlusPlus => "PostfixPlusPlus"
  | .postfixMinusMinus => "PostfixMinusMinus"
  | .comma => "Comma"

def all : List Operator := [
    .equals, .plusEquals, .minusEquals, .multiplyEquals, .divideEquals, .remainderEquals, .plus,
    .minus, .multiply, .divide, .rem, .format, .range, .join, .isplit, .csplit, .ireplace,
    .creplace, .imatch, .cmatch, .inotmatch, .cnotmatch, .ilike, .clike, .inotlike, .cnotlike,
    .ieq, .ceq, .ine, .cne, .ige, .cge, .igt, .cgt, .ile, .cle, .ilt, .clt, .icontains,
    .ccontains, .inotcontains, .cnotcontains, .iin, .cin, .inotin, .cnotin, .isType, .isNotType,
    .asType, .and, .or, .xor, .band, .bor, .bxor, .bnot, .not, .exclaim, .shl, .shr, .plusPlus,
    .minusMinus, .postfixPlusPlus, .postfixMinusMinus, .comma]

def ofToken? (token : String) : Option Operator := all.find? (·.token == token)

/-- The spelling between two operands. -/
def binaryText? : Operator → Option String
  | .equals => some " = "
  | .plusEquals => some " += "
  | .minusEquals => some " -= "
  | .multiplyEquals => some " *= "
  | .divideEquals => some " /= "
  | .remainderEquals => some " %= "
  | .plus => some " + "
  | .minus => some " - "
  | .multiply => some " * "
  | .divide => some " / "
  | .rem => some " % "
  | .format => some " -f "
  | .range => some ".."
  | .join => some " -join "
  | .isplit => some " -split "
  | .csplit => some " -csplit "
  | .ireplace => some " -replace "
  | .creplace => some " -creplace "
  | .imatch => some " -match "
  | .cmatch => some " -cmatch "
  | .inotmatch => some " -notmatch "
  | .cnotmatch => some " -cnotmatch "
  | .ilike => some " -like "
  | .clike => some " -clike "
  | .inotlike => some " -notlike "
  | .cnotlike => some " -cnotlike "
  | .ieq => some " -eq "
  | .ceq => some " -ceq "
  | .ine => some " -ne "
  | .cne => some " -cne "
  | .ige => some " -ge "
  | .cge => some " -cge "
  | .igt => some " -gt "
  | .cgt => some " -cgt "
  | .ile => some " -le "
  | .cle => some " -cle "
  | .ilt => some " -lt "
  | .clt => some " -clt "
  | .icontains => some " -contains "
  | .ccontains => some " -ccontains "
  | .inotcontains => some " -notcontains "
  | .cnotcontains => some " -cnotcontains "
  | .iin => some " -in "
  | .cin => some " -cin "
  | .inotin => some " -notin "
  | .cnotin => some " -cnotin "
  | .isType => some " -is "
  | .isNotType => some " -isnot "
  | .asType => some " -as "
  | .and => some " -and "
  | .or => some " -or "
  | .xor => some " -xor "
  | .band => some " -band "
  | .bor => some " -bor "
  | .bxor => some " -bxor "
  | .shl => some " -shl "
  | .shr => some " -shr "
  | _ => none

/-- The spelling beside a single operand, and whether it follows the operand. -/
def unaryText? : Operator → Option (String × Bool)
  | .not => some ("-not ", false)
  | .exclaim => some ("!", false)
  | .minus => some ("-", false)
  | .plus => some ("+", false)
  | .bnot => some ("-bnot ", false)
  | .join => some ("-join ", false)
  | .isplit => some ("-split ", false)
  | .comma => some (",", false)
  | .plusPlus => some ("++", false)
  | .minusMinus => some ("--", false)
  | .postfixPlusPlus => some ("++", true)
  | .postfixMinusMinus => some ("--", true)
  | _ => none

/-- Operators that write to their operand. -/
def isIncrement : Operator → Bool
  | .plusPlus | .minusMinus | .postfixPlusPlus | .postfixMinusMinus => true
  | _ => false

end Operator

/-- The six ways in which two operands are compared. -/
inductive Relation where
  | eq | ne | ge | gt | le | lt
  deriving DecidableEq

namespace Relation

def holds : Relation → Ordering → Bool
  | .eq, o => o == .eq
  | .ne, o => o != .eq
  | .ge, o => o != .lt
  | .gt, o => o == .gt
  | .le, o => o != .gt
  | .lt, o => o == .lt

/-- Relations that ask for equality only and not for an order. -/
def isEquality : Relation → Bool
  | .eq | .ne => true
  | _ => false

end Relation

namespace Operator

/-- The relation of a comparison, and whether it minds case. -/
def comparison? : Operator → Option (Relation × Bool)
  | .ieq => some (.eq, false)
  | .ceq => some (.eq, true)
  | .ine => some (.ne, false)
  | .cne => some (.ne, true)
  | .ige => some (.ge, false)
  | .cge => some (.ge, true)
  | .igt => some (.gt, false)
  | .cgt => some (.gt, true)
  | .ile => some (.le, false)
  | .cle => some (.le, true)
  | .ilt => some (.lt, false)
  | .clt => some (.lt, true)
  | _ => none

def isComparison (operator : Operator) : Bool := operator.comparison?.isSome

end Operator
end Unscramble
