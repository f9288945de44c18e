/-! Operators of condition expressions. Infix operators fall into six classes of
tightness; operators of one class associate to the left. -/
namespace Questionnaire

inductive PrefixOp where
  | negate
  | not
deriving DecidableEq

inductive InfixOp where
  | or
  | and
  | equal
  | notEqual
  | less
  | lessOrEqual
  | greater
  | greaterOrEqual
  | add
  | subtract
  | multiply
  | divide
  | modulo
deriving DecidableEq

namespace InfixOp

def all : List InfixOp :=
  [or, and, equal, notEqual, less, lessOrEqual, greater, greaterOrEqual, add, subtract,
    multiply, divide, modulo]

def symbol : InfixOp → String
  | or => "||"
  | and => "&&"
  | equal => "=="
  | notEqual => "!="
  | less => "<"
  | lessOrEqual => "<="
  | greater => ">"
  | greaterOrEqual => ">="
  | add => "+"
  | subtract => "-"
  | multiply => "*"
  | divide => "/"
  | modulo => "%"

def ofSymbol? (s : String) : Option InfixOp := all.find? fun op => op.symbol == s

/-- Zero is the loosest class. -/
def tightness : InfixOp → Nat
  | or => 0
  | and => 1
  | equal | notEqual => 2
  | less | lessOrEqual | greater | greaterOrEqual => 3
  | add | subtract => 4
  | multiply | divide | modulo => 5

end InfixOp

end Questionnaire
