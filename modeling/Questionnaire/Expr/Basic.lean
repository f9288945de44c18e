import Questionnaire.Decimal.Basic
import Questionnaire.Expr.Operator

/-! Trees of condition expressions. -/
namespace Questionnaire

inductive Expr where
  | number (n : Decimal)
  | text (s : String)
  | boolean (b : Bool)
  | null
  /-- The loop index, left over outside a loop body. -/
  | loopIndex
  /-- An answer, named by a question or by a field and a question. -/
  | reference (name : String)
  | unary (op : PrefixOp) (arg : Expr)
  | binary (left : Expr) (op : InfixOp) (right : Expr)
  | call (name : String) (args : List Expr)

/-- The loop index as it is written in definitions. -/
def loopIndexToken : String := "$i"

namespace Expr

mutual

/-- Nodes on the longest path from the root to a leaf. -/
def depth : Expr → Nat
  | unary _ arg => 1 + arg.depth
  | binary left _ right => 1 + max left.depth right.depth
  | call _ args => 1 + depthAll args
  | number _ | text _ | boolean _ | null | loopIndex | reference _ => 1

def depthAll : List Expr → Nat
  | [] => 0
  | arg :: args => max arg.depth (depthAll args)

end

end Expr

end Questionnaire
