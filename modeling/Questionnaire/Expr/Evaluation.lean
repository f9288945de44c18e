import Questionnaire.Expr.Basic
import Questionnaire.Expr.Function

/-! The value of an expression tree. Answers come from a source that knows some names
and not others; a name it does not know is unanswered. -/
namespace Questionnaire

/-- Answers by name. -/
abbrev Source := String → Option Value

namespace Expr

/-- An infix operator other than `&&` and `||` on the values of its operands. -/
def applyInfix (op : InfixOp) (left right : Value) : Except EvalError Value :=
  match op with
  | .equal | .notEqual | .less | .lessOrEqual | .greater | .greaterOrEqual =>
    (left.compare op right).map .bool
  | op => left.arithmetic op right

def applyPrefix (op : PrefixOp) (v : Value) : Except EvalError Value :=
  match op with
  | .not => .ok (.bool !v.truthy)
  | .negate =>
    match v.asNumber? with
    | some n => .ok (.number n.negate)
    | none => .error (.cannotNegate v)

variable (functions : FunctionTable) (source : Source)

mutual

/-- The connectives look at their right operand only if the left one leaves the
answer open. -/
def eval : Expr → Except EvalError Value
  | number n => .ok (.number n)
  | text s => .ok (.text s)
  | boolean b => .ok (.bool b)
  | null => .ok .null
  | loopIndex => .ok (.text loopIndexToken)
  | reference name => .ok ((source name).getD .null)
  | unary op arg => do applyPrefix op (← eval arg)
  | binary left .and right => do
    if (← eval left).truthy then return .bool (← eval right).truthy
    else return .bool false
  | binary left .or right => do
    if (← eval left).truthy then return .bool true
    else return .bool (← eval right).truthy
  | binary left op right => do
    let l ← eval left
    let r ← eval right
    applyInfix op l r
  | call name args => do functions.call name (← evalAll args)

def evalAll : List Expr → Except EvalError (List Value)
  | [] => .ok []
  | arg :: args => do
    let v ← eval arg
    let vs ← evalAll args
    return v :: vs

end

end Expr

end Questionnaire
