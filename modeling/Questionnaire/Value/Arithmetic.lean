import Questionnaire.Decimal.Arithmetic
import Questionnaire.Value.Compare
import Questionnaire.Value.Error

/-! The infix operators on values. Months shift by whole numbers and subtract to a
number of months; a sum of anything else that is not a pair of numbers joins the
texts. -/
namespace Questionnaire.Value

def numberArithmetic (left : Decimal) (op : InfixOp) (right : Decimal) :
    Except EvalError Decimal :=
  let fitting (result : Option Decimal) : Except EvalError Decimal :=
    match result with
    | some n => .ok n
    | none => .error (.overflow left op right)
  match op with
  | .add => fitting (left.add? right)
  | .subtract => fitting (left.sub? right)
  | .multiply => fitting (left.mul? right)
  | .divide => if right.isZero then .error .divisionByZero else fitting (left.div? right)
  | .modulo => if right.isZero then .error .moduloByZero else fitting (left.rem? right)
  | op => .error (.notArithmetic op)

/-- The number of months a value stands for; a fraction is dropped. -/
def wholeMonths (v : Value) : Except EvalError Int64 :=
  match v.asNumber?.bind Decimal.toInt64? with
  | some n => .ok n
  | none => .error (.notWholeMonths v)

def shiftMonths (start : YearMonth) (months : Int64) : Except EvalError Value :=
  match start.addMonths? months with
  | some m => .ok (.yearMonth m)
  | none => .error (.shiftOutOfRange start months)

/-- Operators of which at least one side is a month. -/
def monthArithmetic (left : Value) (op : InfixOp) (right : Value) : Except EvalError Value :=
  match left, op, right with
  | yearMonth m, .add, other =>
    if other.asNumber?.isSome then do shiftMonths m (← wholeMonths other)
    else .error (.undefinedFor op left right)
  | other, .add, yearMonth m =>
    if other.asNumber?.isSome then do shiftMonths m (← wholeMonths other)
    else .error (.undefinedFor op left right)
  | _, .subtract, _ =>
    match left, right.asNumber? with
    | yearMonth m, some _ => do shiftMonths m (-(← wholeMonths right))
    | _, _ =>
      match left.asYearMonth?, right.asYearMonth? with
      | some l, some r => .ok (.number (Decimal.ofInt (r.monthsUntil l)))
      | _, _ => .error (.cannotSubtract right left)
  | _, _, _ => .error (.undefinedFor op left right)

def arithmetic (left : Value) (op : InfixOp) (right : Value) : Except EvalError Value :=
  if left matches yearMonth _ || right matches yearMonth _ then monthArithmetic left op right
  else
    match left.asNumber?, right.asNumber? with
    | some l, some r => (numberArithmetic l op r).map number
    | _, _ =>
      if op = .add then .ok (text (left.display ++ right.display))
      else .error (.needsNumbers op left right)

def compare (left : Value) (op : InfixOp) (right : Value) : Except EvalError Bool :=
  match op with
  | .equal => .ok (left.looseEq right)
  | .notEqual => .ok !(left.looseEq right)
  | .less => .ok (left.looseCmp right == .lt)
  | .lessOrEqual => .ok (left.looseCmp right != .gt)
  | .greater => .ok (left.looseCmp right == .gt)
  | .greaterOrEqual => .ok (left.looseCmp right != .lt)
  | op => .error (.notComparison op)

end Questionnaire.Value
