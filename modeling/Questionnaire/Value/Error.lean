import Questionnaire.Expr.Operator
import Questionnaire.Value.Basic

/-! Reasons why an expression has no value. -/
namespace Questionnaire

inductive EvalError where
  | cannotNegate (v : Value)
  | needsNumbers (op : InfixOp) (left right : Value)
  | divisionByZero
  | moduloByZero
  | overflow (left : Decimal) (op : InfixOp) (right : Decimal)
  | notArithmetic (op : InfixOp)
  | notComparison (op : InfixOp)
  | cannotSubtract (subtrahend minuend : Value)
  | undefinedFor (op : InfixOp) (left right : Value)
  | notWholeMonths (v : Value)
  | shiftOutOfRange (start : YearMonth) (months : Int64)
  | unknownFunction (name : String)
  | arity (name : String) (least : Nat) (most : Option Nat) (given : Nat)
  | notYearMonth (v : Value)
  | notYear (v : Value)
  | notMonth (v : Value)
  | noSuchMonth (year : Int) (month : Nat)
  /-- Reported by a function that the host program registered. -/
  | host (message : String)

namespace EvalError

def expectedArguments (least : Nat) : Option Nat → String
  | some most =>
    if most = least then toString most else toString least ++ " to " ++ toString most
  | none => "at least " ++ toString least

def message : EvalError → String
  | cannotNegate v => "Cannot negate '" ++ v.display ++ "'"
  | needsNumbers op left right =>
    "Operator '" ++ op.symbol ++ "' needs numbers, got '" ++ left.display ++ "' and '" ++
      right.display ++ "'"
  | divisionByZero => "Division by zero"
  | moduloByZero => "Modulo by zero"
  | overflow left op right =>
    "Overflow evaluating " ++ left.text ++ " " ++ op.symbol ++ " " ++ right.text
  | notArithmetic op => "'" ++ op.symbol ++ "' is not an arithmetic operator"
  | notComparison op => "'" ++ op.symbol ++ "' is not a comparison operator"
  | cannotSubtract subtrahend minuend =>
    "Cannot subtract '" ++ subtrahend.display ++ "' from '" ++ minuend.display ++ "'"
  | undefinedFor op left right =>
    "Operator '" ++ op.symbol ++ "' is not defined for '" ++ left.display ++ "' and '" ++
      right.display ++ "'"
  | notWholeMonths v => "'" ++ v.display ++ "' is not a whole number of months"
  | shiftOutOfRange start months =>
    start.text ++ " shifted by " ++ toString months.toInt ++ " months is out of range"
  | unknownFunction name => "Unknown function '" ++ name ++ "'"
  | arity name least most given =>
    name ++ "() takes " ++ expectedArguments least most ++ " argument(s), got " ++ toString given
  | notYearMonth v => "'" ++ v.display ++ "' is not a year-month"
  | notYear v => "'" ++ v.display ++ "' is not a year"
  | notMonth v => "'" ++ v.display ++ "' is not a month"
  | noSuchMonth year month =>
    toString year ++ "-" ++ toString month ++ " is not a valid year-month"
  | host message => message

end EvalError

end Questionnaire
