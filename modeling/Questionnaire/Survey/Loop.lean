import Questionnaire.Definition.Identifier
import Questionnaire.Error
import Questionnaire.Expr.Evaluation

/-! Loops of a compiled survey. The respondent's answer to the bound question decides
how many iterations run, up to the maximum that the definition allows. -/
namespace Questionnaire

structure Loop where
  index : Nat
  /-- The position of the first record of the first iteration. -/
  location : Nat
  /-- The question whose answer bounds the loop. -/
  boundSource : String
  maximum : Nat
  /-- The bound as it was last read. -/
  bound : Option Nat := none
  /-- The first question of an iteration, without the iteration. -/
  stem : String
  endPosition : Nat
deriving DecidableEq

/-- The count that a number stands for: whole, not negative and within a word of
thirty-two bits. -/
def Decimal.count? (n : Decimal) : Option Nat :=
  if n.negative || !n.isWhole then none else n.toUInt32?

namespace Loop

/-- The number of iterations that the present answers ask for. -/
def readBound (loop : Loop) (source : Source) : Except SurveyError Nat :=
  match ((source loop.boundSource).bind Value.asNumber?).bind Decimal.count? with
  | some count => .ok (min count loop.maximum)
  | none =>
    let found := ((source loop.boundSource).map Value.display).getD ""
    .error (.loopBound loop.index loop.boundSource found)

/-- Whether an iteration runs under a bound. -/
def admits (loop : Loop) (iteration bound : Nat) : Bool :=
  iteration ≤ bound && iteration ≤ loop.maximum

/-- The first question of an iteration. -/
def iterationEntry (loop : Loop) (iteration : Nat) : String := iterationId loop.stem iteration

end Loop

end Questionnaire
