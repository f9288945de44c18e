import Questionnaire.Error

/-! Evaluation of condition texts. A text that the expression grammar rejects is
reduced positionally; a tree that is too deep is refused. A condition that has no
value does not hold. -/
namespace Questionnaire

structure Evaluator where
  functions : FunctionTable := .builtin
  maxDepth : Nat := 64

namespace Evaluator

def ofMaxDepth (maxDepth : Nat) : Evaluator := { maxDepth := maxDepth }

def evaluate (evaluator : Evaluator) (source : Source) (text : String) :
    Except SurveyError Value :=
  match Expr.read evaluator.maxDepth text with
  | .ok e =>
    match e.eval evaluator.functions source with
    | .ok v => .ok v
    | .error cause => .error (.expression text (.evaluation cause))
  | .error (.tooDeep depth bound) => .error (.limit (.expressionDepth bound depth))
  | .error reason =>
    match Positional.reduce evaluator.functions source text with
    | .ok v => .ok v
    | .error reduction => .error (.expression text (.unreadable reason reduction.failure))

def condition (evaluator : Evaluator) (source : Source) (text : String) : Bool :=
  match evaluator.evaluate source text with
  | .ok v => v.truthy
  | .error _ => false

end Evaluator

end Questionnaire
