import Questionnaire.Definition.Fault
import Questionnaire.Definition.Span
import Questionnaire.Expr.Positional
import Questionnaire.Expr.Reader

/-! Everything that can go wrong between a definition text and a stored answer, and
the wording of it: one for programs and one for people at a terminal. -/
namespace Questionnaire

inductive NavigationFault where
  | nothingVisible
  | unknownActive (id : String)
  | noDescriptor (loopIndex : Nat)
  | notStarted
  | unknownQuestion (id : String)
  | notAtEnd

inductive StateFault where
  | emptyHistory
  | unknownLast (id : String)
  | noField (question field : String)
  | unreadableJson
  | notAnObject (file : String)

inductive LimitFault where
  | definitionBytes (bound actual : Nat)
  | expressionDepth (bound actual : Nat)
  | loopIterations (bound actual : Nat)
  | navigationSteps (bound : Nat)

inductive ExpressionFault where
  | evaluation (cause : EvalError)
  /-- Neither an expression nor reducible. -/
  | unreadable (reason : Expr.ReadError) (failure : Positional.Failure)

inductive SurveyError where
  | definition (fault : DefinitionFault) (span : Span) (sourceId : String)
  | emptySurvey (name : String)
  | expression (text : String) (fault : ExpressionFault)
  | loopBound (loopIndex : Nat) (sourceId found : String)
  | navigation (fault : NavigationFault)
  | storage (message : String)
  | state (fault : StateFault)
  | limit (fault : LimitFault)

def NavigationFault.message : NavigationFault → String
  | nothingVisible => "no visible question to start on"
  | unknownActive id => "active question '" ++ id ++ "' is not in the survey"
  | noDescriptor loopIndex => "loop " ++ toString loopIndex ++ " has no descriptor"
  | notStarted => "the survey has not started"
  | unknownQuestion id => "unknown question '" ++ id ++ "'"
  | notAtEnd => "the survey can only be submitted from its end question"

def StateFault.message : StateFault → String
  | emptyHistory => "stored history is empty"
  | unknownLast id => "stored history ends on unknown question '" ++ id ++ "'"
  | noField question field => "question '" ++ question ++ "' has no field '" ++ field ++ "'"
  | unreadableJson => "json"
  | notAnObject file => file ++ " does not hold a JSON object"

namespace LimitFault

def name : LimitFault → String
  | definitionBytes _ _ => "max_definition_bytes"
  | expressionDepth _ _ => "max_expression_depth"
  | loopIterations _ _ => "max_loop_iterations"
  | navigationSteps _ => "max_navigation_steps"

def bound : LimitFault → Nat
  | definitionBytes bound _ | expressionDepth bound _ | loopIterations bound _
  | navigationSteps bound => bound

def actual : LimitFault → Nat
  | definitionBytes _ actual | expressionDepth _ actual | loopIterations _ actual => actual
  | navigationSteps bound => bound

def advice : LimitFault → String
  | definitionBytes _ _ => "Split the survey into several definitions"
  | expressionDepth _ _ => "Split the condition into smaller computed questions"
  | loopIterations _ _ => "Lower the loop's max attribute"
  | navigationSteps _ => "Check skip targets and display conditions for a cycle"

end LimitFault

def ExpressionFault.message : ExpressionFault → String
  | evaluation cause => cause.message
  | unreadable reason failure =>
    reason.message ++ "; positional reduction: " ++ failure.message

namespace SurveyError

def message : SurveyError → String
  | definition fault span sourceId =>
    "Parse error: " ++ fault.message ++
      (match fault.suggestion? with
        | some suggestion => " (suggestion: " ++ suggestion ++ ")"
        | none => "") ++
      " at " ++ sourceId ++ ":" ++ toString span.line ++ ":" ++ toString span.column
  | emptySurvey name => "Survey '" ++ name ++ "' compiled to an empty question sequence"
  | expression text fault => "Expression error in '" ++ text ++ "': " ++ fault.message
  | loopBound loopIndex sourceId found =>
    "Loop " ++ toString loopIndex ++ " bound source '" ++ sourceId ++
      "' is not numeric (found '" ++ found ++ "')"
  | navigation fault => "Navigation error: " ++ fault.message
  | storage message => "Persistence error: " ++ message
  | state fault => "State error: " ++ fault.message
  | limit fault =>
    "Resource limit exceeded: " ++ fault.name ++ " (limit: " ++ toString fault.bound ++
      ", actual: " ++ toString fault.actual ++ "). " ++ fault.advice

/-- The wording at a terminal, without the excerpt of the definition. -/
def report : SurveyError → String
  | definition fault span sourceId =>
    "Error: Parse error: " ++ fault.message ++ " (in " ++ sourceId ++ " at line " ++
      toString span.line ++ ", column " ++ toString span.column ++ ")"
  | emptySurvey name =>
    "Survey '" ++ name ++
      "' has no questions.\n  Questions start with [ID] at the beginning of a line."
  | expression text fault =>
    "Expression error: " ++ fault.message ++ "\n  Expression: " ++ text
  | loopBound loopIndex sourceId found =>
    "Loop " ++ toString loopIndex ++ " cannot run: '" ++ sourceId ++
      "' must hold a whole number, found '" ++ found ++ "'"
  | navigation fault => "Navigation error: " ++ fault.message
  | storage message => "Persistence error: " ++ message
  | state fault => "State error: " ++ fault.message
  | limit fault =>
    "Resource limit exceeded: " ++ fault.name ++ "\n  Limit: " ++ toString fault.bound ++
      "\n  Actual: " ++ toString fault.actual ++ "\n  " ++ fault.advice

end SurveyError

end Questionnaire
