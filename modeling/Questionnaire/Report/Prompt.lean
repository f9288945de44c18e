import Questionnaire.Session.Transition

/-! Texts for a terminal: a question as a prompt, the outcome of a transition and the way
through a survey. -/
namespace Questionnaire.Report

/-- The text of inline parts, and the computed values that are left. A computed span
without a value shows as a question mark, a field as its key. -/
def inlineText (variableText : String → String) (computed : List (Option Value)) :
    List Inline → String × List (Option Value)
  | [] => ("", computed)
  | .text s :: more =>
    let (text, computed) := inlineText variableText computed more
    (s ++ text, computed)
  | .context name :: more =>
    let (text, computed) := inlineText variableText computed more
    (variableText name ++ text, computed)
  | .field f :: more =>
    let (text, computed) := inlineText variableText computed more
    ("[" ++ f.key ++ "]" ++ text, computed)
  | .computed _ :: more =>
    let (text, left) := inlineText variableText computed.tail more
    (((computed.head?.join).map Value.display).getD "?" ++ text, left)

/-- The text of body lines, each of them ended. -/
def linesText (variableText : String → String) (computed : List (Option Value)) :
    List BodyLine → String
  | [] => ""
  | l :: more =>
    let mark := match l with
      | .text _ => ""
      | .choice c => "  (" ++ c.value ++ ") "
    let (text, computed) := inlineText variableText computed l.inlines
    mark ++ text ++ "\n" ++ linesText variableText computed more

/-- A question as it is put at a terminal, given the values of its computed spans. -/
def prompt (r : Record) (computed : List (Option Value)) (variableText : String → String) :
    String :=
  Text.trim <| match r.content with
    | .body lines => linesText variableText computed lines
    | .grid table => table.sharedText
    | .gridRow row _ => row.prompt
    | .marker _ => ""

def sessionPrompt (s : Session) (r : Record) : String :=
  prompt r ((s.computedValues r.id).map ComputedValue.value) fun name =>
    (s.context.get? name).getD ""

def transitionText : Transition → String
  | .moved id _ => "-> " ++ id
  | .terminal id => "-> " ++ id ++ " (end of survey)"
  | .submitted _ completedAt => "Submitted at " ++ completedAt
  | .blocked unanswered false =>
    "This question needs an answer (" ++ toString unanswered ++ " field(s) blank)"
  | .blocked unanswered true => toString unanswered ++ " field(s) left blank"
  | .unchanged => "Nowhere to go from here"
  | .rolledBack _ _ notice => notice.message

/-- The questions shown, one to a line, and whether the end was reached. -/
def walkText (ids : List String) (finished : Bool) : String :=
  String.join (ids.map (· ++ "\n")) ++ if finished then "(end of survey)\n" else ""

end Questionnaire.Report
