import Questionnaire.Report.Table
import Questionnaire.Survey.Basic

/-! The structure of a compiled survey for people: a table with a row for every record
and a line for every loop. -/
namespace Questionnaire.Report

def recordKind (r : Record) : String :=
  match r.content with
  | .grid _ => "grid"
  | .gridRow _ _ => "grid row"
  | .marker _ => "marker"
  | .body _ =>
    if r.isTerminal then "end"
    else if r.directives.loopEntry.isSome then "loop entry"
    else "question"

def mandateLabel : Mandate → String
  | .optional => ""
  | .soft => "soft"
  | .hard => "hard"

def shapeLabel : FieldShape → String
  | .input kind => kind.keyword
  | .choice false => "radio"
  | .choice true => "checkbox"
  | .column _ => "cell"

def fieldLabel (f : AnswerField) : String := f.key ++ ":" ++ shapeLabel f.shape

def skipLabel (t : SkipTarget) : String :=
  t.optionValue ++ " -> " ++ t.directive.target ++
    match t.directive.guard with
    | some guard => " if " ++ guard
    | none => ""

def recordRow (r : Record) : List TableCell := [
  .ofText r.id,
  .ofText (recordKind r),
  .ofText (mandateLabel r.directives.mandate),
  .ofText (", ".intercalate (r.fields.map fieldLabel)),
  .ofText (r.directives.displayIf.getD ""),
  .ofText ("\n".intercalate (r.directives.skipTargets.map skipLabel))]

def structureTable (s : Survey) : TextTable where
  head := ["Id", "Kind", "Mandate", "Fields", "Shown if", "Skips"].map .ofText
  rows := s.records.map recordRow

def loopLine (loop : Loop) : String :=
  "Loop " ++ toString loop.index ++ ": " ++ loop.stem ++ " x up to " ++ toString loop.maximum ++
    " (bound by " ++ loop.boundSource ++ ")"

def structureLines (s : Survey) : List String :=
  ("Survey '" ++ s.name ++ "': " ++ toString s.size ++ " records, " ++
    toString s.loops.length ++ " loop(s)") :: (structureTable s).draw ++ s.loops.map loopLine

def surveyText (s : Survey) : String := String.join ((structureLines s).map (· ++ "\n"))

end Questionnaire.Report
