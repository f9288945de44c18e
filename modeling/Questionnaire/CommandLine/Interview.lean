import Questionnaire.Report.Prompt

/-! The first thing that a respondent at a terminal is asked for when a question is shown.
Fields are asked one after the other; a field that is hidden, that has no options to
choose from or that specifies an option not selected is passed over. -/
namespace Questionnaire

inductive Ask where
  /-- Whether to submit. -/
  | confirmation
  | selection
  | value (message : String)
  | date (key : String)
  | number (key : String)
  /-- Where to go next, once no field is left. -/
  | direction

namespace Ask

/-- The complaint when there is nobody to answer. -/
def failure : Ask → String
  | confirmation => "Failed to get confirmation"
  | selection => "Failed to get selection"
  | value message => "Failed to get value for " ++ message
  | date key => "Failed to get date for " ++ key
  | number key => "Failed to get number for " ++ key
  | direction => "Failed to get navigation choice"

def table (r : Record) : List GridRow × List GridColumn :=
  match r.content with
  | .grid t => (t.rows, t.columns)
  | .gridRow row columns => ([row], columns)
  | .body _ | .marker _ => ([], [])

/-- How a field of a row is put: the prompt of the row, for a text column with its label. -/
def rowPrompt? (columns : List GridColumn) (key : String) (row : GridRow) : Option String :=
  if row.id == key then some row.prompt
  else do
    let column ← Text.stripLeading? (cellKey row.id "").toList key.toList
    let value := String.ofList column
    let label := ((columns.find? (·.value == value)).map GridColumn.label).getD value
    return row.prompt ++ ": " ++ label

def cellPrompt (r : Record) (key : String) : String :=
  let (rows, columns) := table r
  (rows.findSome? (rowPrompt? columns key)).getD key

/-- Whether the option that a field specifies is selected. A field that specifies no
option is always asked. -/
def isOptionSelected (s : Session) (question key : String) : Bool :=
  match Text.stripLeading? "other_".toList key.toList with
  | none => true
  | some option =>
    [radioKey, checkboxKey].any fun group =>
      ((s.store.lookupField group question).1).any (·.contains (String.ofList option))

def hasOptions (r : Record) : Bool :=
  r.lines.any fun
    | .choice _ => true
    | .text _ => false

def ofField? (s : Session) (r : Record) (f : AnswerField) : Option Ask :=
  match f.shape with
  | .choice _ => if hasOptions r then some selection else none
  | .column .text => some (value (cellPrompt r f.key))
  | .column kind => if (table r).2.any (·.kind = kind) then some selection else none
  | .input .other => if isOptionSelected s r.id f.key then some (value "Please specify:") else none
  | .input .number => some (number f.key)
  | .input .date => some (date f.key)
  | .input .month => some (value (f.key ++ " [YYYY-MM]"))
  | .input .text | .input .textArea => some (value f.key)

def first (s : Session) (r : Record) : Ask :=
  if r.isTerminal then confirmation
  else
    ((r.fields.filter fun f => s.isFieldVisible r.id f.key).findSome? (ofField? s r)).getD
      direction

end Ask

end Questionnaire
