import Questionnaire.Definition.Body
import Questionnaire.Definition.Grid
import Questionnaire.Definition.Identifier

/-! Records of a compiled survey: questions, grids, rows of grids and the markers of
loops, and the fields of each that can be answered. -/
namespace Questionnaire

inductive Content where
  | body (lines : List BodyLine)
  | grid (table : GridTable)
  /-- A row with the columns of its grid. -/
  | gridRow (row : GridRow) (columns : List GridColumn)
  | marker (m : LoopMarker)

structure Membership where
  grid : String
  row : Nat
deriving DecidableEq

structure Record where
  id : String
  /-- The text of the body, only of questions that have one. -/
  rawBody : Option String := none
  directives : Directives := {}
  content : Content
  membership : Option Membership := none
  span : Span

inductive FieldShape where
  | input (kind : FieldKind)
  /-- A group of options, of which one or any number may be selected. -/
  | choice (multiple : Bool)
  | column (kind : ColumnKind)
deriving DecidableEq

/-- A field under whose key an answer is stored. -/
structure AnswerField where
  key : String
  shape : FieldShape
  displayIf : Option String := none
  disabled : Bool := false
  exclusiveGroup : Option String := none
  minimum : Option String := none
  maximum : Option String := none
deriving DecidableEq

def radioKey : String := "choice"
def checkboxKey : String := "choices"

def Field.answerField (f : Field) : AnswerField where
  key := f.key
  shape := .input f.kind
  displayIf := f.displayIf
  disabled := f.disabled
  exclusiveGroup := f.exclusiveGroup
  minimum := f.minimum
  maximum := f.maximum

/-- The group that an option belongs to. -/
def ChoiceKind.group : ChoiceKind → AnswerField
  | exclusive => { key := radioKey, shape := .choice false }
  | inclusive | sole => { key := checkboxKey, shape := .choice true }

def Inline.field? : Inline → Option Field
  | field f => some f
  | _ => none

def Inline.computed? : Inline → Option String
  | computed expression => some expression
  | _ => none

def inlineFields (inlines : List Inline) : List AnswerField :=
  (inlines.filterMap Inline.field?).map Field.answerField

/-- The fields of lines, given the groups whose field stands further up already. -/
def lineFields (seen : List AnswerField) : List BodyLine → List AnswerField
  | [] => []
  | .text inlines :: more => inlineFields inlines ++ lineFields seen more
  | .choice c :: more =>
    let group := c.kind.group
    if seen.contains group then inlineFields c.label ++ lineFields seen more
    else group :: inlineFields c.label ++ lineFields (group :: seen) more

/-- The key of a text column in a row. -/
def cellKey (row column : String) : String := row ++ "_" ++ column

/-- The fields of a row: one for each text column, and one for all others together,
of the kind of the first of them. -/
def rowFields (row : GridRow) (chosen : Bool) : List GridColumn → List AnswerField
  | [] => []
  | column :: more =>
    match column.kind with
    | .text =>
      { key := cellKey row.id column.value, shape := .column .text } ::
        rowFields row chosen more
    | kind =>
      if chosen then rowFields row chosen more
      else { key := row.id, shape := .column kind } :: rowFields row true more

namespace Record

def marker? (r : Record) : Option LoopMarker :=
  match r.content with
  | .marker m => some m
  | _ => none

def isTerminal (r : Record) : Bool := r.directives.isEnd || r.id == terminalId

def lines (r : Record) : List BodyLine :=
  match r.content with
  | .body lines => lines
  | _ => []

def fields (r : Record) : List AnswerField :=
  match r.content with
  | .body lines => lineFields [] lines
  | .grid table => table.rows.flatMap fun row => rowFields row false table.columns
  | .gridRow row columns => rowFields row false columns
  | .marker _ => []

def field? (r : Record) (key : String) : Option AnswerField := r.fields.find? (·.key == key)

/-- The values of the options that exclude the others of their group. -/
def soleValues (r : Record) : List String :=
  r.lines.filterMap fun
    | .choice c => if c.kind = .sole then some c.value else none
    | .text _ => none

/-- The expressions of computed spans, in the order of the text. -/
def computedExpressions (r : Record) : List String :=
  r.lines.flatMap fun line => line.inlines.filterMap Inline.computed?

end Record

end Questionnaire
