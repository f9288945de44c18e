import Questionnaire.Definition.BodyReader
import Questionnaire.Definition.Grid
import Questionnaire.Definition.Line
import Questionnaire.Definition.Segment
import Questionnaire.Definition.Unroll
import Questionnaire.Survey.Basic

/-! Compilation of a definition text. Comments are emptied, loops unrolled, grids taken
out and the rest is cut into questions, which become records one after the other.
An identifier that is taken already gets no second record. -/
namespace Questionnaire

namespace Record

/-- The skip directives of options, each with the value of its option. -/
def bodySkips (lines : List BodyLine) : List SkipTarget :=
  lines.flatMap fun
    | .choice c => c.skips.map fun skip => ⟨c.value, skip⟩
    | .text _ => []

def ofQuestion (q : QuestionText) : Record :=
  match LoopMarker.ofId? q.id with
  | some m => { id := q.id, directives := q.directives, content := .marker m, span := q.span }
  | none =>
    let lines := Definition.readBody q.body
    { id := q.id
      rawBody := some q.body
      directives := { q.directives with
        skipTargets := q.directives.skipTargets ++ bodySkips lines }
      content := .body lines
      span := q.span }

def ofGrid (q : QuestionText) (table : GridTable) : Record :=
  { id := q.id, directives := q.directives, content := .grid table, span := q.span }

def ofRow (table : GridTable) (span : Span) (index : Nat) (row : GridRow) : Record :=
  { id := row.id
    content := .gridRow row table.columns
    membership := some ⟨table.id, index⟩
    span := span }

end Record

structure Draft where
  records : List Record := []
  rows : List Record := []
  /-- Tables whose grid has not come up yet. -/
  tables : Dict GridTable

namespace Draft

def declares (d : Draft) (id : String) : Bool :=
  d.records.any (·.id == id) || d.rows.any (·.id == id)

def push (d : Draft) (r : Record) : Draft :=
  if d.declares r.id then d else { d with records := d.records ++ [r] }

def addRows (d : Draft) (table : GridTable) (span : Span) : Draft :=
  { d with rows := d.rows ++ table.rows.mapIdx (Record.ofRow table span) }

/-- Takes in a question. A table is used by the first question with the `grid` option
and its identifier. -/
def add (d : Draft) (q : QuestionText) : Draft :=
  match (if q.directives.grid then d.tables.get? q.id else none) with
  | some table =>
    ({ d with tables := d.tables.erase q.id }.addRows table q.span).push (.ofGrid q table)
  | none => d.push (.ofQuestion q)

/-- The loop that begins at a record, if its end marker is there. -/
def loopAt? (records : List Record) (r : Record) (position : Nat) : Option Loop := do
  let entry ← r.directives.loopEntry.filter (·.iteration == 1)
  let endPosition ←
    records.findIdx? (·.id == LoopMarker.id (.endOfLoop entry.loopIndex))
  return {
    index := entry.loopIndex
    location := position
    boundSource := entry.bound
    maximum := entry.maximum
    stem := entry.stem
    endPosition := endPosition }

def loops (d : Draft) : List Loop :=
  (d.records.mapIdx fun position r => loopAt? d.records r position).filterMap id

end Draft

namespace Survey

def compile (limits : Limits) (sourceId definition : String) : Except SurveyError Survey := do
  let size := definition.utf8ByteSize
  if size > limits.maxDefinitionBytes then
    .error (.limit (.definitionBytes limits.maxDefinitionBytes size))
  let unrolled ← Definition.expandLoops limits sourceId (Definition.stripComments definition)
  let grids ← Definition.extractGrids sourceId unrolled
  let draft := (Definition.questions (String.ofList grids.content)).foldl Draft.add
    { tables := grids.tables }
  if draft.records.isEmpty then .error (.emptySurvey sourceId)
  else return ⟨sourceId, draft.records, draft.rows, draft.loops⟩

end Survey

end Questionnaire
