import Questionnaire.Definition.GridBlock
import Questionnaire.Definition.Span
import Questionnaire.Dict
import Questionnaire.Error

/-! Grids: questions asked of several rows at once. A grid block becomes a table, and
in the text a header with the options of its argument field takes its place. -/
namespace Questionnaire

inductive ColumnKind where
  | radio
  | checkbox
  | text
deriving DecidableEq

structure GridColumn where
  value : String
  label : String
  kind : ColumnKind
deriving DecidableEq

structure GridRow where
  id : String
  prompt : String
deriving DecidableEq

structure GridTable where
  id : String
  sharedText : String
  rows : List GridRow
  columns : List GridColumn
deriving DecidableEq

def ColumnKind.name : ColumnKind → String
  | radio => "radio"
  | checkbox => "checkbox"
  | text => "text"

namespace Definition

open Text

/-- The items of a field: what stands between semicolons, without blanks around it
and without what is blank altogether. -/
def fieldItems (cs : List Char) : List (List Char) :=
  ((splitChars (· == ';') cs).map trimChars).filter (!·.isEmpty)

def readRow (item : List Char) : Except DefinitionFault GridRow :=
  match cutAtChars? (· == '=') item with
  | none => .error (.gridRowWithoutPrompt (String.ofList item))
  | some (id, prompt) =>
    let id := String.ofList (trimChars id)
    if isIdentifier id && !id.toList.contains '.' then .ok ⟨id, String.ofList (trimChars prompt)⟩
    else .error (.gridRowId id)

/-- The kind of a column and what follows it; without a known kind in front a column
is a radio column. -/
def takeColumnKind (item : List Char) : ColumnKind × List Char :=
  match cutAtChars? (· == ':') item with
  | some (kind, rest) =>
    match [ColumnKind.radio, .checkbox, .text].find? (·.name.toList == kind) with
    | some kind => (kind, rest)
    | none => (.radio, item)
  | none => (.radio, item)

def readColumn (item : List Char) : Except DefinitionFault GridColumn :=
  let (kind, rest) := takeColumnKind item
  match cutAtChars? (· == '=') rest with
  | none => .error (.gridColumnWithoutLabel (String.ofList item))
  | some (value, label) =>
    .ok ⟨String.ofList (trimChars value), String.ofList (trimChars label), kind⟩

def readTable (b : GridBlock) : Except DefinitionFault GridTable := do
  let rows ← (fieldItems b.rows).mapM readRow
  let columns ← (fieldItems b.columns).mapM readColumn
  let id := String.ofList b.id
  if rows.isEmpty || columns.isEmpty then .error (.emptyGrid id)
  else return ⟨id, String.ofList (trimChars b.shared), rows, columns⟩

/-- The pieces between the commas that stand outside of parentheses. -/
def splitTopLevel (depth : Nat) : List Char → List (List Char)
  | [] => [[]]
  | c :: cs =>
    if c == ',' && depth == 0 then [] :: splitTopLevel 0 cs
    else
      let depth := if c == '(' then depth + 1 else if c == ')' then depth - 1 else depth
      match splitTopLevel depth cs with
      | [] => [[c]]
      | piece :: pieces => (c :: piece) :: pieces

def argumentOptions (args : List Char) : List (List Char) :=
  ((splitTopLevel 0 args).map trimChars).filter (!·.isEmpty)

/-- The mandate in front of an argument field, and the rest. -/
def takeMandate (args : List Char) : List Char × List Char :=
  match trimChars args with
  | c :: rest =>
    if c == '!' || c == '?' then ([c], rest.dropWhile fun c => c == ',' || c == ' ')
    else ([], c :: rest)
  | [] => ([], [])

/-- The header line that stands for a grid. -/
def placeholder (b : GridBlock) : List Char :=
  let (mandate, rest) := takeMandate b.args
  '[' :: b.id ++ mandate ++ ",grid".toList ++
    (argumentOptions rest).flatMap (',' :: ·) ++ [']', '\n']

/-- A definition text without grid blocks, and the tables they held. -/
structure Grids where
  content : List Char
  tables : Dict GridTable

/-- The whole block counts as the place of its faults. -/
def gridSpan (start : Position) (b : GridBlock) : Span :=
  ⟨start.offset, start.offset + byteLength b.toChars, start.line, 1⟩

/-- Takes the tables out of the pieces that begin at a position. Of two tables with
one identifier the later one counts. -/
def extractPieces (sourceId : String) (start : Position) (tables : Dict GridTable) :
    List Piece → Except SurveyError Grids
  | [] => .ok ⟨[], tables⟩
  | piece :: rest => do
    let behind := start.advance piece.toChars
    match piece with
    | .plain cs =>
      let grids ← extractPieces sourceId behind tables rest
      return { grids with content := cs ++ grids.content }
    | .grid b =>
      match readTable b with
      | .error fault => .error (.definition fault (gridSpan start b) sourceId)
      | .ok table =>
        let grids ← extractPieces sourceId behind (tables.insert table.id table) rest
        return { grids with content := placeholder b ++ grids.content }

def extractGrids (sourceId content : String) : Except SurveyError Grids :=
  extractPieces sourceId {} {} (pieces content.toList)

end Definition

end Questionnaire
