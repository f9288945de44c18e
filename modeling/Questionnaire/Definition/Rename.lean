import Questionnaire.Definition.GridBlock
import Questionnaire.Text.Word

/-! Renaming the identifiers that a loop body declares. A name is replaced where it
stands as a word of its own inside code: question headers, skip directives, spans in
braces, and the identifier, arguments and row keys of grid blocks. -/
namespace Questionnaire.Definition

open Text

/-- A replacement text in which `$name` and `$\x7bname\x7d` stand for groups of the match, of
which there is only the whole one, and `$$` for a dollar sign. -/
def expandTemplate (whole : List Char) (template : List Char) : List Char :=
  go template template.length
where
  group (name : List Char) : List Char :=
    if readUnsigned? largestUInt64 name == some 0 then whole else []
  isGroupChar (c : Char) : Bool := c.isAlphanum || c == '_'
  go : List Char → Nat → List Char
    | cs, 0 => cs
    | [], _ => []
    | '$' :: '$' :: cs, fuel + 1 => '$' :: go cs fuel
    | '$' :: '{' :: cs, fuel + 1 =>
      match cutAtChars? (· == '}') cs with
      | some (name, rest) => group name ++ go rest fuel
      | none => '$' :: '{' :: go cs fuel
    | '$' :: cs, fuel + 1 =>
      let (name, rest) := takeRun isGroupChar cs
      if name.isEmpty then '$' :: go cs fuel else group name ++ go rest fuel
    | c :: cs, fuel + 1 => c :: go cs fuel

/-- Whether `name` stands at the front of a text as a word of its own, given the
character before it. -/
def nameAhead (name : List Char) (before : Option Char) (cs : List Char) : Bool :=
  match stripLeading? name cs with
  | some rest => isWordBoundary before cs.head? && isWordBoundary name.getLast? rest.head?
  | none => false

/-- Replaces a name wherever it is a word of its own. -/
def renameWord (name replacement cs : List Char) : List Char :=
  go none 0 cs
where
  /-- Here `pending` characters of the current occurrence are still to be passed over. -/
  go (before : Option Char) : Nat → List Char → List Char
    | _, [] => []
    | pending + 1, c :: cs => go (some c) pending cs
    | 0, c :: cs =>
      if nameAhead name before (c :: cs) then
        replacement ++ go (some c) (name.length - 1) cs
      else c :: go (some c) 0 cs

/-- Gives each of the names its form in an iteration, one name after the other. -/
def renameAll (names : List String) (iteration : Nat) (cs : List Char) : List Char :=
  names.foldl (fun cs name =>
    renameWord name.toList
      (expandTemplate name.toList (iterationId name iteration).toList) cs) cs

/-- Renames the part of a grid row that names the row. -/
def renameRow (rename : List Char → List Char) (row : List Char) : List Char :=
  match cutAtChars? (· == '=') row with
  | some (key, prompt) => rename key ++ '=' :: prompt
  | none => row

def renameRows (rename : List Char → List Char) (rows : List Char) : List Char :=
  [';'].intercalate ((splitChars (· == ';') rows).map (renameRow rename))

def GridBlock.rename (rename : List Char → List Char) (b : GridBlock) : GridBlock :=
  { b with id := rename b.id, args := rename b.args, rows := renameRows rename b.rows }

def renameInGrids (rename : List Char → List Char) (cs : List Char) : List Char :=
  (pieces cs).flatMap fun
    | .plain cs => cs
    | .grid b => (b.rename rename).toChars

/-- A header at the beginning of a line, up to the first closing bracket. -/
def takeHeader? (cs : List Char) : Option (List Char × List Char) := do
  let (blanks, rest) := takeRun isLineBlank cs
  let rest ← stripLeading? ['['] rest
  let (inner, rest) := takeRun (fun c => c != ']' && c != '\n') rest
  let rest ← stripLeading? [']'] rest
  return (blanks ++ '[' :: inner ++ [']'], rest)

def takeArrow? (cs : List Char) : Option (List Char × List Char) := do
  let rest ← stripLeading? ['-', '>'] cs
  let (inner, rest) := takeRun (· != '\n') rest
  return ('-' :: '>' :: inner, rest)

def takeBraces? (cs : List Char) : Option (List Char × List Char) := do
  let rest ← stripLeading? ['{'] cs
  let (inner, rest) := takeRun (fun c => c != '}' && c != '\n') rest
  let rest ← stripLeading? ['}'] rest
  return ('{' :: inner ++ ['}'], rest)

def takeCode? (lineStart : Bool) (cs : List Char) : Option (List Char × List Char) :=
  (if lineStart then takeHeader? cs else none).or ((takeArrow? cs).or (takeBraces? cs))

/-- Renames in all code of a text that begins a line. -/
def renameInCode (rename : List Char → List Char) (cs : List Char) : List Char :=
  go true 0 cs
where
  /-- Here `pending` characters of the current piece of code are still to be passed over. -/
  go (lineStart : Bool) : Nat → List Char → List Char
    | _, [] => []
    | pending + 1, c :: cs => go (c == '\n') pending cs
    | 0, c :: cs =>
      match takeCode? lineStart (c :: cs) with
      | some (code, _) => rename code ++ go (c == '\n') (code.length - 1) cs
      | none => c :: go (c == '\n') 0 cs

/-- The identifiers of question headers in a text, in order: a header needs only its
beginning to count. -/
def headerIds (cs : List Char) : List String :=
  (lines cs).filterMap fun line => do
    let rest ← stripLeading? ['['] (skipLineBlanks line)
    let (id, rest) ← takeQuestionId? rest
    let next ← rest.head?
    if next == ']' || next == '!' || next == '?' || next == ',' then some (String.ofList id)
    else none

def rowIds (rows : List Char) : List String :=
  (splitChars (· == ';') rows).filterMap fun row => do
    let (key, _) ← cutAtChars? (· == '=') row
    let key := trimChars key
    if key.isEmpty then none else some (String.ofList key)

def insertSorted (name : String) : List String → List String
  | [] => [name]
  | n :: names =>
    match compareOfLessAndEq name n with
    | .lt => name :: n :: names
    | .eq => n :: names
    | .gt => n :: insertSorted name names

/-- Everything a loop body declares, in ascending order without repetition. -/
def declaredIds (body : List Char) : List String :=
  let grids := (gridBlocks body).flatMap fun b => String.ofList b.id :: rowIds b.rows
  (headerIds body ++ grids).foldl (fun names name => insertSorted name names) []

/-- A copy of a loop body with the declared names in the form of one iteration. -/
def renameDeclared (names : List String) (iteration : Nat) (copy : List Char) : List Char :=
  let rename := renameAll names iteration
  renameInCode rename (renameInGrids rename copy)

end Questionnaire.Definition
