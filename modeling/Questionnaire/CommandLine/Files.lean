import Questionnaire.CommandLine.Path
import Questionnaire.Answer.Storage

/-! A directory tree of text files, given by the files in it, as a program sees it that runs
in one of the directories. -/
namespace Questionnaire

structure Files where
  /-- The names from the root down to the directory that paths start in. -/
  start : List String
  /-- Contents by the names from the root down. -/
  contents : List (List String × String)

inductive Files.Target where
  | file (content : String)
  | directory (names : List String)
  | missing
  /-- The path goes on below a file. -/
  | belowFile

namespace Files

open Questionnaire.Path

/-- The names from the root down to where a part leads. -/
def enter (names : List String) : Part → List String
  | .root => []
  | .here => names
  | .parent => names.dropLast
  | .name s => names ++ [s]

/-- Where a path leads from a directory, if all parts of it exist. -/
def namesFrom (start : List String) (path : String) : List String :=
  (parts path).foldl enter start

def ofList (start : List String) (files : List (String × String)) : Files :=
  ⟨start, files.map fun (path, content) => (namesFrom start path, content)⟩

def content? (files : Files) (names : List String) : Option String := files.contents.lookup names

def isDirectory (files : Files) (names : List String) : Bool :=
  names.isPrefixOf files.start || files.contents.any fun (file, _) =>
    names.length < file.length && names.isPrefixOf file

def follow (files : Files) (names : List String) : List Part → Target
  | [] => .directory names
  | part :: rest =>
    let below := enter names part
    if files.isDirectory below then files.follow below rest
    else
      match files.content? below with
      | some content => if rest.isEmpty then .file content else .belowFile
      | none => .missing

def asksForDirectory (path : String) : Bool := path.endsWith "/" || path.endsWith "/."

def target (files : Files) (path : String) : Target :=
  if path.isEmpty then .missing
  else
    match files.follow files.start (parts path) with
    | .file content => if asksForDirectory path then .belowFile else .file content
    | target => target

def read? (files : Files) (path : String) : Option String :=
  match files.target path with
  | .file content => some content
  | _ => none

def beginnings {α : Type} (xs : List α) : List (List α) :=
  (List.range xs.length).map fun n => xs.take (n + 1)

/-- Everything below a directory, by the names from there down. -/
def below (files : Files) (names : List String) : List (List String) :=
  (files.contents.flatMap fun (file, _) =>
    if names.isPrefixOf file then beginnings (file.drop names.length) else []).eraseDups

def storedContent (files : Files) (path : String) : FileContent :=
  match files.target path with
  | .file content => .text content
  | .directory _ => .unreadable "Is a directory (os error 21)"
  | .missing | .belowFile => .missing

end Files

end Questionnaire
