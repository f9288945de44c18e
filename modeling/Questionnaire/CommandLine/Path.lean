import Questionnaire.Text.Cut

/-! Names of files as texts with slashes. Two paths are compared part by part; a part that
stands for the present directory counts only at the front. -/
namespace Questionnaire

namespace Path

open Text

inductive Part where
  | root
  | here
  | parent
  | name (s : String)
deriving DecidableEq

namespace Part

def rank : Part → Nat
  | root => 0
  | here => 1
  | parent => 2
  | name _ => 3

def text : Part → String
  | name s => s
  | root | here | parent => ""

def compare (a b : Part) : Ordering :=
  (Ord.compare a.rank b.rank).then (compareOfLessAndEq a.text b.text)

end Part

def partOf? (front : Bool) (s : String) : Option Part :=
  if s == "." then if front then some .here else none
  else if s == "" then if front then some .root else none
  else if s == ".." then some .parent
  else some (.name s)

def parts (path : String) : List Part :=
  if path.isEmpty then []
  else
    match splitOnChar '/' path with
    | [] => []
    | first :: rest => (partOf? true first).toList ++ rest.filterMap (partOf? false)

def compareParts : List Part → List Part → Ordering
  | [], [] => .eq
  | [], _ :: _ => .lt
  | _ :: _, [] => .gt
  | a :: as, b :: bs => (a.compare b).then (compareParts as bs)

def compare (a b : String) : Ordering := compareParts (parts a) (parts b)

/-- The last part, if it is a name. -/
def fileName? (path : String) : Option String :=
  match (parts path).getLast? with
  | some (.name s) => some s
  | _ => none

/-- A name cut at its last point. A point at the front does not count. -/
def splitName (name : String) : String × Option String :=
  match cutAtChars? (· == '.') name.toList.reverse with
  | some (_, []) | none => (name, none)
  | some (extension, stem) =>
    (String.ofList stem.reverse, some (String.ofList extension.reverse))

def extension? (path : String) : Option String :=
  (fileName? path).bind fun name => (splitName name).2

/-- The file name without its extension. -/
def stem? (path : String) : Option String := (fileName? path).map fun name => (splitName name).1

/-- The directory of a file, as it is written in front of the file name. -/
def directory (path : String) : String :=
  String.ofList (path.toList.reverse.dropWhile (· != '/')).reverse

def withExtension (path extension : String) : String :=
  match stem? path with
  | some stem => directory path ++ stem ++ "." ++ extension
  | none => path

def join (path : String) (names : List String) : String :=
  names.foldl (fun path name => if path.endsWith "/" then path ++ name else path ++ "/" ++ name)
    path

end Path

end Questionnaire
