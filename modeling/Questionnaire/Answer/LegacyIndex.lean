import Questionnaire.Answer.Value
import Questionnaire.Text.Cut

/-! An index over a stored tree. Every key of an object, wherever the object stands
inside other objects, names its value, and so does what follows the last point of a
key. Of several values with one name the last one that is an answer counts. -/
namespace Questionnaire

structure LegacyIndex where
  /-- Names and values, a value before what it contains. -/
  entries : List (String × Json) := []

namespace LegacyIndex

/-- What follows the last point of a key, if there is a point. -/
def lastSegment? (key : String) : Option String :=
  (Text.cutAtChars? (· == '.') key.toList.reverse).map fun (segment, _) =>
    String.ofList segment.reverse

/-- The names of a value under a key. -/
def names (key : String) : List String := key :: (lastSegment? key).toList

mutual

def collect : Json → List (String × Json)
  | .object fields => collectFields fields
  | _ => []

def collectFields : List (String × Json) → List (String × Json)
  | [] => []
  | (key, value) :: fields =>
    (names key).map (·, value) ++ collect value ++ collectFields fields

end

def ofJson (tree : Json) : LegacyIndex := ⟨collect tree⟩

def size (index : LegacyIndex) : Nat := index.entries.length

def isEmpty (index : LegacyIndex) : Bool := index.entries.isEmpty

def find? (index : LegacyIndex) (name : String) : Option AnswerValue :=
  (index.entries.reverse.filter (·.1 == name)).findSome? fun (_, value) =>
    AnswerValue.ofLeaf? value

end LegacyIndex

end Questionnaire
