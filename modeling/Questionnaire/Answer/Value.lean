import Questionnaire.Json.Writer
import Questionnaire.Value.Basic

/-! Single answers: a text or a selection of any number of texts, and their form in
JSON. -/
namespace Questionnaire

inductive AnswerValue where
  | one (s : String)
  | many (items : List String)
deriving DecidableEq

namespace AnswerValue

def isEmpty : AnswerValue → Bool
  | one s => s.isEmpty
  | many items => items.isEmpty

def values : AnswerValue → List String
  | one s => [s]
  | many items => items

def contains (v : AnswerValue) (s : String) : Bool := v.values.contains s

def toValue : AnswerValue → Value
  | one s => .text s
  | many items => .list (items.map .text)

def toJson : AnswerValue → Json
  | one s => .text s
  | many items => .ofTexts items

def ofJson? : Json → Option AnswerValue
  | .text s => some (one s)
  | .array items => (items.mapM Json.text?).map many
  | _ => none

/-- An item of a stored selection as text. A missing item is none. -/
def leafItem? : Json → Option String
  | .text s => some s
  | .null => none
  | item => some item.render

/-- The answer that a leaf of a stored tree stands for, whoever wrote the tree: numbers
and truth values count as their text. -/
def ofLeaf? : Json → Option AnswerValue
  | .text s => some (one s)
  | .number n => some (one n.text)
  | .bool b => some (one (if b then "true" else "false"))
  | .array items => some (many (items.filterMap leafItem?))
  | .null | .object _ => none

theorem ofJson?_toJson (v : AnswerValue) : ofJson? v.toJson = some v := by
  cases v with
  | one s => rfl
  | many items =>
    have h : (items.map Json.text).mapM Json.text? = some items := by
      induction items with
      | nil => rfl
      | cons item items ih => simp [List.mapM_cons, ih, Json.text?]
    simp [toJson, Json.ofTexts, ofJson?, h]

end AnswerValue

end Questionnaire
