import Questionnaire.Answer.Value
import Questionnaire.Dict
import Questionnaire.Survey.Record

/-! Everything that is stored for one question. A question with one field holds its
answer bare; a question with several holds answers under the keys of its fields. -/
namespace Questionnaire

inductive Entry where
  | single (v : AnswerValue)
  | keyed (answers : Dict AnswerValue)

namespace Entry

/-- The answer to a field. A bare answer stands for every field. -/
def field? (e : Entry) (key : String) : Option AnswerValue :=
  match e with
  | single v => some v
  | keyed answers => answers.get? key

/-- The answer that stands for the whole question. -/
def primary? : Entry → Option AnswerValue
  | single v => some v
  | keyed answers =>
    match answers.entries with
    | [(_, v)] => some v
    | _ => (answers.get? radioKey).or (answers.get? checkboxKey)

def toJson : Entry → Json
  | single v => v.toJson
  | keyed answers => .ofDict (answers.mapValues AnswerValue.toJson)

def readAnswer? (field : String × Json) : Option (String × AnswerValue) :=
  (AnswerValue.ofJson? field.2).map (field.1, ·)

def ofJson? : Json → Option Entry
  | .object fields => (fields.mapM readAnswer?).map fun answers => keyed (.ofList answers)
  | j => (AnswerValue.ofJson? j).map single

/-- The entry with an answer under a key. A bare answer gives way. -/
def put (e : Option Entry) (key : String) (v : AnswerValue) : Entry :=
  match e with
  | some (keyed answers) => keyed (answers.insert key v)
  | _ => keyed (Dict.empty.insert key v)

/-- The entry without the answer to a field, if anything is left. -/
def drop (key : String) : Entry → Option Entry
  | single _ => none
  | keyed answers =>
    let left := answers.erase key
    if left.isEmpty then none else some (keyed left)

/-- Whether there is an answer that `drop` takes away. -/
def holds (e : Entry) (key : String) : Bool :=
  match e with
  | single _ => true
  | keyed answers => answers.contains key

end Entry

end Questionnaire
