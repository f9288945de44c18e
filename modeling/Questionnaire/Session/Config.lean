import Questionnaire.Json.Basic
import Questionnaire.Limits
import Questionnaire.Text.Numeral

/-! Settings of a session. Stored settings may leave out anything; what is there must be
of the right kind. -/
namespace Questionnaire

structure SessionConfig where
  /-- What the names of stored values begin with; if it is empty, the name of the
  definition takes its place. -/
  surveyName : String := ""
  limits : Limits := {}
  /-- How long a notice stays, in milliseconds. -/
  noticeMs : Nat := 4000
  /-- How long a background compilation may take, in milliseconds. -/
  workerTimeoutMs : Option Nat := some 2000
  user : Option String := none
  /-- Variables of texts, also in place of predefined ones. -/
  context : Dict String := ∅

namespace SessionConfig

open Text

/-- A field that may be missing. -/
def readOr {α : Type} (default : α) (read : Json → Option α) : Option Json → Option α
  | some j => read j
  | none => some default

/-- A count that does not exceed `largest`. -/
def readCount? (largest : Nat) (j : Json) : Option Nat := j.nat?.filter (· ≤ largest)

def readNullable? {α : Type} (read : Json → Option α) : Json → Option (Option α)
  | .null => some none
  | j => (read j).map some

def limitNames : List String :=
  ["max_definition_bytes", "max_expression_depth", "max_loop_iterations", "max_navigation_steps"]

def readLimits? (j : Json) : Option Limits := do
  let field ← j.fieldsOf? limitNames
  let d : Limits := {}
  let count (largest default : Nat) (name : String) :=
    readOr default (readCount? largest) (field name)
  return {
    maxDefinitionBytes :=
      ← count largestUInt64 d.maxDefinitionBytes "max_definition_bytes"
    maxExpressionDepth :=
      ← count largestUInt64 d.maxExpressionDepth "max_expression_depth"
    maxLoopIterations :=
      ← count largestUInt32 d.maxLoopIterations "max_loop_iterations"
    maxNavigationSteps :=
      ← count largestUInt64 d.maxNavigationSteps "max_navigation_steps" }

def readTexts? (j : Json) : Option (Dict String) := do
  let fields ← j.object?
  return .ofList (← fields.mapM fun (field : String × Json) => field.2.text?.map (field.1, ·))

def names : List String :=
  ["survey_name", "limits", "notice_ms", "worker_timeout_ms", "user", "context"]

def ofJson? (j : Json) : Option SessionConfig := do
  let field ← j.fieldsOf? names
  let d : SessionConfig := {}
  return {
    surveyName := ← readOr d.surveyName Json.text? (field "survey_name")
    limits := ← readOr d.limits readLimits? (field "limits")
    noticeMs := ← readOr d.noticeMs (readCount? largestUInt64) (field "notice_ms")
    workerTimeoutMs := ← readOr d.workerTimeoutMs (readNullable? (readCount? largestUInt64))
      (field "worker_timeout_ms")
    user := ← readOr d.user (readNullable? Json.text?) (field "user")
    context := ← readOr d.context readTexts? (field "context") }

def limitsJson (l : Limits) : Json :=
  .ofFields [
    ("max_definition_bytes", .nat l.maxDefinitionBytes),
    ("max_expression_depth", .nat l.maxExpressionDepth),
    ("max_loop_iterations", .nat l.maxLoopIterations),
    ("max_navigation_steps", .nat l.maxNavigationSteps)]

def toJson (c : SessionConfig) : Json :=
  .ofFields [
    ("survey_name", .text c.surveyName),
    ("limits", limitsJson c.limits),
    ("notice_ms", .nat c.noticeMs),
    ("worker_timeout_ms", .ofOption .nat c.workerTimeoutMs),
    ("user", .ofOption .text c.user),
    ("context", .ofDict (c.context.mapValues .text))]

end SessionConfig

end Questionnaire
