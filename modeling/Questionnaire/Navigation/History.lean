import Questionnaire.Definition.Identifier
import Questionnaire.Error
import Questionnaire.Json.Basic

/-! The questions visited so far, and those queued to be shown next. Every visit keeps
the queue as it stood at that moment, so that a step back also takes back what was
queued since. -/
namespace Questionnaire

structure Frame where
  id : String
  queued : List String := []
deriving DecidableEq

structure History where
  /-- The visits, the last one first. -/
  visits : List Frame := []
  upcoming : List String := []
deriving DecidableEq

namespace History

def isEmpty (h : History) : Bool := h.visits.isEmpty

def current? (h : History) : Option String := h.visits.head?.map Frame.id

/-- The visits, the first one first. -/
def frames (h : History) : List Frame := h.visits.reverse

/-- The questions visited, the first one first. -/
def ids (h : History) : List String := h.frames.map Frame.id

/-- Puts questions in front of the queue. -/
def enqueue (h : History) (ids : List String) : History := { h with upcoming := ids ++ h.upcoming }

/-- The first question of the queue, and the history without it there. -/
def pop? (h : History) : Option (String × History) :=
  match h.upcoming with
  | id :: rest => some (id, { h with upcoming := rest })
  | [] => none

def visit (h : History) (id : String) : History :=
  { h with visits := ⟨id, h.upcoming⟩ :: h.visits }

def start (id : String) : History := History.visit {} id

/-- Steps back to the last earlier visit that is no continuation marker. -/
def back? (h : History) : Option (String × History) :=
  match h.visits.tail.dropWhile fun f => LoopMarker.isContinuation f.id with
  | [] => none
  | f :: earlier => some (f.id, ⟨f :: earlier, f.queued⟩)

/-! Stored form -/

def frameJson (f : Frame) : Json :=
  .ofFields (("id", .text f.id) ::
    if f.queued.isEmpty then [] else [("queued", .ofTexts f.queued)])

def idsJson (h : History) : Json := .ofTexts h.ids

/-- All visits with their queues, and the present queue. -/
def toJson (h : History) : Json :=
  .ofFields [("visited", .array (h.frames.map frameJson)), ("upcoming", .ofTexts h.upcoming)]

def readFrame? (j : Json) : Option Frame := do
  let field ← j.fieldsOf? ["id", "queued"]
  let id ← (field "id").bind Json.text?
  match field "queued" with
  | none => return ⟨id, []⟩
  | some queued => return ⟨id, ← queued.texts?⟩

/-- A history with its queues. -/
def readFramed? (j : Json) : Option History := do
  let field ← j.fieldsOf? ["visited", "upcoming"]
  let frames ← ((field "visited").bind Json.array?).bind (·.mapM readFrame?)
  let upcoming ← (field "upcoming").bind Json.texts?
  return ⟨frames.reverse, upcoming⟩

/-- A list of questions or a history with its queues. Of a list, what is no text is
passed over. -/
def ofJson (j : Json) : Except SurveyError History :=
  match j with
  | .array items =>
    .ok ((items.filterMap Json.text?).foldl History.visit {})
  | j =>
    match readFramed? j with
    | some h => .ok h
    | none => .error (.state .unreadableJson)

/-- The history of a stored list of questions. The queues are taken from the framed
form if it is about the same visits. -/
def restore (ids : Json) (framed : Option Json) : Except SurveyError History := do
  let plain ← ofJson ids
  match framed.bind readFramed? with
  | some h => return if h.ids == plain.ids then h else plain
  | none => return plain

end History

end Questionnaire
