import Questionnaire.Proofs.Session.Transition

/-! What a respondent does with a session, request by request, while storage may behave
as it likes. A request edits answers to the question that is shown, or it ends as a
transition does. -/
namespace Questionnaire

namespace Session
variable {s : Session} {question : String} {store : Store}

theorem put_editedAt (s : Session) (r : Record) (f : AnswerField) (v : AnswerValue) :
    Store.EditedAt r.id s.store (s.put r f v) := by
  unfold put
  have counted := Store.fieldCount_editedAt s.store r.id (r.markupText s.context)
  exact (counted.trans (Store.foldl_clear_editedAt _ _)).trans (Store.set_editedAt _ _ _ _ _)

/-- The session with other edits of the question that is shown. -/
def Edits (s t : Session) : Prop :=
  ∃ question store, s.navigator.current? = some question ∧
    Store.EditedAt question s.store store ∧ t = s.withAnswers question store

theorem get?_id {r : Record} (found : s.survey.get? question = some r) : r.id = question := by
  rw [Survey.get?, Option.or_eq_some_iff] at found
  rcases found with found | ⟨-, found⟩
  · simpa using List.find?_some found
  · simpa using List.find?_some found

theorem setField_cases (s : Session) (key : String) (v : AnswerValue) :
    (s.setField key v).2 = s ∨ s.Edits (s.setField key v).2 := by
  unfold setField
  split
  · exact .inl rfl
  · next question shown =>
    split
    · exact .inl rfl
    · next r found =>
      split
      · exact .inl rfl
      · next f _ =>
        have edited := s.put_editedAt r f v
        rw [get?_id found] at edited
        exact .inr ⟨question, _, shown, edited, rfl⟩

theorem clearField_cases (s : Session) (key : String) :
    (s.clearField key).2 = s ∨ s.Edits (s.clearField key).2 := by
  unfold clearField
  split
  · exact .inl rfl
  · next question shown =>
    exact .inr ⟨question, _, shown, Store.clear_editedAt s.store question key, rfl⟩

end Session

/-- What can be asked for once a session has started. -/
inductive Request where
  | setField (key : String) (v : AnswerValue)
  | clearField (key : String)
  | advance
  | advanceAnyway
  | retreat
  | submit (completedAt : String)

structure Sitting where
  session : Session
  storage : Storage
  /-- How often storage has accepted a transition. -/
  commits : Nat := 0

namespace Sitting

def isStored (outcome : Except SurveyError Transition) : Bool :=
  outcome.toOption.any Transition.isStored

def conclude (sit : Sitting) : Session.Result → Sitting
  | (outcome, session, storage) =>
    ⟨session, storage, if isStored outcome then sit.commits + 1 else sit.commits⟩

def perform (sit : Sitting) : Request → Sitting
  | .setField key v => { sit with session := (sit.session.setField key v).2 }
  | .clearField key => { sit with session := (sit.session.clearField key).2 }
  | .advance => sit.conclude (sit.session.advance sit.storage)
  | .advanceAnyway => sit.conclude (sit.session.advanceAnyway sit.storage)
  | .retreat => sit.conclude (sit.session.retreat sit.storage)
  | .submit completedAt => sit.conclude (sit.session.submit completedAt sit.storage)

def begin (s : Session) (storage : Storage) : Sitting := { session := s.start.2, storage }

inductive Performs (sit : Sitting) : Sitting → Prop
  | kept : Performs sit sit
  | edited {s : Session} (edits : sit.session.Edits s) : Performs sit { sit with session := s }
  | concluded {result : Session.Result} (ends : sit.session.Concludes sit.storage result) :
      Performs sit (sit.conclude result)

theorem performs_of_edit {sit : Sitting} {s : Session}
    (edit : s = sit.session ∨ sit.session.Edits s) : sit.Performs { sit with session := s } := by
  rcases edit with rfl | edits
  · exact .kept
  · exact .edited edits

theorem perform_performs (sit : Sitting) (request : Request) :
    sit.Performs (sit.perform request) := by
  cases request with
  | setField key v => exact performs_of_edit (sit.session.setField_cases key v)
  | clearField key => exact performs_of_edit (sit.session.clearField_cases key)
  | advance => exact .concluded (sit.session.advance_concludes sit.storage)
  | advanceAnyway => exact .concluded (sit.session.advanceAnyway_concludes sit.storage)
  | retreat => exact .concluded (sit.session.commit_concludes .back sit.storage)
  | submit completedAt => exact .concluded (sit.session.submit_concludes completedAt sit.storage)

def noteText : String := "[A]\n\x7btext\x7d\n[END]"

end Sitting

end Questionnaire
