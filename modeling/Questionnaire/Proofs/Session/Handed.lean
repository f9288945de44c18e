import Questionnaire.Proofs.Session.InStep

/-! What a request hands to storage. A transition that arrives somewhere, or that ends the
survey, hands over one change set, whose names are those of the survey's own questions and
the reserved ones; storage then accepts it or nothing has happened. -/
namespace Questionnaire

namespace Session
variable {s : Session} {storage : Storage} {saved : Dict Json}

/-- The changes of a transition that waits to be stored. -/
def waiting? : Except SurveyError Deferred → Option ChangeSet
  | .ok (.ready commit) => some commit.changes
  | .ok (.settled _) => none
  | .error _ => none

/-- The change set that a request hands to storage. -/
def handed? (s : Session) : Request → Option ChangeSet
  | .setField .. | .clearField .. => none
  | .advance => waiting? s.advanceDeferred.1
  | .advanceAnyway =>
    match s.gate with
    | .blocked _ false => none
    | _ => waiting? (s.depart .forward).1
  | .retreat => waiting? s.retreatDeferred.1
  | .submit completedAt =>
    match s.navigator.state with
    | .terminal _ => some (s.written (some completedAt))
    | _ => none

/-- What a session and storage have become once a request has handed over its changes. -/
inductive Hands (s : Session) (storage : Storage) : Option ChangeSet → Sitting → Prop
  | kept : Hands s storage none ⟨s, storage, 0⟩
  | edited {t : Session} (edits : s.Edits t) : Hands s storage none ⟨t, storage, 0⟩
  | accepted {n : Navigator} {final : Option String} {after : Storage} (heads : s.Heads n final)
      (stored : storage.store ({ s with navigator := n }.written final) =
        (.ok successCode, after)) :
      Hands s storage (some ({ s with navigator := n }.written final))
        ⟨{ s with navigator := n, store := s.store.merge }, after, 1⟩
  | refused {n : Navigator} {final : Option String} {answer : Except SurveyError Nat}
      {after : Storage} (heads : s.Heads n final)
      (declined : storage.store ({ s with navigator := n }.written final) = (answer, after))
      (failure : answer ≠ .ok successCode) :
      Hands s storage (some ({ s with navigator := n }.written final)) ⟨s.forget, after, 0⟩

theorem hands_of_settle {n : Navigator} {final : Option String} {t : Transition}
    {changes : ChangeSet} (heads : s.Heads n final) (done : t.isStored = true)
    (writes : { s with navigator := n }.written final = changes) :
    s.Hands storage (some changes) (Sitting.conclude ⟨s, storage, 0⟩
      (let (t, s, storage) := Session.conclude { s with navigator := n, store := s.store.merge }
        ⟨changes, t, s.snapshot⟩ storage
       (.ok t, s, storage))) := by
  subst writes
  cases stored : storage.store ({ s with navigator := n }.written final) with
  | mk answer after =>
    simp only [conclude, stored]
    cases answer with
    | error e => exact .refused heads stored (by simp)
    | ok code =>
      by_cases success : code = successCode
      · subst success
        have settled := Hands.accepted heads stored
        simpa [settle, Sitting.conclude, Sitting.isStored, Except.toOption, done] using settled
      · simp only [settle, if_neg success]
        exact .refused heads stored (by simpa using success)

theorem commit_hands (s : Session) (direction : Direction) (storage : Storage) :
    s.Hands storage (waiting? (s.depart direction).1)
      (Sitting.conclude ⟨s, storage, 0⟩ (s.commit direction storage)) := by
  rw [commit]
  obtain ⟨e, failed⟩ | stayed | ⟨id, n, moved, left⟩ := s.depart_cases direction
  · rw [failed]
    exact .kept
  · rw [stayed]
    exact .kept
  · rw [left]
    have heads : s.Heads n none := ⟨direction, id, moved⟩
    exact hands_of_settle heads (arrival_isStored _ direction id) rfl

theorem perform_hands (s : Session) (storage : Storage) (request : Request) :
    s.Hands storage (s.handed? request) (Sitting.perform ⟨s, storage, 0⟩ request) := by
  have edit {t : Session} (edited : t = s ∨ s.Edits t) : s.Hands storage none ⟨t, storage, 0⟩ := by
    rcases edited with rfl | edits
    · exact .kept
    · exact .edited edits
  cases request with
  | setField key v => exact edit (s.setField_cases key v)
  | clearField key => exact edit (s.clearField_cases key)
  | advance =>
    rw [handed?, Sitting.perform, advanceDeferred, advance]
    cases s.gate with
    | blocked unanswered overridable => exact .kept
    | passed => exact s.commit_hands .forward storage
  | advanceAnyway =>
    rw [handed?, Sitting.perform, advanceAnyway]
    cases s.gate with
    | passed => exact s.commit_hands .forward storage
    | blocked unanswered overridable =>
      cases overridable with
      | true => exact s.commit_hands .forward storage
      | false => exact .kept
  | retreat => exact s.commit_hands .back storage
  | submit completedAt =>
    rw [handed?, Sitting.perform, submit]
    cases ended : s.navigator.state with
    | terminal id =>
      have heads : s.Heads s.navigator (some completedAt) := ⟨rfl, id, ended⟩
      exact hands_of_settle heads rfl rfl
    | _ => exact .kept

/-- Every name that is handed over is reserved or belongs to a question that has edits. -/
theorem written_names {final : Option String} {key : String} {value : Json}
    (written : (s.written final).get? key = some value) :
    ∃ q, key = qualifiedName s.surveyName q ∧
      (q ∈ reservedNames ∨ ∃ e, s.store.pending.get? q = some e) := by
  by_contra foreign
  by_cases own : ∃ q, key = qualifiedName s.surveyName q
  · obtain ⟨q, rfl⟩ := own
    by_cases reserved : q ∈ reservedNames
    · exact foreign ⟨q, rfl, .inl reserved⟩
    · rw [written_get? s final reserved, Option.map_eq_some_iff] at written
      obtain ⟨e, edited, -⟩ := written
      exact foreign ⟨q, rfl, .inr ⟨e, edited⟩⟩
  · rw [written_foreign final fun q same => own ⟨q, same⟩] at written
    cases written

end Session

end Questionnaire
