import Questionnaire.Proofs.Answer.Storage
import Questionnaire.Proofs.Navigation.Trail
import Questionnaire.Proofs.Session.Sitting

/-! Sessions in step with storage. The change set that storage applies and the merge that
memory makes are the same update, and whatever storage refuses is taken back, so every
request leaves the committed entries as storage has them. -/
namespace Questionnaire

namespace Survey

def IsQuestion (s : Survey) (q : String) : Prop := ∃ r, s.record? q = some r

/-- Reserved names are written in lower case, and so are no questions. -/
theorem Compiled.free {s : Survey} {q : String} (compiled : s.Compiled) (known : s.IsQuestion q) :
    q ∉ Session.reservedNames := by
  obtain ⟨r, found⟩ := known
  obtain ⟨member, rfl⟩ := Survey.mem_of_record? found
  have chars := (compiled.questionId member).chars
  intro reserved
  have lower : ∀ name ∈ Session.reservedNames, name.toList.all isQuestionIdChar = false := by
    decide +kernel
  have upper : r.id.toList.all isQuestionIdChar = true := List.all_eq_true.2 chars
  rw [lower r.id reserved] at upper
  contradiction

end Survey

namespace Session
variable {s t : Session} {saved : Dict Json} {storage : Storage}

/-- A history is stored for the survey, as the list of its questions and in its framed form. -/
def Stores (s : Session) (saved : Dict Json) (h : History) : Prop :=
  saved.get? (qualifiedName s.surveyName historyName) = some h.idsJson ∧
    saved.get? (qualifiedName s.surveyName framesName) = some h.toJson

def Recorded (s : Session) (saved : Dict Json) : Prop := s.Stores saved s.navigator.history

/-- Only the question that is shown has pending edits. -/
def EditsShown (s : Session) : Prop :=
  ∀ q e, s.store.pending.get? q = some e → s.navigator.current? = some q

/-- A session whose committed entries are those of storage. -/
structure InStep (s : Session) (saved : Dict Json) : Prop where
  compiled : s.survey.Compiled
  trail : s.navigator.OnTrail s.survey
  entries : ∀ q, q ∉ reservedNames → saved.get? (qualifiedName s.surveyName q) =
    (s.store.committed.get? q).map Entry.toJson
  committed : ∀ q e, s.store.committed.get? q = some e → s.survey.IsQuestion q
  pending : ∀ q e, s.store.pending.get? q = some e → s.survey.IsQuestion q
  names : ∀ key value, saved.get? key = some value → ∃ q, key = qualifiedName s.surveyName q
  /-- A stored history is one that a session on the survey may have. -/
  visits : saved.get? (qualifiedName s.surveyName historyName) = none ∨
    ∃ h : History, h.OnTrail s.survey ∧ s.Stores saved h

theorem InStep.forget (step : s.InStep saved) : s.forget.InStep saved := { step with }

theorem move_onTrail (compiled : s.survey.Compiled) (trail : s.navigator.OnTrail s.survey)
    (direction : Direction) : (s.move direction).2.OnTrail s.survey := by
  cases direction with
  | forward => exact trail.next s.surroundings compiled
  | back => exact trail.back

theorem move_shown {direction : Direction} {id : String} {n : Navigator}
    (moved : s.move direction = (.ok (some id), n)) : ∃ id, n.current? = some id := by
  cases direction with
  | forward =>
    obtain ⟨_, _, _, passed, r, -, -, -, -, next⟩ | stayed | ⟨e, failed⟩ :=
      s.navigator.next_cases s.surroundings
    · cases next.symm.trans moved
      exact ⟨r.id, Navigator.shownState_id? r⟩
    · cases stayed.symm.trans moved
    · cases failed.symm.trans moved
  | back =>
    obtain ⟨f, earlier, -, back⟩ | stayed := s.navigator.back_cases
    · simp only [move, back] at moved
      cases moved
      exact ⟨f.id, rfl⟩
    · simp only [move, stayed] at moved
      cases moved

theorem Heads.onTrail {n : Navigator} {final : Option String} (heads : s.Heads n final)
    (compiled : s.survey.Compiled) (trail : s.navigator.OnTrail s.survey) :
    n.OnTrail s.survey := by
  cases final with
  | none =>
    obtain ⟨direction, id, moved⟩ := heads
    have there := move_onTrail compiled trail direction
    rwa [moved] at there
  | some completedAt =>
    obtain ⟨rfl, -⟩ := heads
    exact trail

/-- What storage holds of a question once it has accepted a transition. -/
theorem written_applied (s : Session) (final : Option String) (saved : Dict Json) {q : String}
    (free : q ∉ reservedNames) :
    ((s.written final).applyTo saved).get? (qualifiedName s.surveyName q) =
      ((s.store.pending.get? q).elim (saved.get? (qualifiedName s.surveyName q))
        fun e => e.map Entry.toJson) := by
  rw [ChangeSet.applyTo_get?, written_get? s final free]
  cases s.store.pending.get? q with
  | none => rfl
  | some e =>
    cases e with
    | none => rfl
    | some e => exact e.toJson_kept

theorem recorded_stored (s : Session) (final : Option String) (saved : Dict Json) :
    s.Recorded ((s.written final).applyTo saved) := by
  obtain ⟨ids, frames⟩ := s.written_history final
  constructor
  · rw [ChangeSet.applyTo_get?, ids]
    rfl
  · rw [ChangeSet.applyTo_get?, frames]
    rfl

/-- Storage and memory make the same of pending edits. -/
theorem InStep.stored {n : Navigator} (step : s.InStep saved) (trail : n.OnTrail s.survey)
    (final : Option String) :
    InStep { s with navigator := n, store := s.store.merge }
      (({ s with navigator := n }.written final).applyTo saved) where
  compiled := step.compiled
  trail := trail
  entries q free := by
    rw [Store.merge_get?, Store.entry?]
    refine (written_applied { s with navigator := n } final saved free).trans ?_
    cases edited : s.store.pending.get? q with
    | none => simpa [edited] using step.entries q free
    | some e => simp
  committed q e held := by
    rw [Store.merge_get?, Store.entry?] at held
    cases edited : s.store.pending.get? q with
    | none =>
      rw [edited] at held
      exact step.committed q e held
    | some edit => exact step.pending q edit edited
  pending q e held := by cases held
  names key value held := by
    -- A name of another survey is not written, so it has been there before.
    by_contra foreign
    have untouched := written_foreign (s := { s with navigator := n }) final
      fun q same => foreign ⟨q, same⟩
    rw [ChangeSet.applyTo_get?, untouched] at held
    exact foreign (step.names key value held)
  visits := .inr ⟨n.history, trail.history,
    recorded_stored { s with navigator := n } final saved⟩

theorem Heads.shown {n : Navigator} {final : Option String} (heads : s.Heads n final) :
    ∃ id, n.current? = some id := by
  cases final with
  | none =>
    obtain ⟨direction, id, moved⟩ := heads
    exact move_shown moved
  | some completedAt =>
    obtain ⟨rfl, id, ended⟩ := heads
    exact ⟨id, by rw [Navigator.current?, ended]; rfl⟩

theorem InStep.edited (step : s.InStep saved) (edits : s.Edits t) : t.InStep saved := by
  obtain ⟨question, store, shown, edited, rfl⟩ := edits
  obtain ⟨-, r, found, -⟩ := step.trail.current? shown
  refine ⟨step.compiled, step.trail.refreshBounds question store.source, ?_, ?_, ?_, step.names,
    step.visits⟩
  · intro q free
    change _ = (store.committed.get? q).map Entry.toJson
    rw [edited.committed]
    exact step.entries q free
  · intro q e held
    change store.committed.get? q = some e at held
    rw [edited.committed] at held
    exact step.committed q e held
  · intro q e held
    by_cases same : q = question
    · subst same
      exact ⟨r, found⟩
    · exact step.pending q e ((edited.others q same).symm.trans held)

/-- A session as it is made for a survey, before it starts. -/
structure IsNew (s : Session) : Prop where
  compiled : s.survey.Compiled
  committed : s.store.committed = ∅
  pending : s.store.pending = ∅
  navigator : ∃ limits, s.navigator = Navigator.ofSurvey s.survey limits

theorem ofSurvey_isNew {survey : Survey} (compiled : survey.Compiled) (config : SessionConfig)
    (now : Option Moment) : (ofSurvey survey config now).IsNew :=
  ⟨compiled, rfl, rfl, config.limits, rfl⟩

theorem IsNew.inStep (fresh : s.IsNew) : s.InStep ∅ where
  compiled := fresh.compiled
  trail := by
    obtain ⟨limits, made⟩ := fresh.navigator
    rw [made]
    exact Navigator.onTrail_ofSurvey s.survey limits
  entries q _ := by rw [fresh.committed]; rfl
  committed q e held := by rw [fresh.committed] at held; cases held
  pending q e held := by rw [fresh.pending] at held; cases held
  names key value held := by cases held
  visits := .inl rfl

theorem InStep.start (step : s.InStep saved) : s.start.2.InStep saved :=
  { step with trail := step.trail.start s.surroundings step.compiled }

end Session

namespace Sitting
variable {sit after : Sitting} {saved later : Dict Json}

structure Lasting (sit : Sitting) (saved : Dict Json) : Prop where
  holds : sit.storage.Holds saved
  step : sit.session.InStep saved

/-- Storage has accepted nothing, or one transition that leaves no pending edits. -/
inductive Follows (sit after : Sitting) (saved : Dict Json) : Dict Json → Prop
  | same (commits : after.commits = sit.commits)
      (recorded : sit.session.Recorded saved → after.session.Recorded saved)
      (edits : sit.session.EditsShown → after.session.EditsShown) : Follows sit after saved saved
  | stored {later : Dict Json} (commits : after.commits = sit.commits + 1)
      (recorded : after.session.Recorded later) (merged : after.session.store.pending = ∅)
      (shown : ∃ id, after.session.navigator.current? = some id) : Follows sit after saved later

theorem conclude_quiet {outcome : Except SurveyError Transition}
    (quiet : ∀ t, outcome = .ok t → t.isStored = false ∧ t.isRolledBack = false) :
    sit.conclude (outcome, sit.session, sit.storage) = sit := by
  have unstored : isStored outcome = false := by
    cases outcome with
    | error e => rfl
    | ok t => exact (quiet t rfl).1
  rw [conclude, unstored]
  rfl

theorem Lasting.concludes (lasting : sit.Lasting saved) {result : Session.Result}
    (ends : sit.session.Concludes sit.storage result) :
    ∃ later, (sit.conclude result).Lasting later ∧ sit.Follows (sit.conclude result) saved later := by
  cases ends with
  | kept quiet =>
    rw [conclude_quiet quiet]
    exact ⟨saved, lasting, .same rfl id id⟩
  | @stored n final t after heads done accepted =>
    have trail := heads.onTrail lasting.step.compiled lasting.step.trail
    have holds := lasting.holds.accepted (Session.written_plain _ final) accepted
    refine ⟨_, ⟨holds, lasting.step.stored trail final⟩, .stored ?_ ?_ rfl ?_⟩
    · rw [conclude, isStored, Except.toOption, Option.any_some, done]
      rfl
    · exact Session.recorded_stored { sit.session with navigator := n } final saved
    · exact heads.shown
  | @refused t changes answer after undone declined failure =>
    refine ⟨saved, ⟨lasting.holds.declined declined failure, lasting.step.forget⟩,
      .same ?_ id id⟩
    rw [conclude, isStored, Except.toOption, Option.any_some, t.isStored_of_isRolledBack undone]
    rfl

theorem Lasting.performs (lasting : sit.Lasting saved) (performs : sit.Performs after) :
    ∃ later, after.Lasting later ∧ sit.Follows after saved later := by
  cases performs with
  | kept => exact ⟨saved, lasting, .same rfl id id⟩
  | edited edits =>
    refine ⟨saved, ⟨lasting.holds, lasting.step.edited edits⟩, .same rfl ?_ ?_⟩
    · obtain ⟨question, store, -, -, rfl⟩ := edits
      exact id
    · obtain ⟨question, store, shown, edited, rfl⟩ := edits
      intro earlier q e held
      by_cases same : q = question
      · subst same
        exact shown
      · exact earlier q e ((edited.others q same).symm.trans held)
  | concluded ends => exact lasting.concludes ends

/-- A request, and how storage answers meanwhile. -/
structure Call where
  request : Request
  code : Nat := successCode
  failure : Option String := none

def call (sit : Sitting) (c : Call) : Sitting :=
  { sit with storage := sit.storage.behave c.code c.failure }.perform c.request

theorem Lasting.call (lasting : sit.Lasting saved) (c : Call) :
    ∃ later, (sit.call c).Lasting later ∧ sit.Follows (sit.call c) saved later := by
  have told : Lasting { sit with storage := sit.storage.behave c.code c.failure } saved :=
    ⟨lasting.holds.behave c.code c.failure, lasting.step⟩
  obtain ⟨later, lasts, follows⟩ := told.performs (perform_performs _ c.request)
  refine ⟨later, lasts, ?_⟩
  cases follows with
  | same commits recorded edits => exact .same commits recorded edits
  | stored commits recorded merged shown => exact .stored commits recorded merged shown

theorem begin_lasting {s : Session} (fresh : s.IsNew) {storage : Storage}
    (empty : storage.Holds ∅) : (begin s storage).Lasting ∅ :=
  ⟨empty, fresh.inStep.start⟩

end Sitting

end Questionnaire
