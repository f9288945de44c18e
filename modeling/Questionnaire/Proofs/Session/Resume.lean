import Questionnaire.Proofs.Navigation.History
import Questionnaire.Proofs.Session.InStep

/-! Resuming undoes storing. What has been stored for a survey is read back name by name,
so a session that resumes right after storage has accepted a transition has the answers,
the history and the place of the session that stored them. -/
namespace Questionnaire

namespace Session

theorem ownName?_eq_some {survey key q : String} :
    ownName? survey key = some q ↔ key = qualifiedName survey q := by
  have split (rest : List Char) :
      Text.stripLeading? (qualifiedName survey "").toList key.toList = some rest ↔
        key = qualifiedName survey (String.ofList rest) := by
    rw [Text.stripLeading?_eq_some_iff, ← String.toList_inj]
    simp [qualifiedName]
  rw [ownName?, Option.map_eq_some_iff]
  constructor
  · rintro ⟨rest, stripped, rfl⟩
    exact (split rest).1 stripped
  · intro same
    exact ⟨q.toList, (split _).2 (by rw [String.ofList_toList]; exact same), String.ofList_toList⟩

namespace StoredState

theorem take_reserved (stored : StoredState) {name : String} (value : Json)
    (reserved : name ∈ reservedNames) : (stored.take name value).committed = stored.committed := by
  unfold take
  split
  · rfl
  · split
    · rfl
    · split
      · rfl
      · simp_all [reservedNames]

theorem take_free (stored : StoredState) {name : String} (value : Json)
    (free : name ∉ reservedNames) : stored.take name value =
      (Entry.ofJson? value).elim stored fun e =>
        { stored with committed := stored.committed.insert name e } := by
  simp only [reservedNames, List.mem_cons, List.not_mem_nil, or_false, not_or] at free
  simp only [take, beq_iff_eq, Bool.or_eq_true, free, or_self, if_false]
  cases Entry.ofJson? value <;> rfl

/-- A value changes the entry of its own name at most, and of no reserved one. -/
theorem take_committed (stored : StoredState) (name : String) (value : Json) (q : String) :
    (stored.take name value).committed.get? q =
      if q = name ∧ q ∉ reservedNames then (Entry.ofJson? value).or (stored.committed.get? q)
      else stored.committed.get? q := by
  by_cases reserved : name ∈ reservedNames
  · have other : ¬(q = name ∧ q ∉ reservedNames) := fun ⟨same, free⟩ => free (same ▸ reserved)
    rw [take_reserved stored value reserved, if_neg other]
  · rw [take_free stored value reserved]
    cases Entry.ofJson? value with
    | none => simp
    | some e =>
      by_cases same : q = name
      · subst same
        simp [reserved]
      · simp [same]

theorem take_history (stored : StoredState) (name : String) (value : Json) :
    (stored.take name value).history =
      if name = historyName then some value else stored.history := by
  unfold take
  by_cases own : name = historyName
  · simp [own]
  · simp only [beq_iff_eq, own, if_false]
    repeat' split
    all_goals rfl

theorem take_frames (stored : StoredState) (name : String) (value : Json) :
    (stored.take name value).frames =
      if name = framesName then some value else stored.frames := by
  unfold take
  by_cases own : name = framesName
  · subst own
    rfl
  · simp only [beq_iff_eq, own, if_false]
    repeat' split
    all_goals rfl

/-- What is read of the values that storage holds is seen at the name it belongs to. -/
theorem ofJson_observe {β : Type} (survey : String) (saved : Dict Json) (name : String)
    (observe : StoredState → β) (change : Json → β → β)
    (hit : ∀ stored value, observe (stored.take name value) = change value (observe stored))
    (miss : ∀ stored other value, other ≠ name →
      observe (stored.take other value) = observe stored) :
    observe (ofJson survey (.ofDict saved)) =
      (saved.get? (qualifiedName survey name)).elim (observe {})
        fun value => change value (observe {}) := by
  have own : ownName? survey (qualifiedName survey name) = some name := ownName?_eq_some.2 rfl
  refine Dict.foldl_entries saved _ observe (qualifiedName survey name) change ?_ ?_ {}
  · intro stored value
    simp only [own]
    exact hit stored value
  · intro stored key value different
    simp only
    cases named : ownName? survey key with
    | none => rfl
    | some other =>
      refine miss stored other value fun same => different ?_
      rw [← same]
      exact ownName?_eq_some.1 named

theorem ofJson_committed (survey : String) (saved : Dict Json) {q : String}
    (free : q ∉ reservedNames) : (ofJson survey (.ofDict saved)).committed.get? q =
      (saved.get? (qualifiedName survey q)).bind Entry.ofJson? := by
  refine (ofJson_observe survey saved q (·.committed.get? q)
    (fun value old => (Entry.ofJson? value).or old) ?_ ?_).trans ?_
  · intro stored value
    rw [take_committed, if_pos ⟨rfl, free⟩]
  · intro stored other value different
    rw [take_committed, if_neg fun both => different both.1.symm]
  · cases saved.get? (qualifiedName survey q) with
    | none => rfl
    | some value => exact Option.or_none

theorem ofJson_reserved (survey : String) (saved : Dict Json) {q : String}
    (reserved : q ∈ reservedNames) : (ofJson survey (.ofDict saved)).committed.get? q = none := by
  refine (ofJson_observe survey saved q (·.committed.get? q) (fun _ old => old) ?_ ?_).trans ?_
  · intro stored value
    rw [take_committed, if_neg fun both => both.2 reserved]
  · intro stored other value different
    rw [take_committed, if_neg fun both => different both.1.symm]
  · cases saved.get? (qualifiedName survey q) <;> rfl

theorem ofJson_history (survey : String) (saved : Dict Json) :
    (ofJson survey (.ofDict saved)).history = saved.get? (qualifiedName survey historyName) := by
  refine (ofJson_observe survey saved historyName (·.history) (fun value _ => some value) ?_
    ?_).trans ?_
  · intro stored value
    rw [take_history, if_pos rfl]
  · intro stored other value different
    rw [take_history, if_neg different]
  · cases saved.get? (qualifiedName survey historyName) <;> rfl

theorem ofJson_frames (survey : String) (saved : Dict Json) :
    (ofJson survey (.ofDict saved)).frames = saved.get? (qualifiedName survey framesName) := by
  refine (ofJson_observe survey saved framesName (·.frames) (fun value _ => some value) ?_
    ?_).trans ?_
  · intro stored value
    rw [take_frames, if_pos rfl]
  · intro stored other value different
    rw [take_frames, if_neg different]
  · cases saved.get? (qualifiedName survey framesName) <;> rfl

end StoredState

variable {s t : Session} {saved : Dict Json} {h : History}

def reload (s : Session) (saved : Dict Json) : Session :=
  let stored := StoredState.ofJson s.surveyName (.ofDict saved)
  { s with store := (s.store.load stored.committed).setLegacy (.ofJson (.ofDict saved)) }

/-- What storage holds of the entries makes them up again. -/
theorem InStep.reload_committed (step : s.InStep saved) (name : t.surveyName = s.surveyName) :
    (t.reload saved).store.committed = s.store.committed := by
  change (StoredState.ofJson t.surveyName (.ofDict saved)).committed = _
  rw [name]
  apply Dict.ext_get?
  intro q
  -- No entry is read under a reserved name, and none is committed under one.
  by_cases reserved : q ∈ reservedNames
  · rw [StoredState.ofJson_reserved s.surveyName saved reserved]
    cases held : s.store.committed.get? q with
    | none => rfl
    | some e => exact absurd reserved (step.compiled.free (step.committed q e held))
  · rw [StoredState.ofJson_committed s.surveyName saved reserved, step.entries q reserved]
    cases s.store.committed.get? q with
    | none => rfl
    | some e => exact e.ofJson?_toJson

theorem InStep.reload (step : s.InStep saved) : (s.reload saved).InStep saved where
  compiled := step.compiled
  trail := step.trail
  entries q free := by
    rw [step.reload_committed rfl]
    exact step.entries q free
  committed q e held := by
    rw [step.reload_committed rfl] at held
    exact step.committed q e held
  pending q e held := by cases held
  names := step.names
  visits := step.visits

theorem resumeFrom_unvisited (none : saved.get? (qualifiedName s.surveyName historyName) = none) :
    s.resumeFrom (.ofDict saved) = (s.reload saved).start := by
  simp only [resumeFrom, StoredState.ofJson_history, none, Option.mapM_none]
  rfl

theorem resumeFrom_stored (stores : s.Stores saved h) : s.resumeFrom (.ofDict saved) =
    if h.isEmpty then (s.reload saved).start
    else ((s.navigator.resume h s.survey).1,
      { s.reload saved with navigator := (s.navigator.resume h s.survey).2 }) := by
  simp only [resumeFrom, StoredState.ofJson_history, StoredState.ofJson_frames, stores.1, stores.2,
    Option.mapM_some, History.restore_stored]
  rfl

theorem InStep.resumeFrom (reloaded : (s.reload saved).InStep saved) :
    (s.resumeFrom (.ofDict saved)).2.InStep saved ∧
      (s.resumeFrom (.ofDict saved)).2.store = (s.reload saved).store := by
  rcases reloaded.visits with unvisited | ⟨h, trail, stores⟩
  · rw [resumeFrom_unvisited (s := s) unvisited]
    exact ⟨reloaded.start, rfl⟩
  · rw [resumeFrom_stored (s := s) stores, h.isEmpty_eq]
    cases visited : h.current? with
    | none => exact ⟨reloaded.start, rfl⟩
    | some id =>
      rw [Navigator.resume_onTrail (s := s.survey) trail s.navigator visited]
      exact ⟨{ reloaded with trail := ⟨trail, rfl⟩ }, rfl⟩

theorem InStep.resume {storage : Storage} (step : s.InStep saved) (holds : storage.Holds saved) :
    (s.resume storage).2.InStep saved := by
  simp only [Session.resume, holds.retrieve]
  by_cases nothing : saved.isEmpty = true
  · rw [if_pos nothing]
    exact step.start
  · rw [if_neg nothing]
    exact step.reload.resumeFrom.1

/-- A session resumes where the session has been whose history is stored. -/
theorem resume_stored {storage : Storage} {id : String} (holds : storage.Holds saved)
    (stores : t.Stores saved h) (trail : h.OnTrail t.survey) (visited : h.current? = some id) :
    t.resume storage = (.ok id, { t.reload saved with
      navigator := { t.navigator with state := Navigator.stateIn t.survey h, history := h } }) := by
  have something : saved.isEmpty = false := Dict.isEmpty_eq_false stores.1
  simp only [Session.resume, holds.retrieve, something, Bool.false_eq_true, if_false]
  rw [resumeFrom_stored stores, h.isEmpty_eq, visited,
    Navigator.resume_onTrail trail t.navigator visited]
  rfl

/-- Sessions on one survey that store under one name. -/
structure SameSurvey (s t : Session) : Prop where
  survey : t.survey = s.survey
  name : t.surveyName = s.surveyName

theorem SameSurvey.trans {u : Session} (first : SameSurvey s t) (second : SameSurvey t u) :
    SameSurvey s u where
  survey := second.survey.trans first.survey
  name := second.name.trans first.name

theorem resume_sameSurvey (s : Session) (storage : Storage) :
    SameSurvey s (s.resume storage).2 := by
  unfold resume
  split
  · exact ⟨rfl, rfl⟩
  · exact ⟨rfl, rfl⟩
  · simp only [resumeFrom]
    repeat' split
    all_goals exact ⟨rfl, rfl⟩

end Session

namespace Sitting
variable {sit : Sitting} {saved : Dict Json}

theorem Performs.sameSurvey {after : Sitting} (performs : sit.Performs after) :
    Session.SameSurvey sit.session after.session := by
  cases performs with
  | kept => exact ⟨rfl, rfl⟩
  | edited edits =>
    obtain ⟨question, store, -, -, rfl⟩ := edits
    exact ⟨rfl, rfl⟩
  | concluded ends => cases ends <;> exact ⟨rfl, rfl⟩

inductive Event where
  | start
  | resume
  | call (c : Call)

def handle (sit : Sitting) : Event → Sitting
  | .start => { sit with session := sit.session.start.2 }
  | .resume => { sit with session := (sit.session.resume sit.storage).2 }
  | .call c => sit.call c

theorem Lasting.handle (lasting : sit.Lasting saved) (event : Event) :
    ∃ later, (sit.handle event).Lasting later := by
  cases event with
  | start => exact ⟨saved, lasting.holds, lasting.step.start⟩
  | resume => exact ⟨saved, lasting.holds, lasting.step.resume lasting.holds⟩
  | call c =>
    obtain ⟨later, lasts, -⟩ := lasting.call c
    exact ⟨later, lasts⟩

theorem handle_sameSurvey (sit : Sitting) (event : Event) :
    Session.SameSurvey sit.session (sit.handle event).session := by
  cases event with
  | start => exact ⟨rfl, rfl⟩
  | resume => exact sit.session.resume_sameSurvey sit.storage
  | call c =>
    have performs := perform_performs
      { sit with storage := sit.storage.behave c.code c.failure } c.request
    exact performs.sameSurvey

def handleAll (sit : Sitting) (events : List Event) : Sitting := events.foldl handle sit

theorem Lasting.handleAll (lasting : sit.Lasting saved) (events : List Event) :
    ∃ later, (sit.handleAll events).Lasting later := by
  induction events generalizing sit saved with
  | nil => exact ⟨saved, lasting⟩
  | cons event events ih =>
    obtain ⟨later, lasting⟩ := lasting.handle event
    exact ih lasting

theorem handleAll_sameSurvey (events : List Event) (sit : Sitting) :
    Session.SameSurvey sit.session (sit.handleAll events).session := by
  induction events generalizing sit with
  | nil => exact ⟨rfl, rfl⟩
  | cons event events ih => exact (sit.handle_sameSurvey event).trans (ih _)

/-- Whenever storage has just accepted a transition, a session on the same survey and
under the same name resumes where the session is that has stored it, with the same
answers. -/
theorem resume_after_commit {s t : Session} (fresh : s.IsNew) {storage : Storage}
    (empty : storage.Holds ∅) (events : List Event) (c : Call)
    (before : sit = (begin s storage).handleAll events)
    (accepted : sit.commits < (sit.call c).commits) (same : s.SameSurvey t) :
    ∃ id u, (sit.call c).session.navigator.current? = some id ∧
      t.resume (sit.call c).storage = (.ok id, u) ∧
      u.store.committed = (sit.call c).session.store.committed ∧
      u.navigator.history = (sit.call c).session.navigator.history ∧
      u.navigator.state = (sit.call c).session.navigator.state := by
  obtain ⟨earlier, lasting⟩ := (begin_lasting fresh empty).handleAll events
  have since := (handleAll_sameSurvey events (begin s storage)).trans
    (handle_sameSurvey _ (.call c))
  rw [← before] at lasting since
  have survey : t.survey = (sit.call c).session.survey := same.survey.trans since.survey.symm
  have name : t.surveyName = (sit.call c).session.surveyName := same.name.trans since.name.symm
  obtain ⟨saved, lasts, follows⟩ := lasting.call c
  cases follows with
  | same commits => omega
  | stored _ recorded _ shown =>
    obtain ⟨id, shown⟩ := shown
    have trail := lasts.step.trail
    have visited := (trail.current? shown).1
    have stores : t.Stores saved (sit.call c).session.navigator.history := by
      rw [Session.Stores, name]
      exact recorded
    have there : (sit.call c).session.navigator.history.OnTrail t.survey := survey ▸ trail.history
    refine ⟨id, _, shown, Session.resume_stored lasts.holds stores there visited, ?_, rfl, ?_⟩
    · exact lasts.step.reload_committed name
    · rw [trail.state, survey]

/-- An answer whose first transition is refused, and a restart. -/
def noteEvents : List Event :=
  [.call { request := .setField "text" (.one "x") }, .call { request := .advance, code := 500 },
    .resume]

def noteSitting (survey : Survey) : Sitting :=
  (begin (Session.ofSurvey survey {} none) (.memory {})).handleAll noteEvents

/-- Whoever comes back is shown the end again, with the answer in place. -/
theorem resume_after_note : ∃ survey u, (Survey.compile {} "s" noteText).toOption = some survey ∧
    (Session.ofSurvey survey {} none).resume
      ((noteSitting survey).call { request := .advance }).storage = (.ok "END", u) ∧
    u.navigator.state = .terminal "END" ∧
    (u.store.committed.get? "A").bind Entry.primary? = some (.one "x") := by
  have evaluated : ((Survey.compile {} "s" noteText).toOption.map fun survey =>
      let now := (noteSitting survey).call { request := .advance }
      (decide ((noteSitting survey).commits < now.commits), now.session.navigator.state,
        (now.session.store.committed.get? "A").bind Entry.primary?)) =
      some (true, .terminal "END", some (.one "x")) := by
    decide +kernel
  obtain ⟨survey, compiled, evaluated⟩ := Option.map_eq_some_iff.1 evaluated
  simp only [Prod.mk.injEq, decide_eq_true_eq] at evaluated
  obtain ⟨accepted, state, answer⟩ := evaluated
  have fresh := Session.ofSurvey_isNew (Survey.compiled_of_toOption compiled) {} none
  have before : noteSitting survey =
      (begin (Session.ofSurvey survey {} none) (.memory {})).handleAll noteEvents := rfl
  obtain ⟨id, u, shown, resumed, committed, -, there⟩ :=
    resume_after_commit fresh (.memory rfl) noteEvents _ before accepted ⟨rfl, rfl⟩
  have ended : id = "END" := by
    rw [Navigator.current?, state] at shown
    exact (Option.some.inj shown).symm
  subst ended
  exact ⟨survey, u, compiled, resumed, there.trans state, by rw [committed]; exact answer⟩

end Sitting

end Questionnaire
