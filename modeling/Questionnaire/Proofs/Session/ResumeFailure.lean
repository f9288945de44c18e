import Questionnaire.Proofs.Navigation.Walk
import Questionnaire.Proofs.Session.Rollback

/-! What is left of a session that could not resume. Its place in the survey is kept in any
case. Its answers are kept as long as no stored state has been taken in; a stored state
whose history can be read is taken in before the navigator is asked to go there, and its
answers stay when the navigator refuses. -/
namespace Questionnaire.Session
variable {s t : Session} {storage : Storage} {e : SurveyError}

/-- A state that storage holds and whose history, if it has one, can be read. -/
def Takes (s : Session) (storage : Storage) (state : Json) : Prop :=
  storage.retrieve = .ok (some state) ∧
    let stored := StoredState.ofJson s.surveyName state
    ∃ history, stored.history.mapM (History.restore · stored.frames) = .ok history

/-- The session at the same place with the answers of a stored state. -/
def takeIn (s : Session) (state : Json) : Session :=
  let stored := StoredState.ofJson s.surveyName state
  { s with store := (s.store.load stored.committed).setLegacy (.ofJson state) }

/-- Sessions with the same answers, for every lookup too, at the same place. -/
structure Unchanged (s t : Session) : Prop where
  committed : t.store.committed = s.store.committed
  pending : t.store.pending = s.store.pending
  lookup : ∀ name, (t.store.lookup name).1 = (s.store.lookup name).1
  navigator : t.navigator = s.navigator

theorem Unchanged.refl (s : Session) : s.Unchanged s := ⟨rfl, rfl, fun _ => rfl, rfl⟩

/-- A session that cannot start stays as it is. -/
theorem start_failure (failed : s.start = (.error e, t)) : t = s := by
  obtain ⟨id, passed, r, -, -, -, arrived⟩ | ⟨_, refused⟩ := s.navigator.start_cases s.surroundings
  · simp only [start, arrived] at failed
    cases failed
  · simp only [start, refused] at failed
    cases failed
    rfl

theorem navigator_resume_failure {n : Navigator} {history : History} {survey : Survey}
    (failed : (n.resume history survey).1 = .error e) : (n.resume history survey).2 = n := by
  unfold Navigator.resume at failed ⊢
  cases visited : history.current? with
  | none => rfl
  | some id =>
    cases found : survey.get? id with
    | none => simp [found]
    | some r => simp [visited, found] at failed

theorem resumeFrom_failure {state : Json} (held : storage.retrieve = .ok (some state))
    (failed : s.resumeFrom state = (.error e, t)) :
    (¬ s.Takes storage state ∧ t = s) ∨ (s.Takes storage state ∧ t = s.takeIn state) := by
  simp only [resumeFrom] at failed
  split at failed
  · next unread =>
    cases failed
    refine .inl ⟨fun ⟨_, history, read⟩ => ?_, rfl⟩
    cases unread.symm.trans read
  · next history read =>
    refine .inr ⟨⟨held, history, read⟩, ?_⟩
    split at failed
    · exact start_failure (s := s.takeIn state) failed
    · next history =>
      split at failed
      · exact start_failure (s := s.takeIn state) failed
      · obtain ⟨refused, rfl⟩ := Prod.mk.inj failed
        have stayed := navigator_resume_failure refused
        exact congrArg (fun navigator => { s.takeIn state with navigator }) stayed

/-- A session that fails to resume stays at its place. Unless it has taken in what storage
holds nothing of it has changed, and else its answers are those of the stored state. -/
theorem resume_failure (failed : s.resume storage = (.error e, t)) :
    t.navigator = s.navigator ∧
      ((∀ state, ¬ s.Takes storage state) → s.Unchanged t) ∧
      ∀ state, s.Takes storage state → t = s.takeIn state := by
  have other {state : Json} (unheld : storage.retrieve ≠ .ok (some state)) :
      ¬ s.Takes storage state := fun takes => unheld takes.1
  have kept (same : t = s) (unheld : ∀ state, ¬ s.Takes storage state) :
      t.navigator = s.navigator ∧ ((∀ state, ¬ s.Takes storage state) → s.Unchanged t) ∧
        ∀ state, s.Takes storage state → t = s.takeIn state := by
    subst same
    exact ⟨rfl, fun _ => .refl t, fun state takes => absurd takes (unheld state)⟩
  unfold resume at failed
  split at failed
  · next retrieved =>
    cases failed
    exact kept rfl fun state => other (by simp [retrieved])
  · next retrieved => exact kept (start_failure failed) fun state => other (by simp [retrieved])
  · next state retrieved =>
    have only {further : Json} (takes : s.Takes storage further) : further = state := by
      simpa using takes.1.symm.trans retrieved
    obtain ⟨unread, same⟩ | ⟨takes, taken⟩ := resumeFrom_failure retrieved failed
    · exact kept same fun further takes => unread (only takes ▸ takes)
    · subst taken
      exact ⟨rfl, fun unheld => absurd takes (unheld state),
        fun further takes => by rw [only takes]⟩

/-- Storage with a history that ends on a question which the survey does not have. -/
def goneStorage : Storage :=
  .memory { saved := Dict.empty.insert "s.__history" (.ofTexts ["GONE"]) }

def goneState : Json := .ofDict (Dict.empty.insert "s.__history" (.ofTexts ["GONE"]))

theorem noteSession_gone : ∃ survey e t,
    (Survey.compile {} "s" Sitting.noteText).toOption = some survey ∧
    (noteSession survey).resume goneStorage = (.error e, t) ∧
    (noteSession survey).Takes goneStorage goneState ∧
    ((noteSession survey).store.lookup "A").1 = some (.one "x") ∧
    (t.store.lookup "A").1 = none := by
  have evaluated : ((Survey.compile {} "s" Sitting.noteText).toOption.map fun survey =>
      let stored := StoredState.ofJson (noteSession survey).surveyName goneState
      (((noteSession survey).resume goneStorage).1.toOption,
        (stored.history.mapM (History.restore · stored.frames)).toOption.isSome,
        ((noteSession survey).store.lookup "A").1,
        (((noteSession survey).resume goneStorage).2.store.lookup "A").1)) =
      some (none, true, some (.one "x"), none) := by
    decide +kernel
  obtain ⟨survey, accepted, evaluated⟩ := Option.map_eq_some_iff.1 evaluated
  simp only [Prod.mk.injEq] at evaluated
  obtain ⟨failed, read, answered, lost⟩ := evaluated
  cases outcome : (noteSession survey).resume goneStorage with
  | mk result t =>
    rw [outcome] at failed lost
    cases result with
    | ok id => cases failed
    | error e =>
      refine ⟨survey, e, t, accepted, outcome, ⟨rfl, ?_⟩, answered, lost⟩
      obtain ⟨history, read⟩ := Option.isSome_iff_exists.1 read
      refine ⟨history, ?_⟩
      cases attempt : (StoredState.ofJson (noteSession survey).surveyName goneState).history.mapM
          (History.restore · (StoredState.ofJson (noteSession survey).surveyName goneState).frames) with
      | error e => rw [attempt] at read; cases read
      | ok other => rw [attempt] at read; cases read; rfl

/-- An answer is lost when a session cannot resume where the stored history ends. -/
theorem resume_forgets_answer : ∃ survey e t,
    (Survey.compile {} "s" Sitting.noteText).toOption = some survey ∧
    (noteSession survey).resume goneStorage = (.error e, t) ∧ ¬ (noteSession survey).Unchanged t := by
  obtain ⟨survey, e, t, accepted, failed, -, answered, lost⟩ := noteSession_gone
  refine ⟨survey, e, t, accepted, failed, fun unchanged => ?_⟩
  have same := unchanged.lookup "A"
  rw [answered, lost] at same
  cases same

/-- It is at its question as before, with the answers of storage, which holds none. -/
theorem resume_failure_gone : ∃ survey e t,
    (Survey.compile {} "s" Sitting.noteText).toOption = some survey ∧
    (noteSession survey).resume goneStorage = (.error e, t) ∧
    t.navigator = (noteSession survey).navigator ∧ t = (noteSession survey).takeIn goneState := by
  obtain ⟨survey, e, t, accepted, failed, takes, -, -⟩ := noteSession_gone
  obtain ⟨stays, -, taken⟩ := resume_failure failed
  exact ⟨survey, e, t, accepted, failed, stays, taken goneState takes⟩

end Questionnaire.Session
