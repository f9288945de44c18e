import Questionnaire.Proofs.Session.Sitting

/-! Going back is exact. A transition that is not stored yet carries what the session was
when it began, and settling it with a failure puts that back, whatever has been done in
between: edits, other transitions, their ends in any order, and lookups that remember
what they found. -/
namespace Questionnaire.Session
variable {s t : Session} {storage : Storage} {commit : PendingCommit}

/-- What a session can be told to do while a transition waits for its end. -/
inductive Operation where
  | perform (request : Request) (storage : Storage)
  | advanceDeferred
  | retreatDeferred
  | settle (commit : PendingCommit) (answer : Except SurveyError Nat)
  | lookup (name : String)

def after (s : Session) : Operation → Session
  | .perform request storage => (Sitting.perform ⟨s, storage, 0⟩ request).session
  | .advanceDeferred => s.advanceDeferred.2
  | .retreatDeferred => s.retreatDeferred.2
  | .settle commit answer => (s.settle commit answer).2
  | .lookup name => { s with store := (s.store.lookup name).2 }

/-- A session in the place of another one: the same answers, the same place in the survey
with its queues and bounds, and lookups that find what the answers say. -/
structure Restored (s t : Session) : Prop where
  committed : t.store.committed = s.store.committed
  pending : t.store.pending = s.store.pending
  navigator : t.navigator = s.navigator
  lookups : ∀ names name, ((t.store.lookups names).lookup name).1 = s.store.answer? name

theorem restored_of_ground (ground : Store.SameGround s.store t.store) :
    s.Restored { t with store := t.store.restore s.store.snapshot, navigator := s.navigator } where
  committed := rfl
  pending := rfl
  navigator := rfl
  lookups names name := by
    have same : Store.SameAnswers s.store (t.store.restore s.store.snapshot) :=
      ⟨⟨ground.prior, ground.legacy, ground.rowOwners⟩, rfl, rfl⟩
    rw [← same.answer? name]
    exact (Store.forget_coherent _).lookups names name

/-! What every operation leaves alone -/

theorem depart_ground (s : Session) (direction : Direction) :
    Store.SameGround s.store (s.depart direction).2.store := by
  obtain ⟨e, failed⟩ | stayed | ⟨id, n, -, left⟩ := s.depart_cases direction
  · rw [failed]
    exact .refl _
  · rw [stayed]
    exact .refl _
  · rw [left]
    exact ⟨rfl, rfl, rfl⟩

theorem advanceDeferred_ground (s : Session) :
    Store.SameGround s.store s.advanceDeferred.2.store := by
  unfold advanceDeferred
  split
  · exact .refl _
  · exact s.depart_ground .forward

theorem settle_ground (s : Session) (commit : PendingCommit) (answer : Except SurveyError Nat) :
    Store.SameGround s.store (s.settle commit answer).2.store := by
  unfold settle
  split
  · split
    · exact .refl _
    · exact ⟨rfl, rfl, rfl⟩
  · exact ⟨rfl, rfl, rfl⟩

theorem performs_ground {sit later : Sitting} (performs : sit.Performs later) :
    Store.SameGround sit.session.store later.session.store := by
  cases performs with
  | kept => exact .refl _
  | edited edits =>
    obtain ⟨question, store, -, edited, rfl⟩ := edits
    exact edited.toSameGround
  | concluded ends =>
    cases ends with
    | kept => exact .refl _
    | stored => exact ⟨rfl, rfl, rfl⟩
    | refused => exact ⟨rfl, rfl, rfl⟩

theorem after_ground (s : Session) (operation : Operation) :
    Store.SameGround s.store (s.after operation).store := by
  cases operation with
  | perform request storage =>
    exact performs_ground (Sitting.perform_performs ⟨s, storage, 0⟩ request)
  | advanceDeferred => exact s.advanceDeferred_ground
  | retreatDeferred => exact s.depart_ground .back
  | settle commit answer => exact s.settle_ground commit answer
  | lookup name => exact (Store.lookup_same s.store name).toSameGround

def afterAll (s : Session) (operations : List Operation) : Session := operations.foldl after s

theorem afterAll_ground (operations : List Operation) (s : Session) :
    Store.SameGround s.store (s.afterAll operations).store := by
  induction operations generalizing s with
  | nil => exact .refl _
  | cons operation operations ih => exact (s.after_ground operation).trans (ih _)

/-- A transition that waits for its end carries the session as it was. -/
theorem depart_saved {direction : Direction} (began : s.depart direction = (.ok (.ready commit), t)) :
    commit.saved = s.snapshot := by
  obtain ⟨e, failed⟩ | stayed | ⟨id, n, -, left⟩ := s.depart_cases direction
  · rw [failed] at began
    cases began
  · rw [stayed] at began
    cases began
  · rw [left] at began
    cases began
    rfl

def Begins (s : Session) (commit : PendingCommit) (t : Session) : Prop :=
  s.advanceDeferred = (.ok (.ready commit), t) ∨ s.retreatDeferred = (.ok (.ready commit), t)

theorem Begins.saved (begins : s.Begins commit t) : commit.saved = s.snapshot := by
  rcases begins with forward | back
  · unfold advanceDeferred at forward
    split at forward
    · cases forward
    · exact depart_saved forward
  · exact depart_saved back

theorem Begins.ground (begins : s.Begins commit t) : Store.SameGround s.store t.store := by
  rcases begins with forward | back
  · have ground := s.advanceDeferred_ground
    rwa [forward] at ground
  · have ground := s.depart_ground .back
    rw [retreatDeferred] at back
    rwa [back] at ground

theorem settle_failure {answer : Except SurveyError Nat} (failure : answer ≠ .ok successCode) :
    s.settle commit answer = s.rollback commit.saved := by
  cases answer with
  | error e => rfl
  | ok code =>
    have other : code ≠ successCode := by simpa using failure
    rw [settle, if_neg other]

/-- The transitions that store at once. -/
inductive Immediate (s : Session) (storage : Storage) : Result → Prop
  | advance : Immediate s storage (s.advance storage)
  | advanceAnyway : Immediate s storage (s.advanceAnyway storage)
  | retreat : Immediate s storage (s.retreat storage)
  | submit (completedAt : String) : Immediate s storage (s.submit completedAt storage)

theorem Immediate.concludes {result : Result} (immediate : s.Immediate storage result) :
    s.Concludes storage result := by
  cases immediate with
  | advance => exact s.advance_concludes storage
  | advanceAnyway => exact s.advanceAnyway_concludes storage
  | retreat => exact s.commit_concludes .back storage
  | submit completedAt => exact s.submit_concludes completedAt storage

theorem Concludes.restored {result : Result} (ends : s.Concludes storage result)
    {t : Transition} (outcome : result.1 = .ok t) (back : t.isRolledBack = true) :
    s.Restored result.2.1 := by
  cases ends with
  | kept quiet =>
    have still := (quiet t outcome).2
    rw [back] at still
    contradiction
  | stored heads done accepted =>
    cases outcome
    have undone := t.isStored_of_isRolledBack back
    rw [done] at undone
    contradiction
  | refused undone declined failure =>
    have ground : Store.SameGround s.store s.store.merge := ⟨rfl, rfl, rfl⟩
    exact restored_of_ground (t := { s with store := s.store.merge }) ground

theorem Concludes.refused_or_kept {result : Result} (ends : s.Concludes storage result)
    (refuses : ∀ changes, (storage.store changes).1 ≠ .ok successCode) :
    result.2.1 = s ∨ ∃ t, result.1 = .ok t ∧ t.isRolledBack = true := by
  cases ends with
  | kept => exact .inl rfl
  | stored heads done accepted =>
    exact absurd (congrArg Prod.fst accepted) (refuses _)
  | @refused t changes answer later undone => exact .inr ⟨t, rfl, undone⟩

/-- A transition that storage refuses leaves the session as it was when the transition
began, and one that storage accepts ends as it was computed then. A deferred transition
may be settled after any other operations. -/
theorem rollback_exact (s : Session) :
    (∀ (commit : PendingCommit) (t : Session) (operations : List Operation), s.Begins commit t →
      (∀ answer : Except SurveyError Nat, answer ≠ .ok successCode →
        ((t.afterAll operations).settle commit answer).1.isRolledBack = true ∧
          s.Restored ((t.afterAll operations).settle commit answer).2) ∧
      (t.afterAll operations).settle commit (.ok successCode) =
        (commit.transition, t.afterAll operations)) ∧
    ∀ (storage : Storage) (result : Result), s.Immediate storage result →
      (∀ t, result.1 = .ok t → t.isRolledBack = true → s.Restored result.2.1) ∧
      ((∀ changes, (storage.store changes).1 ≠ .ok successCode) →
        result.2.1 = s ∨ ∃ t, result.1 = .ok t ∧ t.isRolledBack = true) := by
  constructor
  · intro commit t operations begins
    have ground := begins.ground.trans (afterAll_ground operations t)
    refine ⟨fun answer failure => ?_, ?_⟩
    · rw [settle_failure failure, begins.saved]
      exact ⟨rfl, restored_of_ground ground⟩
    · rw [settle, if_pos rfl]
  · intro storage result immediate
    have ends := immediate.concludes
    exact ⟨fun t => ends.restored, ends.refused_or_kept⟩

def noteSession (survey : Survey) : Session :=
  ((Sitting.begin (ofSurvey survey {} none) (.memory {})).perform (.setField "text" (.one "x"))).session

theorem noteSession_begins : ∃ survey commit t,
    (Survey.compile {} "s" Sitting.noteText).toOption = some survey ∧
    (noteSession survey).Begins commit t ∧ (noteSession survey).store.answer? "A" = some (.one "x") ∧
    ∃ t, ((noteSession survey).advance (.host 500)).1 = .ok t ∧ t.isRolledBack = true := by
  have evaluated : ((Survey.compile {} "s" Sitting.noteText).toOption.map fun survey =>
      (match (noteSession survey).advanceDeferred.1 with
        | .ok (.ready _) => true
        | _ => false,
      (noteSession survey).store.answer? "A",
      ((noteSession survey).advance (.host 500)).1.toOption.any Transition.isRolledBack)) =
      some (true, some (.one "x"), true) := by
    decide +kernel
  obtain ⟨survey, accepted, evaluated⟩ := Option.map_eq_some_iff.1 evaluated
  obtain ⟨waits, evaluated⟩ := Prod.mk.inj evaluated
  obtain ⟨answer, back⟩ := Prod.mk.inj evaluated
  cases began : (noteSession survey).advanceDeferred with
  | mk outcome t =>
    rw [began] at waits
    cases outcome with
    | error e => contradiction
    | ok deferred =>
      cases deferred with
      | settled => contradiction
      | ready commit =>
        refine ⟨survey, commit, t, accepted, .inl began, answer, ?_⟩
        cases outcome : ((noteSession survey).advance (.host 500)).1 with
        | error e => rw [outcome] at back; contradiction
        | ok t => exact ⟨t, rfl, by simpa [outcome, Except.toOption] using back⟩

def noteOperations : List Operation :=
  [.retreatDeferred, .perform (.setField "text" (.one "y")) (.host 500), .lookup "A"]

/-- Neither a step back nor another answer in between makes a difference. -/
theorem rollback_note : ∃ survey commit t,
    (Survey.compile {} "s" Sitting.noteText).toOption = some survey ∧
    (noteSession survey).Begins commit t ∧
    (((t.afterAll noteOperations).settle commit (.ok 500)).2.store.lookup "A").1 =
      some (.one "x") ∧
    (((noteSession survey).advance (.host 500)).2.1.store.lookup "A").1 = some (.one "x") := by
  obtain ⟨survey, commit, t, accepted, begins, answer, u, outcome, back⟩ := noteSession_begins
  obtain ⟨deferred, immediate⟩ := rollback_exact (noteSession survey)
  refine ⟨survey, commit, t, accepted, begins, ?_, ?_⟩
  · have settled := (deferred commit t noteOperations begins).1 (.ok 500) (by simp [successCode])
    exact (settled.2.lookups [] "A").trans answer
  · have restored := (immediate (.host 500) _ .advance).1 u outcome back
    exact (restored.lookups [] "A").trans answer

end Questionnaire.Session
