import Questionnaire.Proofs.Answer.Cache
import Questionnaire.Proofs.Session.Rollback

/-! Moving never changes an answer. A move that storage accepts merges the pending edits, one
that storage refuses puts them back, and any other leaves them where they are. The present
entry of a question is the same in all three, and so is what a lookup finds. -/
namespace Questionnaire

namespace Store
variable {s t u : Store}

/-- Stores in which the present entries are the same, pending or committed. -/
structure SamePresent (s t : Store) : Prop extends SameGround s t where
  entry? : ∀ q, t.entry? q = s.entry? q

theorem SameAnswers.present (same : SameAnswers s t) : SamePresent s t where
  toSameGround := same.toSameGround
  entry? := same.entry?

theorem SamePresent.refl (s : Store) : SamePresent s s := (SameAnswers.refl s).present

theorem merge_present (s : Store) : SamePresent s s.merge where
  prior := rfl
  legacy := rfl
  rowOwners := rfl
  entry? q := by
    have merged : s.merge.entry? q = s.merge.committed.get? q := rfl
    rw [merged, merge_get?]

/-- Nothing else of the answers is seen by a lookup. -/
theorem SamePresent.answer? (same : SamePresent s t) (name : String) :
    t.answer? name = s.answer? name := by
  have present : t.entry? = s.entry? := funext same.entry?
  have owner (row : String) : t.ownerEntry? row = s.ownerEntry? row := by
    rw [ ownerEntry?, ownerEntry?, same.rowOwners, present]
  have live : t.live? name = s.live? name := by
    unfold live?
    split
    · next field question _ => rw [liveField?, liveField?, owner question, present]
    · rw [livePrimary?, livePrimary?, owner name, present]
  rw [Store.answer?, Store.answer?, find?, find?, live, same.prior, same.legacy]

theorem Coherent.fieldCount (coherent : s.Coherent) (question markup : String) :
    (s.fieldCount question markup).2.Coherent := by
  unfold Store.fieldCount
  split
  · exact coherent
  · exact coherent

theorem Coherent.foldl_clear (coherent : s.Coherent) (question : String)
    (fields : List AnswerField) :
    (fields.foldl (fun store f => store.clear question f.key) s).Coherent := by
  induction fields generalizing s with
  | nil => exact coherent
  | cons f fields ih => exact ih (change_coherent coherent (.clear question f.key))

end Store

namespace Session
variable {s : Session} {storage : Storage}

/-- The ways of moving. -/
inductive Move where
  | start
  | advance
  | advanceAnyway
  | retreat
  | submit (completedAt : String)
  | advanceDeferred
  | retreatDeferred

/-- The session after a move, whatever its outcome is. -/
def make (s : Session) (storage : Storage) : Move → Session
  | .start => s.start.2
  | .advance => (s.advance storage).2.1
  | .advanceAnyway => (s.advanceAnyway storage).2.1
  | .retreat => (s.retreat storage).2.1
  | .submit completedAt => (s.submit completedAt storage).2.1
  | .advanceDeferred => s.advanceDeferred.2
  | .retreatDeferred => s.retreatDeferred.2

/-! ### What a move makes of the answers -/

/-- A move leaves the answers where they are, merges them or only forgets what was found. -/
inductive Moved (s : Session) : Session → Prop
  | kept (n : Navigator) : Moved s { s with navigator := n }
  | merged (n : Navigator) : Moved s { s with navigator := n, store := s.store.merge }
  | forgotten : Moved s s.forget

theorem Concludes.moved {result : Result} (ends : s.Concludes storage result) :
    s.Moved result.2.1 := by
  cases ends with
  | kept => exact .kept s.navigator
  | stored => exact .merged _
  | refused => exact .forgotten

theorem depart_moved (s : Session) (direction : Direction) : s.Moved (s.depart direction).2 := by
  obtain ⟨e, failed⟩ | stayed | ⟨id, n, -, left⟩ := s.depart_cases direction
  · rw [failed]
    exact .kept s.navigator
  · rw [stayed]
    exact .kept s.navigator
  · rw [left]
    exact .merged n

theorem make_moved (s : Session) (storage : Storage) (move : Move) :
    s.Moved (s.make storage move) := by
  cases move with
  | start => exact .kept _
  | advance => exact (s.advance_concludes storage).moved
  | advanceAnyway => exact (s.advanceAnyway_concludes storage).moved
  | retreat => exact (s.commit_concludes .back storage).moved
  | submit completedAt => exact (s.submit_concludes completedAt storage).moved
  | advanceDeferred =>
    rw [make, advanceDeferred]
    split
    · exact .kept s.navigator
    · exact s.depart_moved .forward
  | retreatDeferred => exact s.depart_moved .back

theorem Moved.present {t : Session} (moved : s.Moved t) : Store.SamePresent s.store t.store := by
  cases moved with
  | kept n => exact .refl s.store
  | merged n => exact s.store.merge_present
  | forgotten => exact Store.SameAnswers.present ⟨⟨rfl, rfl, rfl⟩, rfl, rfl⟩

theorem Moved.coherent {t : Session} (moved : s.Moved t) (coherent : s.store.Coherent) :
    t.store.Coherent := by
  cases moved with
  | kept n => exact coherent
  | merged n => exact Store.forget_coherent _
  | forgotten => exact Store.forget_coherent _

/-! ### What can be done with a session -/

/-- Anything that a session can be asked for. -/
inductive Act where
  | move (move : Move) (storage : Storage)
  | setField (key : String) (v : AnswerValue)
  | clearField (key : String)
  | settle (commit : PendingCommit) (answer : Except SurveyError Nat)
  | resume (storage : Storage)
  | lookup (name : String)
  | setPrior (prior : Dict AnswerValue)
  | setContext (context : Context)

def act (s : Session) : Act → Session
  | .move move storage => s.make storage move
  | .setField key v => (s.setField key v).2
  | .clearField key => (s.clearField key).2
  | .settle commit answer => (s.settle commit answer).2
  | .resume storage => (s.resume storage).2
  | .lookup name => { s with store := (s.store.lookup name).2 }
  | .setPrior prior => s.withPrior prior
  | .setContext context => s.withContext context

def actAll (s : Session) (acts : List Act) : Session := acts.foldl act s

theorem put_coherent (coherent : s.store.Coherent) (r : Record) (f : AnswerField)
    (v : AnswerValue) : (s.put r f v).Coherent := by
  have counted := coherent.fieldCount r.id (r.markupText s.context)
  exact Store.change_coherent (counted.foldl_clear r.id _) (.set r.id f.key _ _)

theorem setField_coherent (coherent : s.store.Coherent) (key : String) (v : AnswerValue) :
    (s.setField key v).2.store.Coherent := by
  unfold setField
  split
  · exact coherent
  · split
    · exact coherent
    · split
      · exact coherent
      · exact put_coherent coherent _ _ v

theorem clearField_coherent (coherent : s.store.Coherent) (key : String) :
    (s.clearField key).2.store.Coherent := by
  unfold clearField
  split
  · exact coherent
  · next question _ => exact Store.change_coherent coherent (.clear question key)

theorem settle_coherent (coherent : s.store.Coherent) (commit : PendingCommit)
    (answer : Except SurveyError Nat) : (s.settle commit answer).2.store.Coherent := by
  by_cases accepted : answer = .ok successCode
  · subst accepted
    rw [settle, if_pos rfl]
    exact coherent
  · rw [settle_failure accepted]
    exact Store.forget_coherent _

theorem resume_coherent (coherent : s.store.Coherent) (storage : Storage) :
    (s.resume storage).2.store.Coherent := by
  unfold resume
  split
  · exact coherent
  · exact coherent
  · simp only [resumeFrom]
    split
    · exact coherent
    · split
      · exact Store.forget_coherent _
      · split
        · exact Store.forget_coherent _
        · exact Store.forget_coherent _

theorem act_coherent (coherent : s.store.Coherent) (act : Act) : (s.act act).store.Coherent := by
  cases act with
  | move move storage => exact (s.make_moved storage move).coherent coherent
  | setField key v => exact setField_coherent coherent key v
  | clearField key => exact clearField_coherent coherent key
  | settle commit answer => exact settle_coherent coherent commit answer
  | resume storage => exact resume_coherent coherent storage
  | lookup name => exact (coherent.lookup name).2
  | setPrior prior => exact Store.forget_coherent _
  | setContext context => exact coherent

theorem actAll_coherent (coherent : s.store.Coherent) (acts : List Act) :
    (s.actAll acts).store.Coherent := by
  induction acts generalizing s with
  | nil => exact coherent
  | cons act acts ih => exact ih (act_coherent coherent act)

/-- Whatever has been done with a session and whatever storage answers, a move leaves the
present entry of every question as it is, and every lookup finds what it would have found,
however many lookups come in between. -/
theorem move_keeps_answers (survey : Survey) (config : SessionConfig) (now : Option Moment)
    (acts : List Act) (move : Move) (storage : Storage) :
    let s := (ofSurvey survey config now).actAll acts
    let t := s.make storage move
    (∀ q, t.store.entry? q = s.store.entry? q) ∧
      ∀ names name, ((t.store.lookups names).lookup name).1 = (s.store.lookup name).1 := by
  intro s t
  have fresh : (ofSurvey survey config now).store.Coherent :=
    Store.forget_coherent { rowOwners := survey.rowOwners }
  have coherent : s.store.Coherent := actAll_coherent fresh acts
  have moved : s.Moved t := s.make_moved storage move
  constructor
  · exact moved.present.entry?
  · intro names name
    calc ((t.store.lookups names).lookup name).1
        = t.store.answer? name := (moved.coherent coherent).lookups names name
      _ = s.store.answer? name := moved.present.answer? name
      _ = (s.store.lookup name).1 := (coherent.lookup name).1.symm

end Session

end Questionnaire
