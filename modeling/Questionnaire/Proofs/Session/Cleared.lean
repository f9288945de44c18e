import Questionnaire.Proofs.Answer.LegacyIndex
import Questionnaire.Proofs.Session.Agreement
import Questionnaire.Proofs.Session.Resume

/-! Answers taken away after resuming. The index that resuming makes of the stored values
stays as it is whatever is answered afterwards, and lies behind the answers. A question
that loses its last answer is therefore looked up among the stored values, and is without
answer exactly if no leaf of them goes by its name. -/
namespace Questionnaire

namespace Session
variable {s t u : Session} {saved : Dict Json} {q : String}

/-- The last answer to the question that is shown is taken away: a field is cleared or is
given an empty answer. -/
structure Clears (s : Session) (q : String) (t : Session) : Prop where
  shown : s.navigator.current? = some q
  held : ∃ e, s.store.entry? q = some e
  edit : (∃ key, t = (s.clearField key).2) ∨ ∃ key v, v.isEmpty = true ∧ t = (s.setField key v).2
  lost : t.store.entry? q = none

theorem put_empty (s : Session) (r : Record) (f : AnswerField) {v : AnswerValue}
    (empty : v.isEmpty = true) : s.put r f v =
      (s.store.fieldCount r.id (r.markupText s.context)).2.clear r.id f.key := by
  have kept : s.keepExclusive r v = v := by
    cases v with
    | one => rfl
    | many selected =>
      obtain rfl : selected = [] := List.isEmpty_iff.1 empty
      simp [keepExclusive]
  simp [put, kept, Store.set, empty]

theorem Clears.edits (clears : s.Clears q t) : s.Edits t := by
  have same : t = s ∨ s.Edits t := by
    obtain ⟨key, rfl⟩ | ⟨key, v, -, rfl⟩ := clears.edit
    · exact s.clearField_cases key
    · exact s.setField_cases key v
  rcases same with rfl | edits
  · obtain ⟨e, held⟩ := clears.held
    cases held.symm.trans clears.lost
  · exact edits

theorem Clears.forgotten (clears : s.Clears q t) : t.store.resolved = ∅ := by
  obtain ⟨shown, ⟨e, held⟩, edit, lost⟩ := clears
  obtain ⟨key, rfl⟩ | ⟨key, v, empty, rfl⟩ := edit
  · simp only [clearField, shown] at lost ⊢
    exact Store.clear_forgets held lost
  · simp only [setField, shown] at lost ⊢
    split at lost
    · cases held.symm.trans lost
    · next r found =>
      obtain rfl : r.id = q := get?_id found
      split at lost
      · cases held.symm.trans lost
      · next f _ =>
        simp only [withAnswers] at lost ⊢
        rw [put_empty s r f empty] at lost ⊢
        refine Store.clear_forgets (e := e) ?_ lost
        unfold Store.fieldCount
        split <;> exact held

/-- What is answered together with a question: the question, unless it is an answered row
of another grid, and the rows that it owns. -/
inductive Answers (t : Session) (q : String) : String → Prop
  | question (alone : ∀ e, t.store.ownerEntry? q = some e → e.field? q = none) : Answers t q q
  | row {row : String} (owned : t.store.rowOwners.get? row = some q)
      (free : ¬t.survey.IsQuestion row) (shaped : isIdentifier row = true)
      (plain : '.' ∉ row.toList) : Answers t q row

/-- A question is without answer in a session that has resumed over stored values. -/
structure Cleared (t : Session) (q : String) (saved : Dict Json) : Prop where
  /-- Lookups find what they would without having resumed, else what has been stored. -/
  lookup : ∀ names name, ((t.store.lookups names).lookup name).1 =
    (t.store.withoutIndex.answer? name).or ((LegacyIndex.ofJson (.ofDict saved)).find? name)
  without : ∀ name, t.Answers q name → t.store.withoutIndex.answer? name = none
  /-- No answer is seen exactly if no leaf of the stored values has the name. -/
  unseen : ∀ names name, t.Answers q name → (((t.store.lookups names).lookup name).1 = none ↔
    ∀ value, LegacyIndex.Named name value (.ofDict saved) → AnswerValue.ofLeaf? value = none)
  /-- Expressions see of a name that no leaf has what they would without having resumed. -/
  source : ∀ name, (∀ value, LegacyIndex.Named name value (.ofDict saved) →
      AnswerValue.ofLeaf? value = none) → t.store.source name = t.store.withoutIndex.source name

theorem InStep.unentered (step : t.InStep saved) {name : String}
    (free : ¬t.survey.IsQuestion name) : t.store.entry? name = none := by
  unfold Store.entry?
  cases edited : t.store.pending.get? name with
  | some edit => exact absurd (step.pending name edit edited) free
  | none =>
    cases held : t.store.committed.get? name with
    | none => rfl
    | some e => exact absurd (step.committed name e held) free

theorem Clears.withoutIndex (clears : s.Clears q t) (step : t.InStep saved)
    (known : t.survey.IsQuestion q) (noPrior : t.store.prior = ∅) {name : String}
    (answers : t.Answers q name) : t.store.withoutIndex.answer? name = none := by
  have lost (shaped : isIdentifier name = true) (plain : '.' ∉ name.toList)
      (primary : t.store.livePrimary? name = none) :
      t.store.withoutIndex.answer? name = none := by
    have live : t.store.withoutIndex.live? name = none :=
      (t.store.live?_plain plain).trans primary
    have prior : t.store.withoutIndex.prior.get? name = none := by
      rw [Store.withoutIndex, noPrior]
      rfl
    rw [Store.answer?, Store.numeral?_identifier shaped, Store.find?, live, prior]
    rfl
  cases answers with
  | question alone =>
    obtain ⟨r, found⟩ := known
    obtain ⟨member, rfl⟩ := Survey.mem_of_record? found
    have shaped := step.compiled.questionId member
    exact lost shaped.isIdentifier shaped.pointless (Store.livePrimary?_eq_none clears.lost alone)
  | row owned free shaped plain =>
    refine lost shaped plain (Store.livePrimary?_eq_none (step.unentered free) fun e held => ?_)
    rw [Store.ownerEntry?, owned, Option.bind_some, clears.lost] at held
    cases held

theorem Clears.cleared (clears : s.Clears q t) (step : t.InStep saved) {stored : Dict Json}
    (known : t.survey.IsQuestion q) (noPrior : t.store.prior = ∅)
    (index : t.store.legacy = .ofJson (.ofDict stored)) : t.Cleared q stored := by
  have lookup (names : List String) (name : String) :
      ((t.store.lookups names).lookup name).1 = (t.store.withoutIndex.answer? name).or
        ((LegacyIndex.ofJson (.ofDict stored)).find? name) := by
    rw [(Store.coherent_of_forgotten clears.forgotten).lookups names name, Store.answer?_index,
      index]
  refine ⟨lookup, fun name => clears.withoutIndex step known noPrior, ?_, ?_⟩
  · intro names name answers
    rw [lookup, clears.withoutIndex step known noPrior answers, Option.none_or]
    exact LegacyIndex.find?_ofJson_eq_none_iff _ name
  · intro name none
    refine Store.source_withoutIndex clears.forgotten ?_
    rw [index]
    exact (LegacyIndex.find?_ofJson_eq_none_iff _ name).2 none

/-- A new session on the survey is in step with what another has stored, once it has the
same entries. -/
theorem InStep.inherit (step : s.InStep saved) (same : s.SameSurvey t) (new : t.IsNew) :
    InStep { t with store := { t.store with committed := s.store.committed } } saved where
  compiled := new.compiled
  trail := new.inStep.trail
  entries q free := by
    rw [same.name]
    exact step.entries q free
  committed q e held := by
    rw [same.survey]
    exact step.committed q e held
  pending q e held := by
    rw [new.pending] at held
    cases held
  names key value held := by
    rw [same.name]
    exact step.names key value held
  visits := by
    rw [same.name, same.survey]
    exact step.visits

theorem InStep.resume_new {storage : Storage} (step : s.InStep saved) (same : s.SameSurvey t)
    (new : t.IsNew) (holds : storage.Holds saved) (unindexed : t.store.legacy = {}) :
    (t.resume storage).2.InStep saved ∧
      (t.resume storage).2.store.legacy = .ofJson (.ofDict saved) ∧
      (t.resume storage).2.store.prior = t.store.prior := by
  simp only [Session.resume, holds.retrieve]
  by_cases nothing : saved.isEmpty = true
  · obtain rfl : saved = ∅ := Dict.eq_empty nothing
    exact ⟨new.inStep.start, unindexed, rfl⟩
  · rw [if_neg nothing]
    have reloaded : (t.reload saved).InStep saved := (step.inherit same new).reload
    obtain ⟨resumed, store⟩ := reloaded.resumeFrom
    have index := congrArg Store.legacy store
    have prior := congrArg Store.prior store
    exact ⟨resumed, index, prior⟩

end Session

namespace Sitting
variable {sit after : Sitting} {saved : Dict Json} {t : Session}

theorem Performs.ground (performs : sit.Performs after) :
    Store.SameGround sit.session.store after.session.store := by
  cases performs with
  | kept => exact .refl _
  | edited edits =>
    obtain ⟨question, store, -, edited, rfl⟩ := edits
    exact edited.toSameGround
  | concluded ends => cases ends <;> exact ⟨rfl, rfl, rfl⟩

theorem call_ground (sit : Sitting) (c : Call) :
    Store.SameGround sit.session.store (sit.call c).session.store :=
  (perform_performs { sit with storage := sit.storage.behave c.code c.failure } c.request).ground

/-- Requests leave alone what lookups fall back on. -/
theorem Lasting.run (lasting : sit.Lasting saved) (calls : List Call) :
    ∃ later, (sit.run calls).Lasting later ∧
      Store.SameGround sit.session.store (sit.run calls).session.store := by
  induction calls generalizing sit saved with
  | nil => exact ⟨saved, lasting, .refl _⟩
  | cons c calls ih =>
    obtain ⟨next, lasting, -⟩ := lasting.call c
    obtain ⟨later, lasting, ground⟩ := ih lasting
    exact ⟨later, lasting, (sit.call_ground c).trans ground⟩

/-- Another session resumes over the same storage. -/
def reopen (sit : Sitting) (t : Session) : Sitting :=
  { session := (t.resume sit.storage).2, storage := sit.storage }

/-- A question that loses its last answer in a session that has resumed is looked up among
the values that were stored when it resumed. -/
theorem cleared_after_resume {s t u : Session} (fresh : s.IsNew) {storage : Storage}
    (empty : storage.Holds ∅) (events : List Event) (new : t.IsNew) (same : s.SameSurvey t)
    (unindexed : t.store.legacy = {}) (noPrior : t.store.prior = ∅) (calls : List Call)
    {q : String} (clears :
      ((((begin s storage).handleAll events).reopen t).run calls).session.Clears q u) :
    ∃ saved, ((begin s storage).handleAll events).storage.Holds saved ∧ u.Cleared q saved := by
  obtain ⟨saved, lasting⟩ := (begin_lasting fresh empty).handleAll events
  have since := handleAll_sameSurvey events (begin s storage)
  have same : Session.SameSurvey ((begin s storage).handleAll events).session t :=
    ⟨same.survey.trans since.survey.symm, same.name.trans since.name.symm⟩
  obtain ⟨step, index, prior⟩ := lasting.step.resume_new same new lasting.holds unindexed
  have reopened : (((begin s storage).handleAll events).reopen t).Lasting saved :=
    ⟨lasting.holds, step⟩
  obtain ⟨later, kept, ground⟩ := reopened.run calls
  have edits := clears.edits
  have known := kept.step.edited edits
  obtain ⟨-, r, found, -⟩ := kept.step.trail.current? clears.shown
  obtain ⟨question, store, -, edited, rfl⟩ := edits
  refine ⟨saved, lasting.holds, clears.cleared known ⟨r, found⟩ ?_ ?_⟩
  · exact (edited.prior.trans ground.prior).trans (prior.trans noPrior)
  · exact (edited.legacy.trans ground.legacy).trans index

def notesText : String := "[A]\n\x7btext\x7d\n[B]\n[END]"

/-- An answer that is stored, and the way back to it. -/
def notesEvents : List Event :=
  [.call ⟨.setField "text" (.one "x"), successCode, none⟩, .call ⟨.advance, successCode, none⟩,
    .call ⟨.retreat, successCode, none⟩]

def reopened (survey : Survey) : Sitting :=
  ((begin (Session.ofSurvey survey {} none) (.memory {})).handleAll notesEvents).reopen
    (Session.ofSurvey survey {} none)

theorem reopened_clears : ∃ survey u, (Survey.compile {} "s" notesText).toOption = some survey ∧
    (reopened survey).session.Clears "A" u ∧ (u.store.lookup "A").1 = some (.one "x") ∧
    (u.store.withoutIndex.lookup "A").1 = none := by
  have evaluated : ((Survey.compile {} "s" notesText).toOption.map fun survey =>
      let s := (reopened survey).session
      let u := (s.clearField "text").2
      ((s.navigator.current?, (s.store.entry? "A").isSome, (u.store.entry? "A").isNone),
        (u.store.lookup "A").1, (u.store.withoutIndex.lookup "A").1)) =
      some ((some "A", true, true), some (.one "x"), none) := by
    decide +kernel
  obtain ⟨survey, accepted, evaluated⟩ := Option.map_eq_some_iff.1 evaluated
  simp only [Prod.mk.injEq, Option.isSome_iff_exists, Option.isNone_iff_eq_none] at evaluated
  obtain ⟨⟨shown, held, lost⟩, found, without⟩ := evaluated
  exact ⟨survey, _, accepted, ⟨shown, held, .inl ⟨"text", rfl⟩, lost⟩, found, without⟩

/-- What expressions see of an answer that is cleared after resuming, and what they would
see without having resumed. -/
theorem cleared_still_seen : ∃ survey u,
    (Survey.compile {} "s" notesText).toOption = some survey ∧
    (reopened survey).session.Clears "A" u ∧ u.store.source "A" = some (.text "x") ∧
    u.store.withoutIndex.source "A" = none := by
  obtain ⟨survey, u, accepted, clears, found, without⟩ := reopened_clears
  refine ⟨survey, u, accepted, clears, ?_, ?_⟩
  · rw [Store.source, found]
    rfl
  · rw [Store.source, without]
    rfl

/-- The stored values that the cleared answer is found among. -/
theorem cleared_after_resume_notes : ∃ survey u saved,
    (Survey.compile {} "s" notesText).toOption = some survey ∧
    (reopened survey).session.Clears "A" u ∧ Session.Cleared u "A" saved ∧
    (LegacyIndex.ofJson (.ofDict saved)).find? "A" = some (.one "x") := by
  obtain ⟨survey, u, accepted, clears, found, without⟩ := reopened_clears
  have fresh := Session.ofSurvey_isNew (Survey.compiled_of_toOption accepted) {} none
  have empty : (Storage.memory {}).Holds ∅ := .memory rfl
  obtain ⟨saved, -, cleared⟩ := cleared_after_resume fresh empty notesEvents fresh ⟨rfl, rfl⟩ rfl
    rfl [] clears
  refine ⟨survey, u, saved, accepted, clears, cleared, ?_⟩
  have forgotten : u.store.withoutIndex.Coherent := Store.coherent_of_forgotten clears.forgotten
  have lookup := cleared.lookup [] "A"
  rw [← (forgotten.lookup "A").1, without, Option.none_or] at lookup
  exact lookup.symm.trans found

end Sitting

end Questionnaire
