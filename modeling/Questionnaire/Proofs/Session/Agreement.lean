import Questionnaire.Proofs.Session.InStep

/-! Memory and storage stay in agreement. After any requests, whatever storage answers to
them, the saved values are the committed entries and, once storage has accepted a
transition, the present history. -/
namespace Questionnaire.Sitting
variable {sit : Sitting} {saved : Dict Json}

structure Sound (sit : Sitting) (saved : Dict Json) : Prop extends sit.Lasting saved where
  recorded : 0 < sit.commits → sit.session.Recorded saved
  untouched : sit.commits = 0 → saved = ∅
  edits : sit.session.EditsShown

theorem Sound.call (sound : sit.Sound saved) (c : Call) : ∃ saved, (sit.call c).Sound saved := by
  obtain ⟨later, lasting, follows⟩ := sound.toLasting.call c
  refine ⟨later, lasting, ?_, ?_, ?_⟩
  · intro accepted
    cases follows with
    | same commits recorded _ => exact recorded (sound.recorded (commits ▸ accepted))
    | stored _ recorded => exact recorded
  · intro none
    cases follows with
    | same commits => exact sound.untouched (commits.symm.trans none)
    | stored commits => omega
  · cases follows with
    | same _ _ edits => exact edits sound.edits
    | stored _ _ merged =>
      intro q e held
      rw [merged] at held
      cases held

def run (sit : Sitting) (calls : List Call) : Sitting := calls.foldl call sit

theorem Sound.run (sound : sit.Sound saved) (calls : List Call) :
    ∃ saved, (sit.run calls).Sound saved := by
  induction calls generalizing sit saved with
  | nil => exact ⟨saved, sound⟩
  | cons c calls ih =>
    obtain ⟨later, sound⟩ := sound.call c
    exact ih sound

theorem begin_sound {s : Session} (fresh : s.IsNew) {storage : Storage}
    (empty : storage.Holds ∅) : (begin s storage).Sound ∅ where
  toLasting := begin_lasting fresh empty
  recorded none := by cases none
  untouched _ := rfl
  edits q e held := by
    change s.store.pending.get? q = some e at held
    rw [fresh.pending] at held
    cases held

/-- What memory and storage have in common. -/
structure Agreement (sit : Sitting) (saved : Dict Json) : Prop where
  holds : sit.storage.Holds saved
  /-- Under a name that is not reserved stands the committed entry, if there is one. -/
  entries : ∀ q, q ∉ Session.reservedNames →
    saved.get? (qualifiedName sit.session.surveyName q) =
      (sit.session.store.committed.get? q).map Entry.toJson
  free : ∀ q, sit.session.survey.IsQuestion q → q ∉ Session.reservedNames
  committed : ∀ q e, sit.session.store.committed.get? q = some e →
    sit.session.survey.IsQuestion q
  names : ∀ key value, saved.get? key = some value →
    ∃ q, key = qualifiedName sit.session.surveyName q ∧
      (q ∈ Session.reservedNames ∨ sit.session.survey.IsQuestion q)
  recorded : 0 < sit.commits → sit.session.Recorded saved
  untouched : sit.commits = 0 → saved = ∅
  pending : sit.session.EditsShown

/-- After any requests, whatever storage answers to them, memory and storage agree. -/
theorem run_agreement {s : Session} (fresh : s.IsNew) {storage : Storage}
    (empty : storage.Holds ∅) (calls : List Call) :
    ∃ saved, ((begin s storage).run calls).Agreement saved := by
  obtain ⟨saved, sound⟩ := (begin_sound fresh empty).run calls
  have step := sound.step
  refine ⟨saved, sound.holds, step.entries, fun q => step.compiled.free, step.committed, ?_,
    sound.recorded, sound.untouched, sound.edits⟩
  intro key value held
  obtain ⟨q, rfl⟩ := step.names key value held
  by_cases reserved : q ∈ Session.reservedNames
  · exact ⟨q, rfl, .inl reserved⟩
  · rw [step.entries q reserved] at held
    obtain ⟨e, committed, -⟩ := Option.map_eq_some_iff.1 held
    exact ⟨q, rfl, .inr (step.committed q e committed)⟩

/-- An answer that storage refuses twice before it accepts it. -/
def noteCalls : List Call :=
  [⟨.setField "text" (.one "x"), successCode, none⟩, ⟨.advance, 500, none⟩,
    ⟨.advance, successCode, some "offline"⟩, ⟨.advance, successCode, none⟩]

theorem run_agreement_note : ∃ survey saved,
    (Survey.compile {} "s" noteText).toOption = some survey ∧
    ((begin (Session.ofSurvey survey {} none) (.memory {})).run noteCalls).Agreement saved ∧
    (saved.get? "s.A").bind Json.text? = some "x" := by
  have answered : ((Survey.compile {} "s" noteText).toOption.map fun survey =>
      let s := ((begin (Session.ofSurvey survey {} none) (.memory {})).run noteCalls).session
      (s.surveyName, ((s.store.committed.get? "A").map Entry.toJson).bind Json.text?)) =
      some ("s", some "x") := by
    decide +kernel
  obtain ⟨survey, accepted, answered⟩ := Option.map_eq_some_iff.1 answered
  obtain ⟨name, answer⟩ := Prod.mk.inj answered
  have fresh := Session.ofSurvey_isNew (Survey.compiled_of_toOption accepted) {} none
  have empty : (Storage.memory {}).Holds ∅ := .memory rfl
  obtain ⟨saved, agreement⟩ := run_agreement fresh empty noteCalls
  refine ⟨survey, saved, accepted, agreement, ?_⟩
  have entry := agreement.entries "A" (by decide)
  rw [name] at entry
  have stored : saved.get? "s.A" = _ := entry
  rw [stored]
  exact answer

end Questionnaire.Sitting
