import Questionnaire.Proofs.Answer.Lookup
import Questionnaire.Proofs.Session.Rollback
import Questionnaire.Proofs.Survey.Compiled
import Questionnaire.Proofs.Survey.Position

/-! Answers are read back. What a field of the question that is shown has been given is what
a lookup of that field finds, and the field counts as answered at the gate, under two
conditions: there is no point in the key of the field, since names are cut at their first
point, and a field that is called like its question is the only one with an answer. Only a
name that is a number stands for itself. -/
namespace Questionnaire

namespace Session
variable {s t : Session} {q key : String} {r : Record} {f : AnswerField} {v : AnswerValue}

/-- What is recorded when a field is given an answer: options that exclude the others are
kept apart from them. -/
def kept (s : Session) (r : Record) (f : AnswerField) (v : AnswerValue) : AnswerValue :=
  if f.key == checkboxKey then s.keepExclusive r v else v

theorem put_answered (answered : (s.kept r f v).isEmpty = false) :
    (s.put r f v).Coherent ∧ ∃ e, Store.entry? (s.put r f v) r.id = some e ∧
      e.field? f.key = some (s.kept r f v) :=
  Store.set_answered _ r.id f.key _ answered

theorem setField_put (shown : s.navigator.current? = some q) (found : s.survey.get? q = some r)
    (field : r.field? key = some f) :
    s.setField key v = (.ok (), s.withAnswers q (s.put r f v)) := by
  simp only [setField, shown, found, field]

theorem gate_passed (found : t.survey.get? q = some r) (shown : t.navigator.current? = some q)
    (field : f ∈ r.fields) (qualifies : GateOutcome.qualifies t.evaluator t.store f = true)
    (answered : GateOutcome.isAnswered t.store r.id f = true) : t.gate = .passed := by
  have passes (overridable : Bool) :
      GateOutcome.ofFields t.evaluator t.store r overridable = .passed := by
    have among : f ∈ r.fields.filter (GateOutcome.qualifies t.evaluator t.store) :=
      List.mem_filter.2 ⟨field, qualifies⟩
    have some : (r.fields.filter (GateOutcome.qualifies t.evaluator t.store)).any
        (GateOutcome.isAnswered t.store r.id) = true := List.any_eq_true.2 ⟨f, among, answered⟩
    simp [GateOutcome.ofFields, some]
  unfold gate
  cases state : t.navigator.state with
  | idle => rfl
  | terminal id => rfl
  | active id =>
    obtain rfl : id = q := by
      rw [Navigator.current?, state] at shown
      exact Option.some.inj shown
    simp only [found, GateOutcome.ofRecord]
    split
    · rfl
    · exact passes true
    · exact passes false

/-- An answer to a field of the question that is shown is found under the field, however many
lookups come before, and the gate counts the field as answered. -/
theorem setField_readBack (compiled : s.survey.Compiled) (shown : s.navigator.current? = some q)
    (found : s.survey.record? q = some r) (field : r.field? key = some f)
    (answered : (s.kept r f v).isEmpty = false) (plain : '.' ∉ key.toList)
    (own : compoundName key q = q →
      ∀ e, (s.setField key v).2.store.entry? q = some e → e.StandsFor key) :
    ∃ t, s.setField key v = (.ok (), t) ∧
      (∀ names, ((t.store.lookups names).lookupField key q).1 =
        (Store.numeral? (compoundName key q)).or (some (s.kept r f v))) ∧
      GateOutcome.isAnswered t.store q f = true ∧
      (GateOutcome.qualifies t.evaluator t.store f = true → t.gate = .passed) := by
  have got : s.survey.get? q = some r := by rw [Survey.get?, found, Option.some_or]
  obtain ⟨member, rfl⟩ := Survey.mem_of_record? found
  obtain rfl : f.key = key := by simpa using List.find?_some field
  have set := setField_put (v := v) shown got field
  rw [set] at own ⊢
  obtain ⟨coherent, e, held, given⟩ := put_answered answered
  have live : (s.put r f v).liveValue? f.key r.id = some (s.kept r f v) :=
    Store.liveValue?_entry held given plain (compiled.questionId member).pointless
      fun same => own same e held
  have counts : GateOutcome.isAnswered (s.put r f v) r.id f = true := by
    rw [GateOutcome.isAnswered, live, Option.any_some, answered]
    rfl
  refine ⟨_, rfl, fun names => ?_, counts, fun qualifies => ?_⟩
  · refine (coherent.lookups names (compoundName f.key r.id)).trans ?_
    rw [Store.liveValue?] at live
    rw [Store.answer?, Store.find?, live]
    rfl
  · exact gate_passed got shown (List.mem_of_find?_eq_some field) qualifies counts

/-- A question with a group whose second option excludes the first. -/
def groupText : String := "[A!]\n(+1)x\n(!2)y\n[END]"

/-- Of two options selected at once the excluding one is kept and read back. -/
theorem setField_readBack_group : ∃ survey t,
    (Survey.compile {} "s" groupText).toOption = some survey ∧
    (ofSurvey survey {} none).start.2.setField "choices" (.many ["1", "2"]) = (.ok (), t) ∧
    (t.store.lookupField "choices" "A").1 = some (.many ["2"]) := by
  have evaluated : ((Survey.compile {} "s" groupText).toOption.map fun survey =>
      let s := (ofSurvey survey {} none).start.2
      (s.navigator.current?, (survey.record? "A").bind fun r =>
        (r.field? "choices").map fun f => s.kept r f (.many ["1", "2"]))) =
      some (some "A", some (.many ["2"])) := by
    decide +kernel
  obtain ⟨survey, accepted, evaluated⟩ := Option.map_eq_some_iff.1 evaluated
  simp only [Prod.mk.injEq, Option.bind_eq_some_iff, Option.map_eq_some_iff] at evaluated
  obtain ⟨shown, r, found, f, field, kept⟩ := evaluated
  have numeral : Store.numeral? (compoundName "choices" "A") = none := by decide +kernel
  obtain ⟨t, set, lookup, -, -⟩ := setField_readBack (s := (ofSurvey survey {} none).start.2)
    (Survey.compiled_of_toOption accepted) shown found field (by rw [kept]; rfl) (by decide)
    fun same => absurd same (by decide)
  refine ⟨survey, t, accepted, set, (lookup []).trans ?_⟩
  rw [numeral, kept]
  rfl

/-- A question with a free text behind an option whose value has a point. -/
def pointText : String := "[A!]\n(1.5)x\x7bother\x7d\n[END]"

/-- The answer to a field whose key has a point is recorded, but not found, and the question
counts as unanswered. -/
theorem setField_point_unread : ∃ survey r f t,
    (Survey.compile {} "s" pointText).toOption = some survey ∧
    survey.record? "A" = some r ∧ r.field? "other_1.5" = some f ∧
    (ofSurvey survey {} none).start.2.setField "other_1.5" (.one "x") = (.ok (), t) ∧
    ((t.store.entry? "A").bind (·.field? "other_1.5")) = some (.one "x") ∧
    (t.store.lookupField "other_1.5" "A").1 = none ∧
    GateOutcome.isAnswered t.store "A" f = false ∧ t.gate = .blocked 2 false := by
  have evaluated : ((Survey.compile {} "s" pointText).toOption.map fun survey =>
      let outcome := (ofSurvey survey {} none).start.2.setField "other_1.5" (.one "x")
      let t := outcome.2
      (outcome.1.toOption.isSome, ((survey.record? "A").bind fun r =>
          (r.field? "other_1.5").map (GateOutcome.isAnswered t.store "A")),
        (t.store.entry? "A").bind (·.field? "other_1.5"),
        (t.store.lookupField "other_1.5" "A").1, t.gate)) =
      some (true, some false, some (.one "x"), none, .blocked 2 false) := by
    decide +kernel
  obtain ⟨survey, accepted, evaluated⟩ := Option.map_eq_some_iff.1 evaluated
  simp only [Prod.mk.injEq] at evaluated
  obtain ⟨success, counts, recorded, unread, blocked⟩ := evaluated
  simp only [Option.bind_eq_some_iff, Option.map_eq_some_iff] at counts
  obtain ⟨r, found, f, field, uncounted⟩ := counts
  refine ⟨survey, r, f, _, accepted, found, field, ?_, recorded, unread, uncounted, blocked⟩
  cases outcome : (ofSurvey survey {} none).start.2.setField "other_1.5" (.one "x") with
  | mk result t =>
    rw [outcome] at success
    cases result with
    | error e => cases success
    | ok => rfl

end Session

end Questionnaire
